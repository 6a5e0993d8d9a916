import TkinedRemix.Lib.Chain
import TkinedRemix.Map.ItemCore

/-!
The graph of the items: every pointer has its entry in a vector of the item it points to. While an item is
deleted some of its pointers are cut, and it is hidden.
-/

namespace Tnm.Map

open Lib List Option Function

def pointer (cut : List (Nat × Edge)) (world : World) (id : Nat) (edge : Edge) : Option Nat :=
  if (id, edge) ∈ cut then none else (world.heap id).bind fun item => item.edge edge

def Vector.edges : Vector → List Edge
  | .members => [.parent]
  | .links => [.src, .dst]

def tally (pointers : Nat → Edge → Option Nat) (vector : Vector) (target id : Nat) : Nat :=
  vector.edges.countP fun edge => pointers id edge = some target

def Fits : Edge → ItemType → ItemType → Prop
  | .parent, type, target => target = type.parentType
  | _, type, target => type = .link ∧ (target = .network ∨ target = .port)

def ancestry (cut : List (Nat × Edge)) (world : World) (id : Nat) : Option (Option Nat) :=
  (world.heap id).map fun _ => pointer cut world id .parent

def Rooted (parents : Nat → Option (Option Nat)) : Prop :=
  ∀ id up, parents id = some up → ∃ cells, Linked (fun up => up) parents (some id) cells

def World.Numbered (world : World) : Prop :=
  ∀ id item, world.heap id = some item → item.id = id ∧ id < world.nextPtr

structure Sound (cut : List (Nat × Edge)) (hidden : List Nat) (world : World) : Prop where
  ids : world.Numbered
  nodup : world.itemList.Nodup
  listed : ∀ id, id ∈ world.itemList ↔ (∃ item, world.heap id = some item) ∧ id ∉ hidden
  counts : ∀ target item, world.heap target = some item → ∀ vector id,
    (item.vector vector).count id = tally (pointer cut world) vector target id
  targets : ∀ id edge target, pointer cut world id edge = some target →
    ∃ item other, world.heap id = some item ∧ world.heap target = some other ∧
      Fits edge item.type other.type ∧ other.mapPtr = item.mapPtr
  rooted : Rooted (ancestry cut world)

section

variable {target id : Nat}

theorem tally_iff {first second : Nat → Edge → Option Nat}
    (same : ∀ edge, first id edge = some target ↔ second id edge = some target) (vector : Vector) :
    tally first vector target id = tally second vector target id := by
  exact countP_congr fun edge _ => by simp only [same]

theorem tally_extended (fewer more : Nat → Edge → Option Nat) {edge : Edge}
    (others : ∀ other side, (other, side) ≠ (id, edge) → more other side = fewer other side)
    (missing : fewer id edge = none) (present : more id edge = some target) (vector : Vector) (owner other : Nat) :
    tally more vector owner other =
      tally fewer vector owner other + if other = id ∧ edge.vector = vector ∧ owner = target then 1 else 0 := by
  by_cases same : other = id
  · subst same
    have sides : ∀ side, side ≠ edge → more other side = fewer other side := fun side differs =>
      others other side fun pair => differs (Prod.mk.inj pair).2
    by_cases hit : owner = target
    · subst hit
      cases edge <;> cases vector <;> simp [tally, Vector.edges, Edge.vector, missing, present, sides,
        countP_cons]
      omega
    · have apart : ¬target = owner := fun equal => hit equal.symm
      cases edge <;> cases vector <;> simp [tally, Vector.edges, missing, present, sides, hit, apart,
        countP_cons]
  · rw [if_neg fun both => same both.1]
    refine tally_iff (fun side => ?_) vector
    rw [others other side fun pair => same (Prod.mk.inj pair).1]

theorem tally_pos {pointers : Nat → Edge → Option Nat} {vector : Vector}
    (positive : 0 < tally pointers vector target id) :
    ∃ edge, edge.vector = vector ∧ pointers id edge = some target := by
  obtain ⟨edge, member, holds⟩ := countP_pos_iff.mp positive
  refine ⟨edge, ?_, of_decide_eq_true holds⟩
  cases vector <;> simp [Vector.edges] at member
  · subst member
    rfl
  · rcases member with rfl | rfl <;> rfl

theorem tally_zero {pointers : Nat → Edge → Option Nat} {vector : Vector} (zero : tally pointers vector target id = 0)
    {edge : Edge} (kind : edge.vector = vector) : pointers id edge ≠ some target := by
  intro points
  have absent := countP_eq_zero.mp zero edge (by subst kind; cases edge <;> simp [Vector.edges, Edge.vector])
  exact absent (decide_eq_true points)

end

section

def Item.kind (item : Item) : Nat × Nat × ItemType × Nat := (item.id, item.mapPtr, item.type, item.token)

variable {first second : Item}

theorem kind_eq (same : first.kind = second.kind) :
    first.id = second.id ∧ first.mapPtr = second.mapPtr ∧ first.type = second.type ∧ first.token = second.token := by
  simpa [Item.kind] using same

def Item.shape (item : Item) : Nat × Nat × ItemType := (item.id, item.mapPtr, item.type)

theorem shape_eq (same : first.shape = second.shape) :
    first.id = second.id ∧ first.mapPtr = second.mapPtr ∧ first.type = second.type := by
  simpa [Item.shape] using same

theorem shape_of_kind (same : first.kind = second.kind) : first.shape = second.shape := by
  obtain ⟨id, map, type, _⟩ := kind_eq same
  rw [Item.shape, Item.shape, id, map, type]

theorem drop_vector (item : Item) (kind vector : Vector) (element : Nat) : (item.drop kind element).vector vector =
      if kind = vector then (item.vector vector).erase element else item.vector vector := by
  cases kind <;> cases vector <;> rfl

theorem add_vector (item : Item) (kind vector : Vector) (element : Nat) : (item.add kind element).vector vector =
      if kind = vector then item.vector vector ++ [element] else item.vector vector := by
  cases kind <;> cases vector <;> rfl

section

variable (item : Item) (vector : Vector) (element : Nat)
include item vector element

theorem drop_kind : (item.drop vector element).kind = item.kind := by
  cases vector <;> rfl

theorem add_kind : (item.add vector element).kind = item.kind := by
  cases vector <;> rfl

theorem drop_edge (edge : Edge) : (item.drop vector element).edge edge = item.edge edge := by
  cases vector <;> cases edge <;> rfl

theorem add_edge (edge : Edge) : (item.add vector element).edge edge = item.edge edge := by
  cases vector <;> cases edge <;> rfl

end

def World.set (world : World) (id : Nat) (item : Item) : World :=
  { world with heap := update world.heap id (some item) }

variable {world : World} {id : Nat} {item : Item}

theorem modify_eq_set (stored : world.heap id = some item) (change : Item → Item) :
    world.modify id change = some (world.set id (change item)) := by
  rw [World.modify, stored]
  rfl

theorem put_eq_set (world : World) (own : item.id = id) : world.put item = world.set id item :=
  own ▸ rfl

theorem set_heap_self (world : World) (id : Nat) (item : Item) : (world.set id item).heap id = some item :=
  update_self ..

theorem set_heap_other (world : World) {other : Nat} (item : Item) (differs : other ≠ id) :
    (world.set id item).heap other = world.heap other :=
  update_of_ne differs ..

def SameItems (before after : World) : Prop :=
  ∀ id, (after.heap id).map Item.shape = (before.heap id).map Item.shape

variable {before after : World}

theorem SameItems.symm (same : SameItems before after) : SameItems after before :=
  fun id => (same id).symm

theorem SameItems.stored (same : SameItems before after) (found : before.heap id = some item) :
    ∃ changed, after.heap id = some changed ∧ changed.shape = item.shape := by
  have shapes := same id
  rw [found] at shapes
  exact map_eq_some_iff.mp shapes

theorem SameItems.live (same : SameItems before after) (id : Nat) :
    (∃ item, after.heap id = some item) ↔ ∃ item, before.heap id = some item := by
  constructor
  · rintro ⟨_, found⟩
    obtain ⟨old, stored, _⟩ := same.symm.stored found
    exact ⟨old, stored⟩
  · rintro ⟨_, found⟩
    obtain ⟨changed, stored, _⟩ := same.stored found
    exact ⟨changed, stored⟩

section

variable {old : Item} (stored : world.heap id = some old)
include stored

theorem set_map {β : Type} {view : Item → β} (same : view item = view old) (other : Nat) :
    ((world.set id item).heap other).map view = (world.heap other).map view := by
  by_cases here : other = id
  · subst here
    rw [set_heap_self, stored, map_some, map_some, same]
  · rw [set_heap_other world item here]

theorem set_each {relation : Item → Item → Prop} (changed : relation old item) (refl : ∀ item, relation item item)
    (other : Nat) (first second : Item) (found : world.heap other = some first)
    (again : (world.set id item).heap other = some second) : relation first second := by
  by_cases same : other = id
  · subst same
    rw [set_heap_self] at again
    cases again
    cases stored.symm.trans found
    exact changed
  · rw [set_heap_other _ _ same, found] at again
    cases again
    exact refl first

end

theorem set_same {old : Item} (stored : world.heap id = some old) (shape : item.shape = old.shape) :
    SameItems world (world.set id item) :=
  set_map stored shape

structure Alike (before after : World) : Prop where
  kinds : ∀ id, (after.heap id).map Item.kind = (before.heap id).map Item.kind
  rest : after = { before with heap := after.heap }

theorem Alike.refl (world : World) : Alike world world := ⟨fun _ => rfl, rfl⟩

theorem Alike.trans {first second third : World} (alike : Alike first second) (again : Alike second third) :
    Alike first third := by
  refine ⟨fun id => (again.kinds id).trans (alike.kinds id), ?_⟩
  rw [again.rest, alike.rest]

theorem Alike.same (alike : Alike before after) : SameItems before after := by
  intro id
  have shapes :=
    congrArg (Option.map fun kind : Nat × Nat × ItemType × Nat => (kind.1, kind.2.1, kind.2.2.1)) (alike.kinds id)
  rw [Option.map_map, Option.map_map] at shapes
  exact shapes

theorem Alike.list (alike : Alike before after) : after.itemList = before.itemList := by
  rw [alike.rest]

theorem Alike.next (alike : Alike before after) : after.nextPtr = before.nextPtr := by
  rw [alike.rest]

theorem set_alike {old : Item} (stored : world.heap id = some old) (kind : item.kind = old.kind) :
    Alike world (world.set id item) :=
  ⟨set_map stored kind, rfl⟩

end

section

variable {world : World} {id : Nat}

theorem pointer_stored {cut : List (Nat × Edge)} {item : Item} {edge : Edge} (found : world.heap id = some item)
    (whole : (id, edge) ∉ cut) : pointer cut world id edge = item.edge edge := by
  rw [pointer, if_neg whole, found, bind_some]

theorem pointer_cut_cons (cut : List (Nat × Edge)) (world : World) (id : Nat) (edge : Edge) (other : Nat)
    (side : Edge) :
    pointer ((id, edge) :: cut) world other side =
      if (other, side) = (id, edge) then none else pointer cut world other side := by
  unfold pointer
  by_cases same : (other, side) = (id, edge)
  · rw [if_pos (by rw [same]; exact mem_cons_self), if_pos same]
  · simp [same]

theorem pointer_set {old item : Item} (stored : world.heap id = some old)
    (edges : ∀ edge, item.edge edge = old.edge edge) (cut : List (Nat × Edge)) :
    pointer cut (world.set id item) = pointer cut world := by
  funext other edge
  unfold pointer
  by_cases same : other = id
  · subst same
    rw [set_heap_self, stored, bind_some, bind_some, edges]
  · rw [set_heap_other world item same]

theorem ancestry_at {cut others : List (Nat × Edge)} {before after : World}
    (live : (∃ item, after.heap id = some item) ↔ ∃ item, before.heap id = some item)
    (same : pointer others after id .parent = pointer cut before id .parent) :
    ancestry others after id = ancestry cut before id := by
  unfold ancestry
  rw [same]
  rcases found : before.heap id with _ | item
  · rcases again : after.heap id with _ | changed
    · rfl
    · obtain ⟨item, other⟩ := live.mp ⟨changed, again⟩
      cases found.symm.trans other
  · obtain ⟨_, again⟩ := live.mpr ⟨item, found⟩
    rw [again]
    rfl

theorem ancestry_congr {cut others : List (Nat × Edge)} {before after : World}
    (live : ∀ id, (∃ item, after.heap id = some item) ↔ ∃ item, before.heap id = some item)
    (same : ∀ id, pointer others after id .parent = pointer cut before id .parent) :
    ancestry others after = ancestry cut before :=
  funext fun id => ancestry_at (live id) (same id)

theorem Rooted.cut {parents shorter : Nat → Option (Option Nat)} (rooted : Rooted parents)
    (cuts : ∀ id up, parents id = some up → shorter id = some up ∨ shorter id = some none)
    (domain : ∀ id up, shorter id = some up → ∃ before, parents id = some before) : Rooted shorter := by
  intro id up stored
  obtain ⟨before, storedBefore⟩ := domain id up stored
  obtain ⟨_, linked⟩ := rooted id before storedBefore
  refine linked.cut ?_
  intro address _ cell found
  rcases cuts address cell found with same | ends
  · exact ⟨cell, same, .inl rfl⟩
  · exact ⟨none, ends, .inr rfl⟩

theorem Rooted.cut_cons {cut : List (Nat × Edge)} (rooted : Rooted (ancestry cut world)) (id : Nat) (edge : Edge) :
    Rooted (ancestry ((id, edge) :: cut) world) := by
  refine rooted.cut ?_ ?_
  · intro other up stored
    obtain ⟨_, found, rfl⟩ := map_eq_some_iff.mp stored
    unfold ancestry
    rw [found, pointer_cut_cons]
    split
    · exact .inr rfl
    · exact .inl rfl
  · intro _ _ stored
    obtain ⟨_, found, _⟩ := map_eq_some_iff.mp stored
    exact ⟨_, by rw [ancestry, found]; rfl⟩

end

section

variable {cut changed : List (Nat × Edge)} {hidden : List Nat} {world before after : World}

theorem Sound.change (sound : Sound cut hidden before) (same : SameItems before after)
    (list : after.itemList = before.itemList) (next : after.nextPtr = before.nextPtr)
    (counts : ∀ target item, after.heap target = some item → ∀ vector id,
      (item.vector vector).count id = tally (pointer changed after) vector target id)
    (targets : ∀ id edge target, pointer changed after id edge = some target →
      pointer cut before id edge = some target ∨
        ∃ item other, before.heap id = some item ∧ before.heap target = some other ∧
          Fits edge item.type other.type ∧ other.mapPtr = item.mapPtr)
    (rooted : Rooted (ancestry changed after)) : Sound changed hidden after := by
  refine ⟨?_, list ▸ sound.nodup, ?_, counts, ?_, rooted⟩
  · intro id item found
    obtain ⟨old, stored, shape⟩ := same.symm.stored found
    obtain ⟨own, bound⟩ := sound.ids id old stored
    exact ⟨(shape_eq shape).1.symm.trans own, next ▸ bound⟩
  · intro id
    rw [list, same.live]
    exact sound.listed id
  · intro id edge target points
    obtain ⟨item, other, found, stored, _, map⟩ : ∃ item other, before.heap id = some item ∧
        before.heap target = some other ∧ Fits edge item.type other.type ∧ other.mapPtr = item.mapPtr := by
      rcases targets id edge target points with same | fresh
      · exact sound.targets id edge target same
      · exact fresh
    obtain ⟨itemAfter, itemFound, itemShape⟩ := same.stored found
    obtain ⟨otherAfter, otherFound, otherShape⟩ := same.stored stored
    obtain ⟨_, itemMap, itemType⟩ := shape_eq itemShape
    obtain ⟨_, otherMap, otherType⟩ := shape_eq otherShape
    refine ⟨itemAfter, otherAfter, itemFound, otherFound, ?_, ?_⟩
    · rwa [itemType, otherType]
    · rw [itemMap, otherMap, map]

theorem Sound.repoint (sound : Sound cut hidden before) (same : SameItems before after)
    (list : after.itemList = before.itemList) (next : after.nextPtr = before.nextPtr)
    (pointers : pointer changed after = pointer cut before)
    (vectors : ∀ id old item, before.heap id = some old → after.heap id = some item →
      ∀ vector, item.vector vector = old.vector vector) : Sound changed hidden after := by
  refine sound.change same list next ?_ (fun _ _ _ points => .inl (pointers ▸ points)) ?_
  · intro target item found vector id
    obtain ⟨old, stored, _⟩ := same.symm.stored found
    rw [pointers, vectors target old item stored found]
    exact sound.counts target old stored vector id
  · rw [ancestry_congr same.live fun other => by rw [pointers]]
    exact sound.rooted

variable {id : Nat} {item : Item}

theorem Sound.set (sound : Sound cut hidden world) {old : Item} (stored : world.heap id = some old)
    (shape : item.shape = old.shape) (edges : ∀ edge, item.edge edge = old.edge edge)
    (vectors : ∀ vector, item.vector vector = old.vector vector) : Sound cut hidden (world.set id item) :=
  sound.repoint (set_same stored shape) rfl rfl (pointer_set stored edges cut)
    (set_each stored vectors fun _ _ => rfl)

variable {target : Nat} {edge : Edge} {owner : Item}

theorem Sound.drop (sound : Sound cut hidden world) (points : pointer cut world id edge = some target)
    (stored : world.heap target = some owner) :
    Sound ((id, edge) :: cut) hidden (world.set target (owner.drop edge.vector id)) := by
  have alike := set_alike stored (drop_kind owner edge.vector id)
  have pointers := pointer_set stored (drop_edge owner edge.vector id) ((id, edge) :: cut)
  have fewer := pointer_cut_cons cut world id edge
  have tallies := tally_extended (pointer ((id, edge) :: cut) world) (pointer cut world)
    (fun other side differs => by rw [fewer, if_neg differs]) (by rw [fewer, if_pos rfl]) points
  refine sound.change alike.same alike.list alike.next ?_ ?_ ?_
  · intro owner' record found vector other
    rw [pointers]
    have counted := tallies vector owner' other
    by_cases same : owner' = target
    · subst same
      rw [set_heap_self] at found
      cases found
      rw [← sound.counts owner' owner stored vector other] at counted
      rw [drop_vector]
      split
      next kind =>
        rw [count_erase]
        simp only [kind, and_true, beq_iff_eq] at counted ⊢
        simp only [eq_comm (a := id)]
        omega
      next kind =>
        rw [counted, if_neg fun all => kind all.2.1, Nat.add_zero]
    · rw [set_heap_other _ _ same] at found
      rw [sound.counts owner' record found vector other, counted, if_neg fun all => same all.2.2, Nat.add_zero]
  · intro other _ _ points
    rw [pointers, fewer] at points
    split at points
    · cases points
    · exact .inl points
  · rw [ancestry_congr alike.same.live fun other => by rw [pointers]]
    exact sound.rooted.cut_cons id edge

theorem Sound.apart (sound : Sound cut hidden world) (points : pointer cut world id edge = some target) :
    target ≠ id := by
  rintro rfl
  obtain ⟨item, other, found, stored, fits, _⟩ := sound.targets target edge target points
  cases found.symm.trans stored
  have ends : ¬(item.type = .link ∧ (item.type = .network ∨ item.type = .port)) := by
    rintro ⟨link, other⟩
    rw [link] at other
    rcases other with other | other <;> cases other
  cases edge with
  | src | dst => exact ends fits
  | parent =>
    have up : ancestry cut world target = some (some target) := by rw [ancestry, found, map_some, points]
    obtain ⟨_, linked⟩ := sound.rooted target (some target) up
    exact linked.irrefl up rfl

theorem pointer_moved {moved : Item} (found : world.heap id = some item)
    (others : ∀ side, side ≠ edge → moved.edge side = item.edge side) (other : Nat) (side : Edge) :
    pointer [] (world.set id moved) other side =
      if (other, side) = (id, edge) then moved.edge edge else pointer [(id, edge)] world other side := by
  by_cases same : other = id
  · subst same
    rw [pointer_stored (set_heap_self ..) not_mem_nil]
    by_cases hit : side = edge
    · rw [hit, if_pos rfl]
    · rw [if_neg fun pair => hit (Prod.mk.inj pair).2, others side hit, pointer_stored found (by simpa using hit)]
  · rw [if_neg fun pair => same (Prod.mk.inj pair).1, pointer_cut_cons, if_neg fun pair => same (Prod.mk.inj pair).1]
    unfold pointer
    rw [set_heap_other _ _ same]

theorem Sound.hook {moved : Item} (sound : Sound [(id, edge)] hidden world) (found : world.heap id = some item)
    (stored : world.heap target = some owner) (apart : target ≠ id) (fits : Fits edge item.type owner.type)
    (map : owner.mapPtr = item.mapPtr) (kind : moved.kind = item.kind) (linked : moved.edge edge = some target)
    (others : ∀ side, side ≠ edge → moved.edge side = item.edge side)
    (vectors : ∀ vector, moved.vector vector = item.vector vector)
    (above : edge = .parent → ∃ cells, Linked (fun up => up) (ancestry [(id, edge)] world) (some target) cells ∧
      id ∉ cells) :
    Sound [] hidden ((world.set target (owner.add edge.vector id)).set id moved) := by
  have foundAdded : (world.set target (owner.add edge.vector id)).heap id = some item := by
    rw [set_heap_other _ _ apart.symm, found]
  have alike := (set_alike stored (add_kind owner edge.vector id)).trans (set_alike foundAdded kind)
  have pointers : ∀ other side, pointer [] ((world.set target (owner.add edge.vector id)).set id moved) other side =
      if (other, side) = (id, edge) then some target else pointer [(id, edge)] world other side := by
    intro other side
    rw [pointer_moved foundAdded others, linked, pointer_set stored (add_edge owner edge.vector id)]
  have tallies := tally_extended (pointer [(id, edge)] world) _
    (fun other side differs => by rw [pointers, if_neg differs])
    (by rw [pointer_cut_cons, if_pos rfl]) ((pointers id edge).trans (if_pos rfl))
  refine sound.change alike.same alike.list alike.next ?_ ?_ ?_
  · intro address record again vector other
    rw [tallies vector address other]
    by_cases self : address = id
    · subst self
      rw [set_heap_self] at again
      cases again
      rw [vectors, if_neg fun all => apart all.2.2.symm]
      exact sound.counts address item found vector other
    · rw [set_heap_other _ _ self] at again
      by_cases same : address = target
      · subst same
        rw [set_heap_self] at again
        cases again
        rw [← sound.counts address owner stored vector other, add_vector]
        split
        next kind =>
          rw [count_append, count_singleton]
          simp only [kind, and_true, beq_iff_eq, eq_comm (a := id)]
        next kind =>
          rw [if_neg fun all => kind all.2.1, Nat.add_zero]
      · rw [set_heap_other _ _ same] at again
        rw [if_neg fun all => same all.2.2]
        exact sound.counts address record again vector other
  · intro other _ _ points
    rw [pointers] at points
    split at points
    next pair =>
      cases pair
      cases points
      exact .inr ⟨item, owner, found, stored, fits, map⟩
    next => exact .inl points
  · by_cases upward : edge = .parent
    · obtain ⟨_, chain, outside⟩ := above upward
      subst upward
      have redirected : ancestry [] ((world.set target (owner.add Edge.parent.vector id)).set id moved) =
          update (ancestry [(id, .parent)] world) id (some (some target)) := by
        funext other
        by_cases same : other = id
        · subst same
          rw [update_self, ancestry, set_heap_self, map_some, pointers, if_pos rfl]
        · rw [update_of_ne same]
          refine ancestry_at (alike.same.live other) ?_
          rw [pointers, if_neg fun pair => same (Prod.mk.inj pair).1]
      rw [redirected]
      intro other up known
      have before : ∃ up, ancestry [(id, .parent)] world other = some up := by
        by_cases same : other = id
        · subst same
          exact ⟨_, by rw [ancestry, found]; rfl⟩
        · rw [update_of_ne same] at known
          exact ⟨up, known⟩
      obtain ⟨old, known⟩ := before
      obtain ⟨_, linked⟩ := sound.rooted other old known
      exact linked.redirect rfl chain outside
    · rw [ancestry_congr alike.same.live fun other => by
        rw [pointers, if_neg fun pair => upward (Prod.mk.inj pair).2.symm]]
      exact sound.rooted

theorem Sound.release {moved : Item} (sound : Sound [(id, edge)] hidden world) (found : world.heap id = some item)
    (kind : moved.kind = item.kind) (null : moved.edge edge = none)
    (others : ∀ side, side ≠ edge → moved.edge side = item.edge side)
    (vectors : ∀ vector, moved.vector vector = item.vector vector) : Sound [] hidden (world.set id moved) := by
  have alike := set_alike found kind
  have pointers : pointer [] (world.set id moved) = pointer [(id, edge)] world := by
    funext other side
    rw [pointer_moved found others, null]
    split
    next pair => rw [pointer_cut_cons, if_pos pair]
    next => rfl
  exact sound.repoint alike.same alike.list alike.next pointers (set_each found vectors fun _ _ => rfl)

theorem Sound.cut_null (sound : Sound cut hidden world) (null : pointer cut world id edge = none) :
    Sound ((id, edge) :: cut) hidden world := by
  have pointers : pointer ((id, edge) :: cut) world = pointer cut world := by
    funext other side
    rw [pointer_cut_cons]
    split
    next pair =>
      cases pair
      exact null.symm
    next => rfl
  refine sound.repoint (Alike.refl world).same rfl rfl pointers fun _ _ _ stored again => ?_
  cases stored.symm.trans again
  exact fun _ => rfl

structure Trims (old item : Item) : Prop where
  kind : item.kind = old.kind
  vectors : ∀ vector, (item.vector vector).Sublist (old.vector vector)

theorem Trims.refl (item : Item) : Trims item item := ⟨rfl, fun _ => List.Sublist.refl _⟩

theorem Trims.trans {first second third : Item} (trims : Trims first second) (again : Trims second third) :
    Trims first third :=
  ⟨again.kind.trans trims.kind, fun vector => (again.vectors vector).trans (trims.vectors vector)⟩

theorem drop_trims (item : Item) (vector : Vector) (element : Nat) : Trims item (item.drop vector element) := by
  refine ⟨drop_kind item vector element, fun other => ?_⟩
  rw [drop_vector]
  split
  · exact erase_sublist
  · exact List.Sublist.refl _

structure Dropped (before after : World) : Prop where
  alike : Alike before after
  pointers : ∀ cut, pointer cut after = pointer cut before
  trims : ∀ id old item, before.heap id = some old → after.heap id = some item → Trims old item

theorem Dropped.refl (world : World) : Dropped world world := by
  refine ⟨.refl world, fun _ => rfl, fun id old item found again => ?_⟩
  cases found.symm.trans again
  exact .refl old

theorem dropped_set (stored : world.heap target = some owner) (vector : Vector) (id : Nat) :
    Dropped world (world.set target (owner.drop vector id)) := by
  refine ⟨set_alike stored (drop_kind owner vector id), pointer_set stored (drop_edge owner vector id), ?_⟩
  exact set_each stored (drop_trims owner vector id) .refl

theorem Sound.modifyAt_drop (sound : Sound cut hidden world) (edge : Edge) (found : world.heap id = some item)
    (whole : (id, edge) ∉ cut) : ∃ after, world.modifyAt (item.edge edge) (Item.drop edge.vector id) = some after ∧
      Sound ((id, edge) :: cut) hidden after ∧ Dropped world after ∧ after.heap id = some item := by
  have points := pointer_stored found whole
  rcases aim : item.edge edge with _ | target
  · exact ⟨world, rfl, sound.cut_null (points.trans aim), Dropped.refl world, found⟩
  · rw [aim] at points
    obtain ⟨_, _, _, stored, _⟩ := sound.targets id edge target points
    refine ⟨_, modify_eq_set stored _, sound.drop points stored, dropped_set stored .., ?_⟩
    rw [set_heap_other _ _ (sound.apart points).symm, found]

theorem reaches_linked {pointer : Option Nat} {cells : List Nat} {fuel : Nat}
    (linked : Linked (fun up => up) (ancestry [] world) pointer cells) (enough : cells.length ≤ fuel) :
    reaches world id fuel pointer = some (decide (id ∈ cells)) := by
  induction cells generalizing pointer fuel with
  | nil =>
    cases linked
    cases fuel <;> rfl
  | cons address _ ih =>
    obtain ⟨rfl, _, known, linked⟩ := linked
    obtain ⟨_, found, rfl⟩ := map_eq_some_iff.mp known
    cases fuel with
    | zero => cases enough
    | succ =>
      rw [reaches]
      by_cases same : address = id
      · subst same
        simp
      · have tail := ih linked (Nat.le_of_succ_le_succ enough)
        rw [pointer_stored found not_mem_nil] at tail
        rw [if_neg same, found]
        exact tail.trans (by simp [Ne.symm same])

theorem Sound.mem_vector (sound : Sound cut hidden world) (stored : world.heap target = some owner) (vector : Vector)
    (id : Nat) : id ∈ owner.vector vector ↔ ∃ edge, edge.vector = vector ∧ pointer cut world id edge = some target := by
  have counted := sound.counts target owner stored vector id
  constructor
  · intro member
    exact tally_pos (counted ▸ count_pos_iff.mpr member)
  · rintro ⟨_, kind, points⟩
    by_contra outside
    rw [count_eq_zero_of_not_mem outside] at counted
    exact tally_zero counted.symm kind points

def Item.orphaned (item : Item) : Item := { item with parent := none }

theorem orphan_eq (members : List Nat) (live : ∀ member ∈ members, ∃ item, world.heap member = some item) :
    orphan world members = some { world with heap := fun id =>
      if id ∈ members then (world.heap id).map Item.orphaned else world.heap id } := by
  induction members generalizing world with
  | nil => simp [orphan]
  | cons member rest ih =>
    obtain ⟨item, found⟩ := live member mem_cons_self
    have again : ∀ other ∈ rest, ∃ item', (world.set member item.orphaned).heap other = some item' := by
      intro other later
      by_cases same : other = member
      · exact ⟨item.orphaned, by rw [same, set_heap_self]⟩
      · rw [set_heap_other _ _ same]
        exact live other (mem_cons_of_mem _ later)
    rw [orphan, modify_eq_set found]
    refine (ih again).trans ?_
    refine congrArg (fun heap => some { world with heap := heap }) ?_
    funext other
    by_cases same : other = member
    · subst same
      simp [set_heap_self, found, Item.orphaned]
    · simp [set_heap_other _ _ same, same]

theorem orphaned_edge (item : Item) (edge : Edge) :
    item.orphaned.edge edge = if edge = .parent then none else item.edge edge := by
  cases edge <;> rfl

def World.remove (world : World) (id : Nat) (members : List Nat) : World :=
  { world with heap := fun other =>
      if other = id then none else if other ∈ members then (world.heap other).map Item.orphaned else world.heap other }

theorem orphan_free (id : Nat) (members : List Nat) (live : ∀ member ∈ members, ∃ item, world.heap member = some item) :
    ((orphan world members).map fun world => world.free id) = some (world.remove id members) := by
  rw [orphan_eq members live, map_some]
  refine congrArg (fun heap => some { world with heap := heap }) ?_
  funext other
  rw [update_apply]

variable {members : List Nat}

theorem remove_heap {other : Nat} (found : (world.remove id members).heap other = some item) :
    other ≠ id ∧ ∃ old, world.heap other = some old ∧ item = if other ∈ members then old.orphaned else old := by
  simp only [World.remove] at found
  split at found
  · cases found
  next differs =>
    refine ⟨differs, ?_⟩
    split at found
    next member =>
      obtain ⟨old, stored, rfl⟩ := map_eq_some_iff.mp found
      exact ⟨old, stored, (if_pos member).symm⟩
    next outside => exact ⟨item, found, (if_neg outside).symm⟩

theorem remove_stored {other : Nat} {old : Item} (differs : other ≠ id) (stored : world.heap other = some old) :
    (world.remove id members).heap other = some (if other ∈ members then old.orphaned else old) := by
  simp only [World.remove, if_neg differs, stored]
  split <;> rfl

theorem Sound.remove_pointer (sound : Sound cut hidden world) (stored : world.heap id = some item)
    (bare : ∀ edge, pointer cut world id edge = none) (unlinked : item.linkedItems = [])
    (cuts : ∀ other edge, other ≠ id → ((other, edge) ∈ changed ↔ (other, edge) ∈ cut)) (other : Nat) (edge : Edge)
    (target : Nat) : pointer changed (world.remove id item.memberItems) other edge = some target ↔
      pointer cut world other edge = some target ∧ target ≠ id := by
  by_cases same : other = id
  · subst same
    rw [bare]
    simp [pointer, World.remove]
  by_cases isCut : (other, edge) ∈ cut
  · simp [pointer, isCut, (cuts other edge same).mpr isCut]
  have whole : (other, edge) ∉ changed := fun member => isCut ((cuts other edge same).mp member)
  rcases found : world.heap other with _ | record
  · simp [pointer, World.remove, found]
  have points := pointer_stored found isCut
  rw [pointer_stored (remove_stored same found) whole]
  by_cases hit : pointer cut world other edge = some id
  · -- only members can point to the item, with their parent
    have upward : edge = .parent := by
      by_contra side
      have member : other ∈ item.vector .links :=
        (sound.mem_vector stored .links other).mpr ⟨edge, by cases edge <;> first | rfl | exact absurd rfl side, hit⟩
      rw [Item.vector, unlinked] at member
      cases member
    subst upward
    have member : other ∈ item.memberItems := (sound.mem_vector stored .members other).mpr ⟨.parent, rfl, hit⟩
    rw [if_pos member, hit]
    simp [orphaned_edge, eq_comm]
  · have kept : (if other ∈ item.memberItems then record.orphaned else record).edge edge = record.edge edge := by
      split
      next member =>
        obtain ⟨up, kind, upPoints⟩ := (sound.mem_vector stored .members other).mp member
        rw [orphaned_edge, if_neg]
        rintro rfl
        cases up
        · exact hit upPoints
        · cases kind
        · cases kind
      next => rfl
    rw [kept, ← points]
    constructor
    · intro aims
      refine ⟨aims, ?_⟩
      rintro rfl
      exact hit aims
    · exact And.left

theorem Sound.remove_rooted (sound : Sound cut hidden world)
    (pointers : ∀ other edge target, pointer changed (world.remove id members) other edge = some target ↔
      pointer cut world other edge = some target ∧ target ≠ id) :
    Rooted (ancestry changed (world.remove id members)) := by
  have orphans : Rooted fun other => (world.heap other).map fun _ =>
      pointer changed (world.remove id members) other .parent := by
    refine sound.rooted.cut ?_ ?_
    · intro other up known
      obtain ⟨record, found, rfl⟩ := map_eq_some_iff.mp known
      rw [found]
      rcases points : pointer changed (world.remove id members) other .parent with _ | target
      · exact .inr rfl
      · exact .inl (congrArg some ((pointers other .parent target).mp points).1.symm)
    · intro other up known
      obtain ⟨_, found, _⟩ := map_eq_some_iff.mp known
      exact ⟨_, by rw [ancestry, found]; rfl⟩
  intro other _ known
  obtain ⟨_, found, _⟩ := map_eq_some_iff.mp known
  obtain ⟨differs, _, storedOther, _⟩ := remove_heap found
  obtain ⟨cells, linked⟩ := orphans other _ (congrArg (Option.map _) storedOther)
  have avoids : id ∉ cells := by
    refine linked.avoids (fun same => differs (some.inj same)) ?_
    intro address _ cellStored points
    obtain ⟨_, _, rfl⟩ := map_eq_some_iff.mp cellStored
    exact ((pointers address .parent id).mp points).2 rfl
  refine ⟨cells, linked.frame ?_⟩
  intro address member
  have apart : address ≠ id := fun same => avoids (same ▸ member)
  unfold ancestry
  rcases place : world.heap address with _ | _
  · simp [World.remove, place]
  · rw [remove_stored apart place]
    rfl

theorem Sound.remove {seen : List Nat} (sound : Sound cut hidden world) (stored : world.heap id = some item)
    (out : id ∈ hidden) (bare : ∀ edge, pointer cut world id edge = none) (unlinked : item.linkedItems = [])
    (cuts : ∀ other edge, other ≠ id → ((other, edge) ∈ changed ↔ (other, edge) ∈ cut))
    (hides : ∀ other, other ≠ id → (other ∈ seen ↔ other ∈ hidden)) :
    Sound changed seen (world.remove id item.memberItems) := by
  have pointers := sound.remove_pointer stored bare unlinked cuts
  refine ⟨?_, sound.nodup, ?_, ?_, ?_, ?_⟩
  · intro other record found
    obtain ⟨_, old, known, rfl⟩ := remove_heap found
    have kept := sound.ids other old known
    split <;> exact kept
  · intro other
    refine (sound.listed other).trans ?_
    by_cases same : other = id
    · subst same
      simp [out, World.remove]
    · rw [hides other same]
      refine and_congr_left fun _ => ⟨?_, ?_⟩
      · rintro ⟨old, known⟩
        exact ⟨_, remove_stored same known⟩
      · rintro ⟨record, found⟩
        obtain ⟨_, old, known, _⟩ := remove_heap found
        exact ⟨old, known⟩
  · intro target _ found vector other
    obtain ⟨differs, old, known, rfl⟩ := remove_heap found
    have counted := sound.counts target old known vector other
    rw [tally_iff fun edge => (pointers other edge target).trans (and_iff_left differs), ← counted]
    split
    · cases vector <;> rfl
    · rfl
  · intro other edge target points
    obtain ⟨pointed, differs⟩ := (pointers other edge target).mp points
    obtain ⟨_, _, firstStored, secondStored, fits, map⟩ := sound.targets other edge target pointed
    have self : other ≠ id := by
      rintro rfl
      rw [bare] at pointed
      cases pointed
    refine ⟨_, _, remove_stored self firstStored, remove_stored differs secondStored, ?_, ?_⟩
    · split <;> split <;> exact fits
    · split <;> split <;> exact map
  · exact sound.remove_rooted pointers

end

end Tnm.Map
