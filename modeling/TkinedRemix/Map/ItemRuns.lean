import TkinedRemix.Lib.Machine
import TkinedRemix.Map.ItemDeletion
import TkinedRemix.Map.ItemOptions

/-!
Runs of creations, configurations and deletions of items. Pointers and vectors agree unless a creation fails
after the new item was linked.
-/

namespace Tnm.Map

open Lib List Option Function

section

variable (getInt : String → Option Int)

inductive Action where
  | create (map : Nat) (type : ItemType) (arguments : List (String × String))
  | configure (id : Nat) (arguments : List (String × String))
  | destroy (id : Nat)
  | load (map : Nat)
  | loaded (map : Nat)
  | tick (now : TclTime)

def itemAction (world : World) : Action → Option World
  | .create map type arguments => (createItem getInt world map type arguments).map Prod.fst
  | .configure id arguments =>
    if id ∈ world.itemList then (configure getInt world id arguments).map Prod.fst else some world
  | .destroy id => if id ∈ world.itemList then destroyItem world id else some world
  | .load map => some { world with loading := map :: world.loading }
  | .loaded map => some { world with loading := world.loading.filter (· ≠ map) }
  | .tick now => some { world with now }

def itemStep (state : Option World) (action : Action) : Option World :=
  state.bind fun world => itemAction getInt world action

def World.start (commands : List String) (now : TclTime) : World :=
  { heap := fun _ => none, itemList := [], nextPtr := 0, nextId := fun _ => 0, commands, loading := [], now }

/-- `Item.complete` for the pointers that are set. -/
def ItemType.completes (held : List Edge) : ItemType → Bool
  | .link => .src ∈ held && .dst ∈ held
  | .port => .parent ∈ held
  | _ => true

def linking (world : World) (map : Nat) (type : ItemType) (arguments : List (String × String)) : Bool × List Edge :=
  match readArguments type arguments with
  | none => (false, [])
  | some settings => outcome (accepts getInt world map type) settings []

/-- A creation either works or fails before the item is linked to another one. -/
def unbroken (world : World) (map : Nat) (type : ItemType) (arguments : List (String × String)) : Bool :=
  let (ok, held) := linking getInt world map type arguments
  held.isEmpty || (ok && type.completes held)

def Unbroken (state : Option World) : Action → Prop
  | .create map type arguments => (state.all fun world => unbroken getInt world map type arguments) = true
  | _ => True

end

section

def World.Contains (world : World) (id target : Nat) : Prop :=
  ∃ item, world.heap id = some item ∧ item.parent = some target

def World.Refers (world : World) (item : Item) (target : Nat) : Prop :=
  target ∈ world.itemList ∧ ∃ other, world.heap target = some other ∧ other.mapPtr = item.mapPtr

structure WellFormed (world : World) : Prop where
  listed : world.itemList.Nodup ∧ ∀ id, id ∈ world.itemList ↔ ∃ item, world.heap id = some item
  members : ∀ id item target owner, world.heap id = some item → world.heap target = some owner →
    owner.memberItems.count id = if item.parent = some target then 1 else 0
  links : ∀ id item target owner, world.heap id = some item → world.heap target = some owner →
    owner.linkedItems.count id =
      (if item.srcPtr = some target then 1 else 0) + if item.dstPtr = some target then 1 else 0
  acyclic : ∀ id, ¬Relation.TransGen world.Contains id id
  pointers : ∀ id item, world.heap id = some item → ∀ edge target, item.edge edge = some target →
    world.Refers item target
  entries : ∀ id item, world.heap id = some item → ∀ vector, ∀ target ∈ item.vector vector, world.Refers item target

variable {world : World}

theorem Sound.contains (sound : Sound [] [] world) (id : Nat) : ¬Relation.TransGen world.Contains id id := by
  intro path
  refine acyclic sound.rooted id (Relation.TransGen.mono ?_ id id path)
  rintro _ target ⟨_, stored, points⟩
  refine ⟨some target, ?_, rfl⟩
  rw [ancestry, stored, pointer_stored stored not_mem_nil]
  exact congrArg some points

theorem Sound.wellFormed (sound : Sound [] [] world) : WellFormed world := by
  have visible : ∀ id, id ∈ world.itemList ↔ ∃ item, world.heap id = some item := by
    intro id
    rw [sound.listed id]
    simp
  refine ⟨⟨sound.nodup, visible⟩, ?_, ?_, sound.contains, ?_, ?_⟩
  · intro id item target owner found stored
    rw [show owner.memberItems = owner.vector .members from rfl, sound.counts target owner stored]
    simp [tally, Vector.edges, pointer_stored found, Item.edge]
  · intro id item target owner found stored
    rw [show owner.linkedItems = owner.vector .links from rfl, sound.counts target owner stored]
    simp [tally, Vector.edges, countP_cons, pointer_stored found, Item.edge, Nat.add_comm]
  · intro id item found edge target points
    obtain ⟨record, other, again, stored, _, map⟩ := sound.targets id edge target
      ((pointer_stored found not_mem_nil).trans points)
    cases found.symm.trans again
    exact ⟨(visible target).mpr ⟨other, stored⟩, other, stored, map⟩
  · intro id _ found vector target member
    obtain ⟨edge, _, points⟩ := (sound.mem_vector found vector target).mp member
    obtain ⟨record, _, stored, again, _, map⟩ := sound.targets target edge id points
    cases found.symm.trans again
    exact ⟨(visible target).mpr ⟨record, stored⟩, record, stored, map.symm⟩

end

section

variable {world : World} {hidden : List Nat} (getInt : String → Option Int)

def World.allocate (world : World) (map : Nat) (type : ItemType) : World :=
  { world.put (newItem world.nextPtr map type) with nextPtr := world.nextPtr + 1 }

variable {id : Nat}

theorem allocate_heap_other (map : Nat) (type : ItemType) (old : id ≠ world.nextPtr) :
    (world.allocate map type).heap id = world.heap id :=
  update_of_ne old ..

theorem allocate_heap_self (map : Nat) (type : ItemType) :
    (world.allocate map type).heap world.nextPtr = some (newItem world.nextPtr map type) :=
  update_self ..

variable {item : Item}

theorem allocate_numbered (numbered : world.Numbered) (map : Nat) (type : ItemType) :
    (world.allocate map type).Numbered := by
  intro id item found
  by_cases same : id = world.nextPtr
  · subst same
    rw [allocate_heap_self] at found
    cases found
    exact ⟨rfl, Nat.lt_succ_self _⟩
  · rw [allocate_heap_other map type same] at found
    obtain ⟨own, bound⟩ := numbered id item found
    exact ⟨own, Nat.lt_succ_of_lt bound⟩

theorem Sound.old (sound : Sound [] hidden world) (stored : world.heap id = some item) : id ≠ world.nextPtr :=
  Nat.ne_of_lt (sound.ids id item stored).2

theorem Sound.allocate_pointer (sound : Sound [] hidden world) (map : Nat) (type : ItemType) :
    pointer [] (world.allocate map type) = pointer [] world := by
  funext id edge
  unfold pointer
  by_cases same : id = world.nextPtr
  · subst same
    have unused : world.heap world.nextPtr = none := by
      rcases place : world.heap world.nextPtr with _ | _
      · rfl
      · exact absurd rfl (sound.old place)
    rw [allocate_heap_self, unused]
    cases edge <;> rfl
  · rw [allocate_heap_other map type same]

theorem Sound.allocate (sound : Sound [] [] world) (map : Nat) (type : ItemType) :
    Sound [] [world.nextPtr] (world.allocate map type) := by
  have pointers := sound.allocate_pointer map type
  have kept : ∀ id item, world.heap id = some item → (world.allocate map type).heap id = some item := by
    intro id item stored
    rw [allocate_heap_other map type (sound.old stored), stored]
  refine ⟨allocate_numbered sound.ids map type, sound.nodup, ?_, ?_, ?_, ?_⟩
  · intro id
    refine (sound.listed id).trans ?_
    by_cases same : id = world.nextPtr
    · subst same
      refine iff_of_false ?_ (by simp)
      rintro ⟨⟨item, stored⟩, _⟩
      exact sound.old stored rfl
    · rw [allocate_heap_other map type same]
      simp [same]
  · intro target item found vector id
    rw [pointers]
    by_cases same : target = world.nextPtr
    · subst same
      rw [allocate_heap_self] at found
      cases found
      -- nothing points to the new item
      have none : tally (pointer [] world) vector world.nextPtr id = 0 := by
        by_contra positive
        obtain ⟨edge, _, points⟩ := tally_pos (Nat.pos_of_ne_zero positive)
        obtain ⟨_, other, _, stored, _⟩ := sound.targets id edge _ points
        exact sound.old stored rfl
      rw [none]
      cases vector <;> rfl
    · rw [allocate_heap_other map type same] at found
      exact sound.counts target item found vector id
  · intro id edge target points
    rw [pointers] at points
    obtain ⟨item, other, found, stored, rest⟩ := sound.targets id edge target points
    exact ⟨item, other, kept id item found, kept target other stored, rest⟩
  · intro id _ known
    obtain ⟨_, found, rfl⟩ := map_eq_some_iff.mp known
    by_cases same : id = world.nextPtr
    · subst same
      refine ⟨[world.nextPtr], rfl, none, ?_, rfl⟩
      rw [ancestry, allocate_heap_self,
        pointer_stored (allocate_heap_self map type) not_mem_nil]
      rfl
    · rw [allocate_heap_other map type same] at found
      obtain ⟨cells, linked⟩ := sound.rooted id _ (by rw [ancestry, found]; rfl)
      refine ⟨cells, linked.frame ?_⟩
      intro _ member
      obtain ⟨_, cellKnown⟩ := linked.stored member
      obtain ⟨_, stored, _⟩ := map_eq_some_iff.mp cellKnown
      rw [ancestry, ancestry, pointers, allocate_heap_other map type (sound.old stored)]

theorem allocate_findItem (sound : Sound [] [] world) (map other : Nat) (type : ItemType) (name : String) :
    findItem (world.allocate map type) other name = findItem world other name := by
  have same : (world.allocate map type).items other = world.items other := by
    refine congrArg (List.filter _) (filterMap_congr fun id member => ?_)
    obtain ⟨⟨_, stored⟩, _⟩ := (sound.listed id).mp member
    exact allocate_heap_other map type (sound.old stored)
  rw [findItem, same, findItem]

theorem allocate_accepts (sound : Sound [] [] world) (map : Nat) (type : ItemType) :
    accepts getInt (world.allocate map type) map type = accepts getInt world map type := by
  funext value option
  cases option with
  | field field => exact setField_isSome getInt _ _ rfl rfl value field
  | edge side => cases side <;> simp only [accepts, allocate_findItem sound]

theorem remove_bare (id : Nat) : world.remove id [] = world.free id := by
  refine congrArg (fun heap => { world with heap := heap }) ?_
  funext other
  rw [update_apply]
  simp

theorem Sound.discard (sound : Sound [] [id] world) (found : world.heap id = some item)
    (bare : ∀ vector, item.vector vector = []) (loose : Held [] item) : Sound [] [] (world.free id) := by
  have removed : Sound [] [] (world.remove id item.memberItems) := by
    refine sound.remove found mem_cons_self ?_ (bare .links) (fun _ _ _ => Iff.rfl) ?_
    · intro edge
      rw [pointer_stored found not_mem_nil]
      have null := loose edge
      simpa using null
    · intro _ differs
      simp [differs]
  rwa [show item.memberItems = [] from bare .members, remove_bare] at removed

theorem Sound.publish {record : Item} (sound : Sound [] [id] world) (found : world.heap id = some item)
    (shape : record.shape = item.shape) (edges : ∀ edge, record.edge edge = item.edge edge)
    (vectors : ∀ vector, record.vector vector = item.vector vector) (counters : ItemType → Nat) :
    Sound [] [] { world.put record with itemList := id :: world.itemList, nextId := counters } := by
  have stored := sound.set found shape edges vectors
  have own : record.id = id := (shape_eq shape).1.trans (sound.ids id item found).1
  rw [put_eq_set _ own]
  have unlisted : id ∉ world.itemList := fun member => ((sound.listed id).mp member).2 mem_cons_self
  refine ⟨stored.ids, nodup_cons.mpr ⟨unlisted, sound.nodup⟩, ?_, stored.counts, stored.targets, stored.rooted⟩
  intro other
  have listed : other ∈ world.itemList ↔ _ := stored.listed other
  rw [mem_cons, listed]
  by_cases same : other = id
  · subst same
    simp [set_heap_self]
  · simp [same]

theorem completes_held {held : List Edge} (holds : Held held item) : item.complete = item.type.completes held := by
  have parent := holds .parent
  have src := holds .src
  have dst := holds .dst
  simp only [Item.edge] at parent src dst
  unfold Item.complete ItemType.completes
  cases item.type <;> simp [← parent, ← src, ← dst]

theorem stamp_unlinked (now : TclTime) (item : Item) (number : Nat) :
    let record : Item := { item.stamp now with token := number }
    record.shape = item.shape ∧ (∀ edge, record.edge edge = item.edge edge) ∧
      ∀ vector, record.vector vector = item.vector vector := by
  unfold Item.stamp
  split
  all_goals
    refine ⟨rfl, fun edge => ?_, fun vector => ?_⟩
    · cases edge <;> rfl
    · cases vector <;> rfl

structure Prepared (world : World) (map : Nat) (type : ItemType) (arguments : List (String × String)) (middle : World)
    (ok : Bool) (moved : Item) (held : List Edge) : Prop where
  done : configure getInt (world.allocate map type) world.nextPtr arguments = some (middle, ok)
  sound : Sound [] [world.nextPtr] middle
  stored : middle.heap world.nextPtr = some moved
  bare : ∀ vector, moved.vector vector = []
  typed : moved.type = type
  links : linking getInt world map type arguments = (ok, held)
  holds : Held held moved

theorem Sound.prepared (sound : Sound [] [] world) (map : Nat) (type : ItemType) (arguments : List (String × String)) :
    ∃ middle ok moved held, Prepared getInt world map type arguments middle ok moved held := by
  obtain ⟨middle, ok, moved, done, soundMiddle, stored, retouched, known⟩ :=
    configure_settles getInt arguments (sound.allocate map type) (allocate_heap_self map type)
  have loose : Held [] (newItem world.nextPtr map type) := fun edge => by cases edge <;> simp [newItem, Item.edge]
  obtain ⟨held, result, holds⟩ := known mem_cons_self rfl [] loose
  refine ⟨middle, ok, moved, held, done, soundMiddle, stored, ?_, (kind_eq retouched.kind).2.2.1, ?_, holds⟩
  · intro vector
    rw [retouched.vectors]
    cases vector <;> rfl
  · dsimp only [newItem] at result
    rw [allocate_accepts getInt sound] at result
    exact result

variable {map : Nat} {type : ItemType} {arguments : List (String × String)}

theorem Prepared.create {middle : World} {ok : Bool} {moved : Item} {held : List Edge}
    (prepared : Prepared getInt world map type arguments middle ok moved held) : (ok && type.completes held) = false ∧
        createItem getInt world map type arguments = some (middle.free world.nextPtr, none) ∨
      (ok && type.completes held) = true ∧
        ∃ after, createItem getInt world map type arguments = some (after, some world.nextPtr) ∧ Sound [] [] after := by
  change (_ ∧ (configure getInt (world.allocate map type) world.nextPtr arguments).bind _ = _) ∨
    (_ ∧ ∃ after, (configure getInt (world.allocate map type) world.nextPtr arguments).bind _ = _ ∧ _)
  rw [prepared.done, bind_some, ← prepared.typed, ← completes_held prepared.holds]
  cases ok with
  | false => exact .inl ⟨rfl, rfl⟩
  | true =>
    dsimp only
    rw [prepared.stored, map_some]
    cases complete : moved.complete with
    | false => exact .inl ⟨rfl, rfl⟩
    | true =>
      obtain ⟨shape, edges, vectors⟩ := stamp_unlinked middle.now moved
        (getHandle middle.names moved.type (middle.names.length + 1) (middle.nextId moved.type))
      exact .inr ⟨rfl, _, rfl, prepared.sound.publish prepared.stored shape edges vectors _⟩

theorem createItem_sound (sound : Sound [] [] world) (whole : unbroken getInt world map type arguments = true) :
    ∃ after result, createItem getInt world map type arguments = some (after, result) ∧ Sound [] [] after := by
  obtain ⟨_, _, _, held, prepared⟩ := sound.prepared getInt map type arguments
  rcases prepared.create with ⟨fails, done⟩ | ⟨_, after, done, soundAfter⟩
  · refine ⟨_, _, done, prepared.sound.discard prepared.stored prepared.bare ?_⟩
    have loose : held = [] := by
      rw [unbroken, prepared.links] at whole
      simpa [fails] using whole
    exact loose ▸ prepared.holds
  · exact ⟨after, _, done, soundAfter⟩

theorem createItem_dangling (sound : Sound [] [] world) (broken : unbroken getInt world map type arguments = false) :
    ∃ after, createItem getInt world map type arguments = some (after, none) ∧ ¬WellFormed after := by
  obtain ⟨middle, _, _, held, prepared⟩ := sound.prepared getInt map type arguments
  rw [unbroken, prepared.links] at broken
  obtain ⟨linked, fails⟩ := Bool.or_eq_false_iff.mp broken
  rcases prepared.create with ⟨_, done⟩ | ⟨works, _⟩
  · refine ⟨_, done, fun wellFormed => ?_⟩
    obtain ⟨edge, member⟩ : ∃ edge, edge ∈ held := exists_mem_of_ne_nil held (by simpa using linked)
    obtain ⟨target, points⟩ := isSome_iff_exists.mp ((prepared.holds edge).mpr member)
    have aims := (pointer_stored prepared.stored not_mem_nil).trans points
    obtain ⟨_, owner, _, stored, _⟩ := prepared.sound.targets _ edge target aims
    have entry := (prepared.sound.mem_vector stored edge.vector _).mpr ⟨edge, rfl, aims⟩
    have kept : (middle.free world.nextPtr).heap target = some owner := by
      rw [free_heap, if_neg (prepared.sound.apart aims), stored]
    obtain ⟨_, _, alive, _⟩ := wellFormed.entries target owner kept edge.vector _ entry
    rw [free_heap, if_pos rfl] at alive
    cases alive
  · cases works.symm.trans fails

end

section

variable {world : World} (getInt : String → Option Int)

theorem destroyItem_sound (sound : Sound [] [] world) {id : Nat} (listed : id ∈ world.itemList) :
    ∃ after, destroyItem world id = some after ∧ Sound [] [] after := by
  obtain ⟨⟨item, stored⟩, _⟩ := (sound.listed id).mp listed
  obtain ⟨after, done, soundAfter, _⟩ := itemDeleteProc_removes 3 [] [] world id item sound stored not_mem_nil
    (fun entry member => by cases member) (fun other member => by cases member) (by cases item.type <;> decide)
  exact ⟨after, done, soundAfter⟩

theorem itemAction_sound (sound : Sound [] [] world) {action : Action} (whole : Unbroken getInt (some world) action) :
    ∃ after, itemAction getInt world action = some after ∧ Sound [] [] after := by
  cases action with
  | create =>
    obtain ⟨after, _, done, soundAfter⟩ := createItem_sound getInt sound whole
    exact ⟨after, by rw [itemAction, done]; rfl, soundAfter⟩
  | configure id arguments =>
    rw [itemAction]
    split
    next listed =>
      obtain ⟨⟨_, stored⟩, _⟩ := (sound.listed id).mp listed
      obtain ⟨after, _, _, done, soundAfter, _⟩ := configure_settles getInt arguments sound stored
      exact ⟨after, by rw [done]; rfl, soundAfter⟩
    next => exact ⟨world, rfl, sound⟩
  | destroy =>
    rw [itemAction]
    split
    next listed => exact destroyItem_sound sound listed
    next => exact ⟨world, rfl, sound⟩
  | load | loaded | tick =>
    exact ⟨_, rfl, sound.ids, sound.nodup, sound.listed, sound.counts, sound.targets, sound.rooted⟩

theorem start_sound (commands : List String) (now : TclTime) : Sound [] [] (World.start commands now) := by
  refine ⟨?_, nodup_nil, ?_, ?_, ?_, ?_⟩
  · intro id item stored
    cases stored
  · simp [World.start]
  · intro target _ stored
    cases stored
  · intro id _ _ points
    simp [pointer, World.start] at points
  · intro _ _ known
    cases known

def Survives (state : Option World) : Prop := ∃ world, state = some world ∧ Sound [] [] world

/-- The pointers and the vectors of the items agree, if no creation fails behind its first link. -/
theorem items_wellFormed (commands : List String) (now : TclTime) {actions : List Action}
    (whole : Meets (itemStep getInt) (Unbroken getInt) (some (.start commands now)) actions) :
    ∃ world, run (itemStep getInt) (some (.start commands now)) actions = some world ∧ WellFormed world ∧
      ∀ map type arguments, unbroken getInt world map type arguments = false →
        ∃ after, createItem getInt world map type arguments = some (after, none) ∧ ¬WellFormed after := by
  have survives : Survives (run (itemStep getInt) (some (.start commands now)) actions) := by
    refine run_invariant ?_ ⟨_, rfl, start_sound commands now⟩ whole
    rintro _ _ condition ⟨world, rfl, sound⟩
    exact itemAction_sound getInt sound condition
  obtain ⟨world, reached, sound⟩ := survives
  exact ⟨world, reached, sound.wellFormed, fun map type arguments broken => createItem_dangling getInt sound broken⟩

def noNumber (_ : String) : Option Int := none

def midnight : TclTime := ⟨86400, 0, second_pos⟩

def selfLinked : List Action :=
  [.create 0 .network [], .create 0 .group [], .configure 0 [("-group", "group0")],
    .create 0 .link [("-src", "network0"), ("-dst", "network0")], .configure 1 [("-group", "group0")], .destroy 0]

theorem selfLinked_wellFormed : Meets (itemStep noNumber) (Unbroken noNumber) (some (.start [] midnight)) selfLinked ∧
      ∃ world, run (itemStep noNumber) (some (.start [] midnight)) selfLinked = some world ∧ WellFormed world := by
  have created : ∀ {state map type arguments},
      (state.all fun world => unbroken noNumber world map type arguments) = true →
        Unbroken noNumber state (.create map type arguments) := fun whole => whole
  have whole : Meets (itemStep noNumber) (Unbroken noNumber) (some (.start [] midnight)) selfLinked :=
    ⟨created (by decide +kernel), created (by decide +kernel), trivial, created (by decide +kernel), trivial, trivial,
      trivial⟩
  obtain ⟨world, reached, wellFormed, _⟩ := items_wellFormed noNumber [] midnight whole
  exact ⟨whole, world, reached, wellFormed⟩

def halfLinked : List Action := [.create 0 .network [], .create 0 .link [("-src", "network0")]]

/-- The network still has the entry of the freed link. -/
theorem halfLinked_dangling :
    ∃ world, run (itemStep noNumber) (some (.start [] midnight)) halfLinked = some world ∧ ¬WellFormed world := by
  have reached : ((run (itemStep noNumber) (some (.start [] midnight)) halfLinked).map fun world =>
      ((world.heap 0).map Item.linkedItems, (world.heap 1).isNone)) = some (some [1], true) := by decide +kernel
  obtain ⟨world, done, facts⟩ := map_eq_some_iff.mp reached
  refine ⟨world, done, fun wellFormed => ?_⟩
  obtain ⟨entries, freed⟩ := Prod.mk.inj facts
  obtain ⟨network, stored, linked⟩ := map_eq_some_iff.mp entries
  obtain ⟨_, _, alive, _⟩ := wellFormed.entries 0 network stored .links 1
    (by rw [Item.vector, linked]; exact mem_cons_self)
  rw [alive] at freed
  cases freed

end

end Tnm.Map
