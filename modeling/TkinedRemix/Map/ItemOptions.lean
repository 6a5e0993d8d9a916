import TkinedRemix.Map.ItemGraph

/-!
The configuration of items. Every option is set completely or not at all.
-/

namespace Tnm.Map

open Lib List Option

section

variable {before after world : World} {cut : List (Nat × Edge)} {hidden : List Nat}

theorem items_kinds (world : World) (map : Nat) : (world.items map).map Item.kind =
      (world.itemList.filterMap fun id => (world.heap id).map Item.kind).filter fun kind => kind.2.1 == map := by
  rw [← map_filterMap, List.filter_map]
  rfl

theorem findItem_kind (world : World) (map : Nat) (name : String) : (findItem world map name).map Item.kind =
      ((world.items map).map Item.kind).find? fun kind => handleName kind.2.2.1 kind.2.2.2 == name := by
  rw [find?_map]
  rfl

theorem Alike.found (alike : Alike before after) (map : Nat) (name : String) :
    (findItem after map name).map Item.kind = (findItem before map name).map Item.kind := by
  have kinds : (fun id => (after.heap id).map Item.kind) = fun id => (before.heap id).map Item.kind :=
    funext alike.kinds
  rw [findItem_kind, findItem_kind, items_kinds, items_kinds, alike.list, kinds]

theorem Sound.found (sound : Sound cut hidden world) {map : Nat} {name : String} {target : Item}
    (found : findItem world map name = some target) :
    world.heap target.id = some target ∧ target.mapPtr = map ∧ target.id ∉ hidden := by
  have member := mem_of_find?_eq_some found
  obtain ⟨listed, sameMap⟩ := mem_filter.mp member
  obtain ⟨id, entry, stored⟩ := mem_filterMap.mp listed
  have own := (sound.ids id target stored).1
  subst own
  exact ⟨stored, beq_iff_eq.mp sameMap, ((sound.listed target.id).mp entry).2⟩

end

section

variable (getInt : String → Option Int)

/-- An item may be linked by its type: only links have ends. -/
def Allowed (type : ItemType) : Opt → Prop
  | .field _ => True
  | .edge .parent => True
  | .edge _ => type = .link

def accepts (world : World) (map : Nat) (type : ItemType) (value : String) : Opt → Bool
  | .field field => (setField getInt world (newItem 0 map type) value field).isSome
  | .edge .parent => value == "" || (findItem world map value).any fun target => target.type == type.parentType
  | .edge _ => (findItem world map value).any fun target => target.type == .network || target.type == .port

def Opt.hold (value : String) (held : List Edge) : Opt → List Edge
  | .field _ => held
  | .edge .parent => if value = "" then held.filter (· ≠ .parent) else .parent :: held
  | .edge side => side :: held

def outcome (accept : String → Opt → Bool) : List (Opt × String) → List Edge → Bool × List Edge
  | [], held => (true, held)
  | (option, value) :: rest, held =>
    if accept value option then outcome accept rest (option.hold value held) else (false, held)

def Held (held : List Edge) (item : Item) : Prop := ∀ edge, (item.edge edge).isSome ↔ edge ∈ held

theorem setField_isSome {world other : World} (first second : Item) (map : second.mapPtr = first.mapPtr)
    (loading : other.loading = world.loading) (value : String) (field : Field) :
    (setField getInt other second value field).isSome = (setField getInt world first value field).isSome := by
  cases field <;> simp [setField, map, loading]

theorem Alike.accepts_eq {before after : World} (alike : Alike before after) (map : Nat) (type : ItemType)
    (value : String)
    (option : Opt) : accepts getInt after map type value option = accepts getInt before map type value option := by
  have loading : after.loading = before.loading := by rw [alike.rest]
  have types : ∀ test : ItemType → Bool,
      ((findItem after map value).any fun target => test target.type) =
        (findItem before map value).any fun target => test target.type := by
    intro test
    have same := congrArg (Option.any fun kind => test kind.2.2.1) (alike.found map value)
    rw [Option.any_map, Option.any_map] at same
    exact same
  cases option with
  | field field => exact setField_isSome getInt _ _ rfl loading value field
  | edge side =>
    cases side with
    | parent => rw [accepts, accepts, types fun found => found == type.parentType]
    | src | dst => exact types fun found => found == .network || found == .port

end

section

variable {world : World} {item : Item} (getInt : String → Option Int)

structure Retouched (item moved : Item) : Prop where
  kind : moved.kind = item.kind
  vectors : ∀ vector, moved.vector vector = item.vector vector

theorem touch_kind (world : World) (item : Item) : (touch world item).kind = item.kind := by
  unfold touch
  split <;> rfl

theorem touch_vector (world : World) (item : Item) (vector : Vector) :
    (touch world item).vector vector = item.vector vector := by
  unfold touch
  split
  · rfl
  · cases vector <;> rfl

theorem touch_edge (world : World) (item : Item) (edge : Edge) : (touch world item).edge edge = item.edge edge := by
  unfold touch
  split
  · rfl
  · cases edge <;> rfl

structure Unlinked (item changed : Item) : Prop extends Retouched item changed where
  edges : ∀ edge, changed.edge edge = item.edge edge

theorem Unlinked.touched {changed : Item} (unlinked : Unlinked item changed) : Unlinked item (touch world changed) :=
  ⟨⟨(touch_kind ..).trans unlinked.kind, fun vector => (touch_vector ..).trans (unlinked.vectors vector)⟩,
    fun edge => (touch_edge ..).trans (unlinked.edges edge)⟩

theorem setField_unlinked {value : String} {field : Field} {changed : Item}
    (done : setField getInt world item value field = some changed) : Unlinked item changed := by
  cases field
  all_goals
    simp only [setField, map_eq_some_iff] at done
    obtain ⟨_, _, rfl⟩ := done
    first
      | exact ⟨⟨rfl, fun vector => by cases vector <;> rfl⟩, fun edge => by cases edge <;> rfl⟩
      | refine .touched ⟨⟨rfl, fun vector => ?_⟩, fun edge => ?_⟩
        · cases vector <;> rfl
        · cases edge <;> rfl

end

section

variable {world after : World} {id : Nat} {item : Item} (getInt : String → Option Int)

theorem SameItems.numbered (same : SameItems world after) (next : after.nextPtr = world.nextPtr)
    (numbered : world.Numbered) : after.Numbered := by
  intro other _ found
  obtain ⟨old, stored, shape⟩ := same.symm.stored found
  rw [next, ← (shape_eq shape).1]
  exact numbered other old stored

theorem Alike.numbered (alike : Alike world after) (numbered : world.Numbered) : after.Numbered :=
  alike.same.numbered alike.next numbered

theorem modify_alike {change : Item → Item} (kinds : ∀ item, (change item).kind = item.kind)
    (done : world.modify id change = some after) : Alike world after := by
  obtain ⟨owner, stored, _⟩ := map_eq_some_iff.mp done
  rw [modify_eq_set stored] at done
  cases done
  exact set_alike stored (kinds owner)

theorem modifyAt_alike {pointer : Option Nat} {change : Item → Item} (kinds : ∀ item, (change item).kind = item.kind)
    (done : world.modifyAt pointer change = some after) : Alike world after := by
  cases pointer with
  | none =>
    cases done
    exact .refl _
  | some => exact modify_alike kinds done

theorem Alike.put {moved : Item} (alike : Alike world after) (numbered : world.Numbered)
    (stored : world.heap id = some item) (kind : moved.kind = item.kind) : Alike world (after.put moved) := by
  have kinds := alike.kinds id
  rw [stored] at kinds
  obtain ⟨_, found, same⟩ := map_eq_some_iff.mp kinds
  rw [put_eq_set _ ((kind_eq kind).1.trans (numbered id item stored).1)]
  exact alike.trans (set_alike found (kind.trans same.symm))

variable {value : String} {ok : Bool}

section

variable (numbered : world.Numbered)
include numbered

theorem relink_alike {vector : Vector} {pointer : Option Nat} {target : Nat} {record : Item}
    (stored : world.heap id = some item) (kind : record.kind = item.kind)
    (done : ((world.modifyAt pointer (Item.drop vector item.id)).bind fun world =>
      (world.modify target (Item.add vector item.id)).map fun world => (world.put (touch world record), true)) =
        some (after, ok)) : Alike world after := by
  obtain ⟨_, drops, done⟩ := bind_eq_some_iff.mp done
  obtain ⟨_, adds, done⟩ := map_eq_some_iff.mp done
  cases done
  have alike := (modifyAt_alike (fun item => drop_kind item ..) drops).trans
    (modify_alike (fun item => add_kind item ..) adds)
  exact alike.put numbered stored ((touch_kind ..).trans kind)

theorem setEndpoint_alike (stored : world.heap id = some item) {side : Edge}
    (done : setEndpoint world item side value = some (after, ok)) : Alike world after := by
  rw [setEndpoint] at done
  split at done
  · cases done
    exact .refl _
  split at done
  · cases done
    exact .refl _
  exact relink_alike numbered stored (by cases side <;> rfl) done

theorem setParent_alike (stored : world.heap id = some item) (done : setParent world item value = some (after, ok)) :
    Alike world after := by
  rw [setParent] at done
  split at done
  · obtain ⟨_, drops, done⟩ := map_eq_some_iff.mp done
    cases done
    exact (modifyAt_alike (fun item => drop_kind item ..) drops).put numbered stored rfl
  split at done
  · cases done
    exact .refl _
  split at done
  · cases done
    exact .refl _
  obtain ⟨_, _, done⟩ := bind_eq_some_iff.mp done
  split at done
  · cases done
    exact .refl _
  refine relink_alike numbered stored ?_ done
  rfl

theorem setOption_alike {option : Opt} (done : setOption getInt world id value option = some (after, ok)) :
    Alike world after := by
  obtain ⟨_, stored, done⟩ := bind_eq_some_iff.mp done
  cases option with
  | field =>
    dsimp only at done
    split at done
    next changed set =>
      cases done
      exact (Alike.refl world).put numbered stored (setField_unlinked getInt set).kind
    next =>
      cases done
      exact .refl _
  | edge side =>
    cases side with
    | parent => exact setParent_alike numbered stored done
    | src | dst => exact setEndpoint_alike numbered stored done

theorem setOptions_alike {settings : List (Opt × String)}
    (done : setOptions getInt world id settings = some (after, ok)) : Alike world after := by
  induction settings generalizing world with
  | nil =>
    cases done
    exact .refl _
  | cons _ _ ih =>
    obtain ⟨⟨_, _⟩, first, done⟩ := bind_eq_some_iff.mp done
    have alike := setOption_alike getInt numbered first
    dsimp only at done
    split at done
    · exact alike.trans (ih (alike.numbered numbered) done)
    · cases done
      exact alike

theorem configure_alike {arguments : List (String × String)}
    (done : configure getInt world id arguments = some (after, ok)) : Alike world after := by
  obtain ⟨_, _, done⟩ := bind_eq_some_iff.mp done
  split at done
  · cases done
    exact .refl _
  · exact setOptions_alike getInt numbered done

end

end

section

variable {world : World} {hidden : List Nat} {id : Nat} {item : Item} (getInt : String → Option Int) {target : Nat}

theorem Sound.relink (sound : Sound [] hidden world) {owner : Item} (edge : Edge) (found : world.heap id = some item)
    (stored : world.heap target = some owner) (apart : target ≠ id) (fits : Fits edge item.type owner.type)
    (map : owner.mapPtr = item.mapPtr)
    (above : edge = .parent → ∃ cells, Linked (fun up => up) (ancestry [] world) (some target) cells ∧ id ∉ cells)
    (record : Item) (kind : record.kind = item.kind) (linked : record.edge edge = some target)
    (others : ∀ side, side ≠ edge → record.edge side = item.edge side)
    (vectors : ∀ vector, record.vector vector = item.vector vector) :
    ∃ after moved, ((world.modifyAt (item.edge edge) (Item.drop edge.vector item.id)).bind fun world =>
        (world.modify target (Item.add edge.vector item.id)).map fun world => (world.put (touch world record), true)) =
          some (after, true) ∧ Sound [] hidden after ∧ after.heap id = some moved ∧
      Retouched item moved ∧ moved.edge edge = some target ∧ ∀ side, side ≠ edge →
        moved.edge side = item.edge side := by
  have own := (sound.ids id item found).1
  obtain ⟨middle, dropped, soundMiddle, frame, kept⟩ := sound.modifyAt_drop edge found not_mem_nil
  obtain ⟨trimmed, trimmedStored⟩ := (frame.alike.same.live target).mpr ⟨owner, stored⟩
  have trims := frame.trims target owner trimmed stored trimmedStored
  obtain ⟨_, sameMap, sameType, _⟩ := kind_eq trims.kind
  let touched := touch (middle.set target (trimmed.add edge.vector id)) record
  have touchedKind : touched.kind = item.kind := (touch_kind ..).trans kind
  have touchedVector : ∀ vector, touched.vector vector = item.vector vector := fun vector =>
    (touch_vector ..).trans (vectors vector)
  have touchedEdge : touched.edge edge = some target := (touch_edge ..).trans linked
  have touchedOthers : ∀ side, side ≠ edge → touched.edge side = item.edge side := fun side differs =>
    (touch_edge ..).trans (others side differs)
  refine ⟨(middle.set target (trimmed.add edge.vector id)).set id touched, touched, ?_, ?_, set_heap_self ..,
    ⟨touchedKind, touchedVector⟩, touchedEdge, touchedOthers⟩
  · rw [own, dropped, bind_some, modify_eq_set trimmedStored]
    have touchedId : touched.id = id := (kind_eq touchedKind).1.trans own
    change some ((middle.set target (trimmed.add edge.vector id)).set touched.id touched, true) = _
    rw [touchedId]
  · refine soundMiddle.hook kept trimmedStored apart (by rwa [sameType]) (by rw [sameMap, map]) touchedKind touchedEdge
      touchedOthers touchedVector ?_
    intro upward
    obtain ⟨cells, chain, outside⟩ := above upward
    refine ⟨cells, chain.frame fun address member => ?_, outside⟩
    refine ancestry_at (frame.alike.same.live address) ?_
    rw [pointer_cut_cons, if_neg, frame.pointers]
    rintro ⟨rfl, _⟩
    exact outside member

structure Settles (hidden : List Nat) (world : World) (id : Nat) (item : Item) (value : String) (option : Opt)
    (after : World) (ok : Bool) (moved : Item) : Prop where
  sound : Sound [] hidden after
  stored : after.heap id = some moved
  retouched : Retouched item moved
  expected : id ∈ hidden → item.memberItems = [] → ok = accepts getInt world item.mapPtr item.type value option
  failed : ok = false → moved = item
  held : ok = true → ∀ held, Held held item → Held (option.hold value held) moved

variable {option : Opt}

theorem Sound.refuses (sound : Sound [] hidden world) (found : world.heap id = some item) {value : String}
    (refused : id ∈ hidden → item.memberItems = [] → accepts getInt world item.mapPtr item.type value option = false) :
    Settles getInt hidden world id item value option world false item :=
  { sound, stored := found, retouched := ⟨rfl, fun _ => rfl⟩
    expected := fun fresh bare => (refused fresh bare).symm, failed := fun _ => rfl, held := fun ok => nomatch ok }

theorem Held.linked {held : List Edge} {moved : Item} {edge : Edge} (holds : Held held item)
    (linked : moved.edge edge = some target) (others : ∀ side, side ≠ edge → moved.edge side = item.edge side) :
    Held (edge :: held) moved := by
  intro side
  by_cases same : side = edge
  · subst same
    simp [linked]
  · rw [others side same, holds side]
    simp [same]

section

variable (sound : Sound [] hidden world) (found : world.heap id = some item)
include sound found

theorem setEndpoint_settles (isLink : item.type = .link) (value : String) {side : Edge} (ends : side ≠ .parent) :
    ∃ after ok moved, setEndpoint world item side value = some (after, ok) ∧
      Settles getInt hidden world id item value (.edge side) after ok moved := by
  have accepted : accepts getInt world item.mapPtr item.type value (.edge side) =
      (findItem world item.mapPtr value).any fun target => target.type == .network || target.type == .port := by
    cases side with
    | parent => exact absurd rfl ends
    | src | dst => rfl
  rw [setEndpoint]
  rcases search : findItem world item.mapPtr value with _ | target
  · refine ⟨world, false, item, rfl, sound.refuses getInt found fun _ _ => ?_⟩
    rw [accepted, search, any_none]
  · rw [search] at accepted
    obtain ⟨stored, map, _⟩ := sound.found search
    dsimp only
    split
    next wrong =>
      refine ⟨world, false, item, rfl, sound.refuses getInt found fun _ _ => ?_⟩
      rw [accepted]
      simpa using wrong
    next fine =>
      have types : target.type = .network ∨ target.type = .port := by
        by_contra neither
        exact fine (not_or.mp neither)
      have fits : Fits side item.type target.type := by
        cases side with
        | parent => exact absurd rfl ends
        | src | dst => exact ⟨isLink, types⟩
      have apart : target.id ≠ id := by
        intro same
        rw [same, found] at stored
        cases stored
        rw [isLink] at types
        rcases types with other | other <;> cases other
      have vector : side.vector = .links := by cases side <;> first | rfl | exact absurd rfl ends
      obtain ⟨after, moved, done, soundAfter, storedAfter, retouched, linked, others⟩ :=
        sound.relink side found stored apart fits map (fun upward => absurd upward ends)
          (item.setEdge (some target.id) side)
          (by cases side <;> rfl) (by cases side <;> rfl)
          (fun other differs => by cases side <;> cases other <;> first | rfl | exact absurd rfl differs)
          (fun vector => by cases side <;> cases vector <;> rfl)
      rw [vector] at done
      refine ⟨after, true, moved, done, ⟨soundAfter, storedAfter, retouched, ?_, (fun no => nomatch no), ?_⟩⟩
      · intro _ _
        rw [accepted]
        simpa using types
      · intro _ _ holds
        have after := holds.linked linked others
        cases side with
        | parent => exact absurd rfl ends
        | src | dst => exact after

theorem Sound.unreached (bare : item.memberItems = []) (apart : target ≠ id) {cells : List Nat}
    (linked : Linked (fun up => up) (ancestry [] world) (some target) cells) : id ∉ cells := by
  refine linked.avoids (fun same => apart (some.inj same)) ?_
  intro other _ known points
  obtain ⟨_, _, rfl⟩ := map_eq_some_iff.mp known
  have member : other ∈ item.vector .members := (sound.mem_vector found .members other).mpr ⟨.parent, rfl, points⟩
  rw [Item.vector, bare] at member
  cases member

theorem setParent_settles (value : String) : ∃ after ok moved, setParent world item value = some (after, ok) ∧
      Settles getInt hidden world id item value (.edge .parent) after ok moved := by
  obtain rfl := (sound.ids id item found).1
  rw [setParent]
  split
  next empty =>
    obtain ⟨middle, dropped, soundMiddle, _, kept⟩ := sound.modifyAt_drop .parent found not_mem_nil
    have others : ∀ side, side ≠ .parent → ({ item with parent := none } : Item).edge side = item.edge side := by
      intro side differs
      cases side <;> first | rfl | exact absurd rfl differs
    have vectors : ∀ vector, ({ item with parent := none } : Item).vector vector = item.vector vector := by
      intro vector
      cases vector <;> rfl
    refine ⟨middle.set item.id { item with parent := none }, true, { item with parent := none }, ?_, ?_⟩
    · change (world.modifyAt item.parent (.drop .members item.id)) = some middle at dropped
      rw [dropped]
      rfl
    · refine ⟨soundMiddle.release kept rfl rfl others vectors, set_heap_self .., ⟨rfl, vectors⟩, fun _ _ => ?_,
        (fun no => nomatch no), ?_⟩
      · simp [accepts, empty]
      · intro _ held holds side
        rw [Opt.hold, if_pos empty]
        by_cases same : side = .parent
        · subst same
          simp [Item.edge]
        · rw [others side same, holds side]
          simp [same]
  next named =>
    have accepted : accepts getInt world item.mapPtr item.type value (.edge .parent) =
        (findItem world item.mapPtr value).any fun target => target.type == item.type.parentType := by
      rw [accepts, beq_eq_false_iff_ne.mpr named, Bool.false_or]
    rcases search : findItem world item.mapPtr value with _ | target
    · refine ⟨world, false, item, rfl, sound.refuses getInt found fun _ _ => ?_⟩
      rw [accepted, search, any_none]
    · rw [search, any_some] at accepted
      obtain ⟨stored, map, visible⟩ := sound.found search
      dsimp only
      split
      next wrong =>
        refine ⟨world, false, item, rfl, sound.refuses getInt found fun _ _ => ?_⟩
        rw [accepted]
        simpa using wrong
      next fits =>
        have fits : target.type = item.type.parentType := Decidable.not_not.mp fits
        obtain ⟨cells, linked⟩ := sound.rooted target.id _ (by rw [ancestry, stored]; rfl)
        have unused : ∀ address, world.nextPtr ≤ address → ancestry [] world address = none := by
          intro address above
          rcases place : world.heap address with _ | record
          · rw [ancestry, place]
            rfl
          · exact absurd (sound.ids address record place).2 (Nat.not_lt.mpr above)
        rw [reaches_linked linked (linked.length_le unused), bind_some]
        split
        next loop =>
          refine ⟨world, false, item, rfl, sound.refuses getInt found fun fresh bare => ?_⟩
          have apart : target.id ≠ item.id := fun same => visible (same ▸ fresh)
          exact absurd (of_decide_eq_true loop) (sound.unreached found bare apart linked)
        next free =>
          have outside : item.id ∉ cells := fun member => free (decide_eq_true member)
          have apart : target.id ≠ item.id := by
            intro same
            cases cells with
            | nil => cases linked
            | cons =>
              cases linked.1
              exact outside (same ▸ mem_cons_self)
          obtain ⟨after, moved, done, soundAfter, storedAfter, retouched, hooked, others⟩ :=
            sound.relink .parent found stored apart fits map (fun _ => ⟨cells, linked, outside⟩)
              { item with parent := some target.id } rfl rfl
              (fun side differs => by cases side <;> first | rfl | exact absurd rfl differs)
              (fun vector => by cases vector <;> rfl)
          refine ⟨after, true, moved, done, ⟨soundAfter, storedAfter, retouched, ?_, (fun no => nomatch no), ?_⟩⟩
          · intro _ _
            rw [accepted, fits]
            exact (beq_self_eq_true _).symm
          · intro _ _ holds
            rw [Opt.hold, if_neg named]
            exact holds.linked hooked others

theorem setOption_settles (value : String) (allowed : Allowed item.type option) :
    ∃ after ok moved, setOption getInt world id value option = some (after, ok) ∧
      Settles getInt hidden world id item value option after ok moved := by
  rw [setOption, found, bind_some]
  cases option with
  | field field =>
    have accepted : (setField getInt world item value field).isSome =
        accepts getInt world item.mapPtr item.type value (.field field) :=
      setField_isSome getInt (newItem 0 item.mapPtr item.type) item rfl rfl value field
    rcases done : setField getInt world item value field with _ | changed
    · refine ⟨world, false, item, by simp only [done], sound.refuses getInt found fun _ _ => ?_⟩
      rw [← accepted, done, isSome_none]
    · have unlinked := setField_unlinked getInt done
      have changedId := (kind_eq unlinked.kind).1.trans (sound.ids id item found).1
      refine ⟨world.set id changed, true, changed, ?_, ?_⟩
      · simp only [done]
        change some (world.set changed.id changed, true) = _
        rw [changedId]
      · refine ⟨sound.set found (shape_of_kind unlinked.kind) unlinked.edges unlinked.vectors,
          set_heap_self .., unlinked.toRetouched, fun _ _ => ?_, (fun no => nomatch no), ?_⟩
        · rw [← accepted, done, isSome_some]
        · intro _ _ holds edge
          rw [unlinked.edges]
          exact holds edge
  | edge side =>
    cases side with
    | parent => exact setParent_settles getInt sound found value
    | src | dst => exact setEndpoint_settles getInt sound found allowed value (by decide)

end

theorem setOptions_settles (settings : List (Opt × String)) (sound : Sound [] hidden world)
    (found : world.heap id = some item) (allowed : ∀ setting ∈ settings, Allowed item.type setting.1) :
    ∃ after ok moved, setOptions getInt world id settings = some (after, ok) ∧ Sound [] hidden after ∧
      after.heap id = some moved ∧ Retouched item moved ∧
      (id ∈ hidden → item.memberItems = [] → ∀ held, Held held item → ∃ ends,
        outcome (accepts getInt world item.mapPtr item.type) settings held = (ok, ends) ∧ Held ends moved) := by
  induction settings generalizing world item with
  | nil =>
    exact ⟨world, true, item, rfl, sound, found, ⟨rfl, fun _ => rfl⟩,
      fun _ _ held holds => ⟨held, rfl, holds⟩⟩
  | cons setting _ ih =>
    obtain ⟨option, value⟩ := setting
    obtain ⟨middle, ok, moved, done, settles⟩ :=
      setOption_settles getInt sound found value (allowed (option, value) mem_cons_self)
    rw [setOptions, done]
    cases ok with
    | false =>
      refine ⟨middle, false, moved, rfl, settles.sound, settles.stored, settles.retouched, ?_⟩
      intro fresh bare held holds
      have refused := settles.expected fresh bare
      refine ⟨held, by rw [outcome, ← refused]; rfl, ?_⟩
      rw [settles.failed rfl]
      exact holds
    | true =>
      obtain ⟨_, sameMap, sameType, _⟩ := kind_eq settles.retouched.kind
      obtain ⟨after, result, last, rested, soundAfter, stored, retouched, ends⟩ :=
        ih settles.sound settles.stored (by
          rw [sameType]
          exact fun setting member => allowed setting (mem_cons_of_mem _ member))
      refine ⟨after, result, last, rested, soundAfter, stored, ?_, ?_⟩
      · exact ⟨retouched.kind.trans settles.retouched.kind,
          fun vector => (retouched.vectors vector).trans (settles.retouched.vectors vector)⟩
      · intro fresh bare held holds
        have bareMoved : moved.memberItems = [] := (settles.retouched.vectors .members).trans bare
        obtain ⟨final, result, finalHolds⟩ :=
          ends fresh bareMoved (option.hold value held) (settles.held rfl held holds)
        refine ⟨final, ?_, finalHolds⟩
        have sameAccepts : accepts getInt middle moved.mapPtr moved.type =
            accepts getInt world item.mapPtr item.type := by
          funext text choice
          rw [sameMap, sameType]
          exact (setOption_alike getInt sound.ids done).accepts_eq getInt ..
        rw [sameAccepts] at result
        rw [outcome, ← settles.expected fresh bare, if_pos rfl, result]

theorem tableKey_allowed {type : ItemType} {name : String} (known : tableKey type name = some option) :
    Allowed type option := by
  have table : ∀ entry ∈ type.configTable, Allowed type entry.1 := by
    cases type <;> simp [ItemType.configTable, Allowed]
  obtain ⟨entry, found, rfl⟩ := map_eq_some_iff.mp known
  exact table entry (mem_of_find?_eq_some found)

theorem readArguments_allowed {type : ItemType} {arguments : List (String × String)} {settings : List (Opt × String)}
    (read : readArguments type arguments = some settings) : ∀ setting ∈ settings, Allowed type setting.1 := by
  induction arguments generalizing settings with
  | nil =>
    cases read
    intro setting member
    cases member
  | cons _ _ ih =>
    simp only [readArguments, mapM_cons, bind_eq_bind, bind_eq_some_iff, map_eq_some_iff,
      Option.pure_def, Option.some.injEq] at read
    obtain ⟨_, ⟨_, known, rfl⟩, _, restRead, rfl⟩ := read
    intro setting member
    rcases mem_cons.mp member with rfl | later
    · exact tableKey_allowed known
    · exact ih restRead setting later

theorem configure_settles (arguments : List (String × String)) (sound : Sound [] hidden world)
    (found : world.heap id = some item) :
    ∃ after ok moved, configure getInt world id arguments = some (after, ok) ∧ Sound [] hidden after ∧
      after.heap id = some moved ∧ Retouched item moved ∧
      (id ∈ hidden → item.memberItems = [] → ∀ held, Held held item → ∃ ends,
        (match readArguments item.type arguments with
          | none => (false, held)
          | some settings => outcome (accepts getInt world item.mapPtr item.type) settings held) = (ok, ends) ∧
        Held ends moved) := by
  rw [configure, found, bind_some]
  rcases read : readArguments item.type arguments with _ | settings
  · exact ⟨world, false, item, rfl, sound, found, ⟨rfl, fun _ => rfl⟩,
      fun _ _ held holds => ⟨held, rfl, holds⟩⟩
  · exact setOptions_settles getInt settings sound found (readArguments_allowed read)

end

end Tnm.Map
