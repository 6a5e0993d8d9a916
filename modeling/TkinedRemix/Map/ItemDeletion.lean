import TkinedRemix.Map.ItemGraph

/-!
The deletion of items. The nested calls end because an item only deletes items of a lower rank.
-/

namespace Tnm.Map

open Lib List Option Function

def ItemType.rank : ItemType → Nat
  | .node => 2
  | .port | .network => 1
  | .link | .group => 0

def Item.owned (item : Item) : List Nat := (if item.type = .node then item.memberItems else []) ++ item.linkedItems

def doomed (world : World) : Nat → Nat → List Nat
  | 0, _ => []
  | depth + 1, id =>
    match world.heap id with
    | none => [id]
    | some item => id :: item.owned.flatMap (doomed world depth)

structure Pruned (lost : List Nat) (before after : World) : Prop where
  survivors : ∀ id item, after.heap id = some item → ∃ old, before.heap id = some old ∧ Trims old item
  kept : ∀ id old, before.heap id = some old → id ∉ lost → ∃ item, after.heap id = some item
  rest : after = { before with heap := after.heap, itemList := after.itemList }

theorem owned_vector {item : Item} {vector : Vector} (swept : vector = .links ∨ item.type = .node) :
    item.vector vector ⊆ item.owned := by
  intro _ member
  rw [Item.owned, mem_append]
  cases vector with
  | links => exact .inr member
  | members =>
    rcases swept with other | isNode
    · cases other
    · rw [if_pos isNode]
      exact .inl member

section

variable {before after : World} {lost : List Nat} {world : World}

theorem Pruned.trans {first second third : World} {lost more all : List Nat} (pruned : Pruned lost first second)
    (again : Pruned more second third) (sub : lost ⊆ all) (subMore : more ⊆ all) : Pruned all first third := by
  refine ⟨?_, ?_, ?_⟩
  · intro id item found
    obtain ⟨middle, stored, trims⟩ := again.survivors id item found
    obtain ⟨old, storedBefore, trimsBefore⟩ := pruned.survivors id middle stored
    exact ⟨old, storedBefore, trimsBefore.trans trims⟩
  · intro id old stored outside
    obtain ⟨middle, found⟩ := pruned.kept id old stored fun member => outside (sub member)
    exact again.kept id middle found fun member => outside (subMore member)
  · rw [again.rest, pruned.rest]

theorem Pruned.keep {first second third : World} (pruned : Pruned lost first second) (again : Pruned [] second third) :
    Pruned lost first third :=
  pruned.trans again (List.Subset.refl _) (nil_subset _)

theorem Pruned.refl (world : World) (lost : List Nat) : Pruned lost world world :=
  ⟨fun _ item found => ⟨item, found, .refl item⟩, fun _ old stored _ => ⟨old, stored⟩, rfl⟩

variable {old item : Item}

theorem Trims.type (trims : Trims old item) : item.type = old.type := (kind_eq trims.kind).2.2.1

theorem Trims.owned (trims : Trims old item) : item.owned ⊆ old.owned := by
  intro _ member
  rw [Item.owned, mem_append] at member ⊢
  rw [trims.type] at member
  rcases member with port | link
  · left
    split at port
    next isNode =>
      rw [if_pos isNode]
      exact (trims.vectors .members).subset port
    next => cases port
  · exact .inr ((trims.vectors .links).subset link)

theorem Pruned.doomed_subset (pruned : Pruned lost before after) (depth id : Nat) :
    doomed after depth id ⊆ doomed before depth id := by
  induction depth generalizing id with
  | zero => exact List.Subset.refl _
  | succ _ ih =>
    intro _ member
    rw [doomed] at member ⊢
    rcases found : after.heap id with _ | item
    · rw [found, mem_singleton] at member
      subst member
      split <;> exact mem_cons_self
    · obtain ⟨_, stored, trims⟩ := pruned.survivors id item found
      rw [stored]
      rw [found] at member
      rcases mem_cons.mp member with rfl | below
      · exact mem_cons_self
      · obtain ⟨child, owned, deeper⟩ := mem_flatMap.mp below
        exact mem_cons_of_mem _ (mem_flatMap.mpr ⟨child, trims.owned owned, ih child deeper⟩)

variable {id : Nat}

theorem Pruned.trimmed (pruned : Pruned lost before after) (stored : before.heap id = some old)
    (found : after.heap id = some item) : Trims old item := by
  obtain ⟨_, again, trims⟩ := pruned.survivors id item found
  cases stored.symm.trans again
  exact trims

theorem Pruned.entries_subset (pruned : Pruned lost before after) {depth : Nat} (stored : before.heap id = some old)
    (found : after.heap id = some item) {vector : Vector} (swept : vector = .links ∨ item.type = .node) :
    (item.vector vector).flatMap (doomed after depth) ⊆ doomed before (depth + 1) id := by
  intro _ member
  obtain ⟨child, entry, deeper⟩ := mem_flatMap.mp member
  have owned := (pruned.trimmed stored found).owned (owned_vector swept entry)
  rw [doomed, stored]
  exact mem_cons_of_mem _ (mem_flatMap.mpr ⟨child, owned, pruned.doomed_subset depth child deeper⟩)

theorem modify_pruned {change : Item → Item} (trims : ∀ item, Trims item (change item))
    (done : world.modify id change = some after) : Pruned [] world after := by
  obtain ⟨owner, stored, _⟩ := map_eq_some_iff.mp done
  rw [modify_eq_set stored] at done
  cases done
  have live := (set_alike stored (trims owner).kind).same.live
  refine ⟨fun other item found => ?_, fun other old known _ => (live other).mpr ⟨old, known⟩, rfl⟩
  obtain ⟨old, known⟩ := (live other).mp ⟨item, found⟩
  exact ⟨old, known, set_each stored (trims owner) .refl other old item known found⟩

theorem unhook_pruned {edge : Edge} (done : unhook edge id world = some after) : Pruned [] world after := by
  obtain ⟨item, _, done⟩ := bind_eq_some_iff.mp done
  rcases aim : item.edge edge with _ | _
  · rw [aim] at done
    cases done
    exact .refl _ []
  · rw [aim] at done
    exact modify_pruned (fun owner => drop_trims owner edge.vector id) done

theorem orphan_pruned {members : List Nat} (done : orphan world members = some after) : Pruned [] world after := by
  induction members generalizing world with
  | nil =>
    cases done
    exact .refl _ []
  | cons _ _ ih =>
    obtain ⟨_, first, done⟩ := bind_eq_some_iff.mp done
    refine (modify_pruned (fun item => ?_) first).keep (ih done)
    exact ⟨rfl, fun vector => by cases vector <;> exact List.Sublist.refl _⟩

theorem free_heap (world : World) (id other : Nat) :
    (world.free id).heap other = if other = id then none else world.heap other :=
  update_apply ..

theorem free_pruned (world : World) (id : Nat) : Pruned [id] world (world.free id) := by
  refine ⟨?_, ?_, rfl⟩
  · intro other item found
    rw [free_heap] at found
    split at found
    · cases found
    · exact ⟨item, found, .refl item⟩
  · intro _ old stored outside
    refine ⟨old, ?_⟩
    rw [free_heap, if_neg fun same => outside (mem_singleton.mpr same), stored]

end

section

def Prunes (depth : Nat) : Prop :=
  ∀ world id after, itemDeleteProc depth world id = some after → Pruned (doomed world depth id) world after

variable {world after : World} {depth id : Nat} {vector : Vector} {item : Item}

theorem deleteFirst_pruned (prunes : Prunes depth) {fuel : Nat} (stored : world.heap id = some item)
    (done : deleteFirst vector (itemDeleteProc depth) id fuel world = some after) :
    Pruned ((item.vector vector).flatMap (doomed world depth)) world after := by
  induction fuel generalizing world item with
  | zero => cases done
  | succ fuel ih =>
    rw [deleteFirst, stored, bind_some] at done
    rcases entries : item.vector vector with _ | ⟨first, _⟩
    · rw [entries] at done
      cases done
      exact .refl _ _
    rw [entries] at done
    obtain ⟨middle, deleted, done⟩ := bind_eq_some_iff.mp done
    have pruned := prunes world first middle deleted
    obtain ⟨rest, restStored⟩ : ∃ rest, middle.heap id = some rest := by
      rcases place : middle.heap id with _ | rest
      · cases fuel <;> simp [deleteFirst, place] at done
      · exact ⟨rest, rfl⟩
    have trims := pruned.trimmed stored restStored
    rw [← entries]
    refine pruned.trans (ih restStored done) ?_ ?_
    · intro other member
      exact mem_flatMap.mpr ⟨first, entries ▸ mem_cons_self, member⟩
    · intro _ member
      obtain ⟨child, entry, deeper⟩ := mem_flatMap.mp member
      exact mem_flatMap.mpr
        ⟨child, (trims.vectors vector).subset entry, pruned.doomed_subset depth child deeper⟩

theorem deleteAll_pruned (prunes : Prunes depth) (stored : world.heap id = some item)
    (done : deleteAll vector (itemDeleteProc depth) id world = some after) :
    Pruned ((item.vector vector).flatMap (doomed world depth)) world after := by
  rw [deleteAll, stored] at done
  exact deleteFirst_pruned prunes stored done

theorem unlist_pruned (world : World) (id : Nat) : Pruned [] world { world with itemList := world.itemList.erase id } :=
  ⟨fun _ item found => ⟨item, found, .refl item⟩, fun _ old stored _ => ⟨old, stored⟩, rfl⟩

theorem ports_pruned (prunes : Prunes depth) (stored : world.heap id = some item)
    (done : (if item.type = .node then deleteAll .members (itemDeleteProc depth) id world else some world) =
      some after) :
    Pruned (doomed world (depth + 1) id) world after := by
  split at done
  next isNode =>
    refine (Pruned.refl world []).trans (deleteAll_pruned prunes stored done) (nil_subset _) ?_
    exact (Pruned.refl world []).entries_subset stored stored (.inr isNode)
  next =>
    cases done
    exact .refl _ _

theorem itemDeleteProc_pruned (depth : Nat) : Prunes depth := by
  induction depth with
  | zero =>
    intro world id after done
    cases done
  | succ depth prunes =>
    intro world id _ done
    simp only [itemDeleteProc, bind_eq_some_iff, map_eq_some_iff] at done
    obtain ⟨_, stored, _, ports, _, src, _, dst, unhooked, parent, _, links, _, _,
      orphaned, orphans, rfl⟩ := done
    have toPortless := (unlist_pruned world id).trans (ports_pruned prunes stored ports) (nil_subset _)
      ((unlist_pruned world id).doomed_subset (depth + 1) id)
    have toUnhooked := ((toPortless.keep (unhook_pruned src)).keep (unhook_pruned dst)).keep (unhook_pruned parent)
    obtain ⟨owner, ownerStored⟩ : ∃ owner, unhooked.heap id = some owner := by
      obtain ⟨owner, ownerStored, _⟩ := bind_eq_some_iff.mp links
      exact ⟨owner, ownerStored⟩
    have toLinkless := toUnhooked.trans (deleteAll_pruned prunes ownerStored links) (List.Subset.refl _)
      (toUnhooked.entries_subset stored ownerStored (.inl rfl))
    refine (toLinkless.keep (orphan_pruned orphans)).trans (free_pruned orphaned id) (List.Subset.refl _) ?_
    rw [doomed, stored]
    intro _ member
    rw [mem_singleton.mp member]
    exact mem_cons_self

end

section

variable {cut : List (Nat × Edge)} {hidden : List Nat} {world : World}

theorem Sound.owned_rank (sound : Sound cut hidden world) {id child : Nat} {item : Item}
    (stored : world.heap id = some item) (owned : child ∈ item.owned) :
    ∃ record, world.heap child = some record ∧ record.type.rank < item.type.rank := by
  rcases mem_append.mp owned with port | link
  · split at port
    next isNode =>
      obtain ⟨edge, kind, points⟩ := (sound.mem_vector stored .members child).mp port
      obtain ⟨record, _, found, again, fits, _⟩ := sound.targets child edge id points
      cases stored.symm.trans again
      refine ⟨record, found, ?_⟩
      cases edge with
      | parent =>
        change item.type = record.type.parentType at fits
        rw [isNode] at fits ⊢
        revert fits
        cases record.type <;> decide
      | src | dst => cases kind
    next => cases port
  · obtain ⟨edge, kind, points⟩ := (sound.mem_vector stored .links child).mp link
    obtain ⟨record, _, found, again, fits, _⟩ := sound.targets child edge id points
    cases stored.symm.trans again
    refine ⟨record, found, ?_⟩
    have ends : record.type = .link ∧ (item.type = .network ∨ item.type = .port) := by
      cases edge with
      | parent => cases kind
      | src | dst => exact fits
    rcases ends with ⟨isLink, isNetwork | isPort⟩
    · rw [isLink, isNetwork]
      decide
    · rw [isLink, isPort]
      decide

theorem Sound.doomed_rank (sound : Sound cut hidden world) {depth id other : Nat} {item record : Item}
    (stored : world.heap id = some item) (member : other ∈ doomed world depth id)
    (found : world.heap other = some record) : other = id ∨ record.type.rank < item.type.rank := by
  induction depth generalizing id item with
  | zero => cases member
  | succ _ ih =>
    rw [doomed, stored] at member
    rcases mem_cons.mp member with rfl | below
    · exact .inl rfl
    · obtain ⟨_, owned, deeper⟩ := mem_flatMap.mp below
      obtain ⟨_, childStored, lower⟩ := sound.owned_rank stored owned
      rcases ih childStored deeper with rfl | lowest
      · cases childStored.symm.trans found
        exact .inr lower
      · exact .inr (Nat.lt_trans lowest lower)

end

section

def Removes (depth : Nat) : Prop :=
  ∀ cut hidden world id item, Sound cut hidden world → world.heap id = some item → id ∉ hidden →
    (∀ entry ∈ cut, entry.1 ∈ hidden) →
    (∀ other ∈ hidden, ∀ record, world.heap other = some record → item.type.rank < record.type.rank) →
    item.type.rank < depth →
    ∃ after, itemDeleteProc depth world id = some after ∧ Sound cut hidden after ∧ after.heap id = none

variable {cut : List (Nat × Edge)} {hidden : List Nat} {world : World}

theorem Sound.unlist (sound : Sound cut hidden world) (id : Nat) :
    Sound cut (id :: hidden) { world with itemList := world.itemList.erase id } := by
  refine ⟨sound.ids, sound.nodup.erase id, ?_, sound.counts, sound.targets, sound.rooted⟩
  intro other
  rw [sound.nodup.mem_erase_iff, sound.listed other, mem_cons, not_or]
  exact ⟨fun ⟨differs, live, outside⟩ => ⟨live, differs, outside⟩,
    fun ⟨live, differs, outside⟩ => ⟨differs, live, outside⟩⟩

variable {depth id : Nat}

theorem deleteFirst_removes (removes : Removes depth) {vector : Vector} (own : id ∈ hidden)
    (cuts : ∀ entry ∈ cut, entry.1 ∈ hidden) : ∀ fuel world item, Sound cut hidden world → world.heap id = some item →
      (∀ other ∈ hidden, ∀ record, world.heap other = some record → item.type.rank ≤ record.type.rank) →
      (vector = .links ∨ item.type = .node) → item.type.rank ≤ depth → (item.vector vector).length < fuel →
      ∃ after rest, deleteFirst vector (itemDeleteProc depth) id fuel world = some after ∧ Sound cut hidden after ∧
        after.heap id = some rest ∧ rest.vector vector = [] := by
  intro fuel
  induction fuel with
  | zero => intro world item _ _ _ _ _ short; cases short
  | succ _ ih =>
    intro world item sound stored higher swept low _
    rw [deleteFirst, stored, bind_some]
    rcases entries : item.vector vector with _ | ⟨first, _⟩
    · exact ⟨world, item, rfl, sound, stored, entries⟩
    have firstEntry : first ∈ item.vector vector := by rw [entries]; exact mem_cons_self
    obtain ⟨record, found, lower⟩ := sound.owned_rank stored (owned_vector swept firstEntry)
    have outside : first ∉ hidden := by
      intro member
      have := higher first member record found
      omega
    obtain ⟨middle, deleted, soundMiddle, gone⟩ := removes cut hidden world first record sound found outside cuts
      (fun other member record' found' => Nat.lt_of_lt_of_le lower (higher other member record' found')) (by omega)
    have pruned := itemDeleteProc_pruned depth world first middle deleted
    -- the item itself has a higher rank than what was deleted
    have survives : id ∉ doomed world depth first := by
      intro member
      rcases sound.doomed_rank found member stored with rfl | _
      · exact outside own
      · omega
    obtain ⟨rest, restStored⟩ := pruned.kept id item stored survives
    have trims := pruned.trimmed stored restStored
    have noFirst : first ∉ rest.vector vector := by
      intro member
      obtain ⟨_, _, points⟩ := (soundMiddle.mem_vector restStored vector first).mp member
      simp [pointer, gone] at points
    have shorter : (rest.vector vector).length < (item.vector vector).length := by
      refine Nat.lt_of_le_of_ne (trims.vectors vector).length_le fun same => noFirst ?_
      rw [(trims.vectors vector).eq_of_length same]
      exact firstEntry
    dsimp only
    rw [deleted]
    refine ih middle rest soundMiddle restStored ?_ (by rw [trims.type]; exact swept) (by rw [trims.type]; exact low)
      (by omega)
    intro other member record' found'
    obtain ⟨old, oldStored, trimmed⟩ := pruned.survivors other record' found'
    rw [trims.type, trimmed.type]
    exact higher other member old oldStored

variable {item : Item}

theorem deleteAll_removes (removes : Removes depth) (vector : Vector) (own : id ∈ hidden)
    (cuts : ∀ entry ∈ cut, entry.1 ∈ hidden) (sound : Sound cut hidden world) (stored : world.heap id = some item)
    (higher : ∀ other ∈ hidden, ∀ record, world.heap other = some record → item.type.rank ≤ record.type.rank)
    (swept : vector = .links ∨ item.type = .node) (low : item.type.rank ≤ depth) :
    ∃ after rest, deleteAll vector (itemDeleteProc depth) id world = some after ∧ Sound cut hidden after ∧
      after.heap id = some rest ∧ rest.vector vector = [] := by
  rw [deleteAll, stored]
  exact deleteFirst_removes removes own cuts _ world item sound stored higher swept low (Nat.lt_succ_self _)

theorem ports_removed (removes : Removes depth) (own : id ∈ hidden) (cuts : ∀ entry ∈ cut, entry.1 ∈ hidden)
    (sound : Sound cut hidden world) (stored : world.heap id = some item)
    (higher : ∀ other ∈ hidden, ∀ record, world.heap other = some record → item.type.rank ≤ record.type.rank)
    (low : item.type.rank ≤ depth) :
    ∃ after rest, (if item.type = .node then deleteAll .members (itemDeleteProc depth) id world else some world) =
        some after ∧ Sound cut hidden after ∧ after.heap id = some rest := by
  split
  next isNode =>
    obtain ⟨after, rest, done, soundAfter, kept, _⟩ :=
      deleteAll_removes removes .members own cuts sound stored higher (.inr isNode) low
    exact ⟨after, rest, done, soundAfter, kept⟩
  next => exact ⟨world, item, rfl, sound, stored⟩

theorem Sound.unhook (sound : Sound cut hidden world) (edge : Edge) (stored : world.heap id = some item)
    (whole : (id, edge) ∉ cut) :
    ∃ after, unhook edge id world = some after ∧ Sound ((id, edge) :: cut) hidden after ∧
      after.heap id = some item := by
  obtain ⟨after, done, soundAfter, _, kept⟩ := sound.modifyAt_drop edge stored whole
  refine ⟨after, ?_, soundAfter, kept⟩
  rw [Map.unhook, stored, bind_some, done]

theorem Sound.unhookAll (sound : Sound cut hidden world) (stored : world.heap id = some item)
    (whole : ∀ edge, (id, edge) ∉ cut) :
    ∃ first second after, Map.unhook .src id world = some first ∧ Map.unhook .dst id first = some second ∧
      Map.unhook .parent id second = some after ∧
      Sound ((id, .parent) :: (id, .dst) :: (id, .src) :: cut) hidden after ∧ after.heap id = some item := by
  obtain ⟨first, doneSrc, soundSrc, storedSrc⟩ := sound.unhook .src stored (whole .src)
  obtain ⟨second, doneDst, soundDst, storedDst⟩ := soundSrc.unhook .dst storedSrc (by simp [whole])
  obtain ⟨after, doneParent, soundParent, storedParent⟩ := soundDst.unhook .parent storedDst (by simp [whole])
  exact ⟨first, second, after, doneSrc, doneDst, doneParent, soundParent, storedParent⟩

theorem itemDeleteProc_removes (depth : Nat) : Removes depth := by
  induction depth with
  | zero => intro _ _ _ _ _ _ _ _ _ _ low; cases low
  | succ depth removes =>
    intro cut hidden world id item sound stored outside cuts higher _
    have cutsOwn : ∀ entry ∈ cut, entry.1 ∈ id :: hidden := fun entry member =>
      mem_cons_of_mem _ (cuts entry member)
    have whole : ∀ edge, (id, edge) ∉ cut := fun edge member => outside (cuts _ member)
    have higherOwn : ∀ {lost after}, Pruned lost world after → ∀ other ∈ id :: hidden, ∀ record,
        after.heap other = some record → item.type.rank ≤ record.type.rank := by
      intro _ _ pruned other member record found
      obtain ⟨old, oldStored, trims⟩ := pruned.survivors other record found
      rw [trims.type]
      rcases mem_cons.mp member with rfl | above
      · cases stored.symm.trans oldStored
        exact Nat.le_refl _
      · exact Nat.le_of_lt (higher other above old oldStored)
    obtain ⟨_, _, portsDone, portsSound, portsStored⟩ := ports_removed removes mem_cons_self
      cutsOwn (sound.unlist id) stored (higherOwn (unlist_pruned world id)) (by omega)
    obtain ⟨_, _, _, doneSrc, doneDst, doneParent, hookSound, hookStored⟩ :=
      portsSound.unhookAll portsStored whole
    have toPortless := (unlist_pruned world id).trans (ports_pruned (itemDeleteProc_pruned depth) stored portsDone)
      (nil_subset _) (List.Subset.refl _)
    have toUnhooked := ((toPortless.keep (unhook_pruned doneSrc)).keep (unhook_pruned doneDst)).keep
      (unhook_pruned doneParent)
    have sameType := (toUnhooked.trimmed stored hookStored).type
    obtain ⟨linkless, last, linksDone, linksSound, lastStored, noLinks⟩ :=
      deleteAll_removes removes .links mem_cons_self (by
          simp only [forall_mem_cons]
          exact ⟨mem_cons_self, mem_cons_self, mem_cons_self, cutsOwn⟩)
        hookSound hookStored (by rw [sameType]; exact higherOwn toUnhooked) (.inl rfl)
        (by rw [sameType]; omega)
    have liveMembers : ∀ member ∈ last.memberItems, ∃ record, linkless.heap member = some record := by
      intro member entry
      obtain ⟨edge, _, points⟩ := (linksSound.mem_vector lastStored .members member).mp entry
      obtain ⟨record, _, found, _⟩ := linksSound.targets member edge id points
      exact ⟨record, found⟩
    refine ⟨linkless.remove id last.memberItems, ?_, ?_, ?_⟩
    · rw [itemDeleteProc, stored, bind_some]
      dsimp only
      rw [portsDone, bind_some, doneSrc, bind_some, doneDst, bind_some, doneParent,
        bind_some, linksDone, bind_some, lastStored, bind_some, orphan_free id _ liveMembers]
    · refine linksSound.remove lastStored mem_cons_self ?_ noLinks ?_ ?_
      · intro edge
        rw [pointer, if_pos (by cases edge <;> simp)]
      · intro other _ differs
        simp [differs]
      · intro _ differs
        simp [differs]
    · simp [World.remove]

end

end Tnm.Map
