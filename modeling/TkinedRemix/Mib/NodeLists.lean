import TkinedRemix.Mib.FirstList

/-!
Sequences of node lists: adding a list ends and finds a place for every node whose chain of parents' names leads
into the tree, unless the place is taken.
-/

namespace Tnm.Mib

open Lib SiblingTree List

def Ready (memory : Memory) (parsed : List Parsed) : Prop :=
  Fits parsed ∧ (memory.tnmMibTree = none → FitsFirst parsed)

inductive Loaded : Memory → Prop
  | start : Loaded noMemory
  | add {memory after : Memory} {parsed : List Parsed} {flag : Bool} (loaded : Loaded memory)
      (ready : Ready memory parsed)
      (adds : ∃ bound, ∀ fuel ≥ bound, addNodes fuel parsed memory = some (after, flag)) : Loaded after

def NewNode (memory : Memory) (parsed : List Parsed) (address : Nat) : Prop :=
  memory.size ≤ address ∧ address < memory.size + parsed.length

/-- No other node has the same parent's name and the same sub-identifier. -/
def Sole (memory : Memory) (tree : AddressTree) (isNew : Nat → Prop) (address : Nat) : Prop :=
  ∀ other, isNew other ∨ other ∈ tree.values → (memory.node other).parentName = (memory.node address).parentName →
    memory.subid other = memory.subid address → other = address

/-- A chain of parents' names that leads into the tree. -/
inductive Anchored (memory : Memory) (tree : AddressTree) (isNew : Nat → Prop) : Nat → Prop
  | inTree {address : Nat} (member : address ∈ tree.values) : Anchored memory tree isNew address
  | child {address parent : Nat} (new : isNew address) (anchored : Anchored memory tree isNew parent)
      (refers : (memory.node address).parentName = some (memory.node parent).label)
      (sole : Sole memory tree isNew address) : Anchored memory tree isNew address

structure Sound (memory : Memory) (tree : AddressTree) : Prop where
  grown : Grown memory memory.tnmMibTree tree
  unmarked : Unmarked memory tree

structure Adds (memory : Memory) (parsed : List Parsed) (before : AddressTree) (after : Memory)
    (tree : AddressTree) : Prop where
  sound : Sound after tree
  old : ∀ address < memory.size, after.node address = memory.node address
  new : ∀ index, ∀ small : index < parsed.length, after.node (memory.size + index) = parsed[index]
  paths : ∀ entry ∈ before.paths, entry ∈ tree.paths
  settled : Settled after.node tree (List.range' memory.size parsed.length)

section

variable {memory : Memory} {parsed : List Parsed} {before : AddressTree}

section

variable (sound : Sound memory before)
include sound

theorem Sound.empty (none : memory.tnmMibTree = none) : before = .nil := by
  have held := sound.grown.held
  rw [none] at held
  cases before with
  | nil => rfl
  | node => cases held.1

theorem Sound.allocate (parsed : List Parsed) : Sound (memory.allocate parsed) before := by
  refine ⟨sound.grown.allocate parsed, ?_⟩
  intro address member
  rw [Memory.subid, allocate_node_of_lt memory parsed (sound.grown.bounded address member)]
  exact sound.unmarked address member

theorem addNodes_first (fits : Fits parsed) (filled : parsed ≠ []) (none : memory.tnmMibTree = none)
    (fitsFirst : FitsFirst parsed) :
    ∃ after tree flag, (∃ bound, ∀ fuel ≥ bound, addNodes fuel parsed memory = some (after, flag)) ∧
      Adds memory parsed before after tree := by
  have empty := sound.empty none
  subst empty
  have grown := sound.grown
  rw [none] at grown
  obtain ⟨_, _, ⟨bound, builds⟩, texts, _, rooted⟩ := first_rooted grown fits fitsFirst filled
  obtain ⟨after, tree, flag, ⟨lastBound, returns⟩, kept, grownAfter, origins, settled⟩ := rooted.addToTree
  have sameNode := kept.node.trans texts
  refine ⟨after, tree, flag, ⟨max bound lastBound, ?_⟩, ⟨?_, ?_⟩, ?_, ?_, ?_, ?_⟩
  · intro fuel _
    have isFilled : parsed.isEmpty = false := by simpa using filled
    have noTree : (memory.allocate parsed).tnmMibTree.isNone = true := by
      rw [Memory.allocate, none]
      rfl
    simp only [addNodes, isFilled, tnmMibAddNode, noTree, Bool.false_eq_true, if_false]
    rw [builds fuel (by omega)]
    exact returns fuel (by omega)
  · rw [kept.top]
    exact grownAfter
  · intro address member
    rw [Memory.subid, kept.node]
    exact rooted.unmarked address (origins address member)
  · intro _ small
    rw [sameNode, allocate_node_of_lt (memory.allocate parsed) rootNodes, allocate_node_of_lt memory parsed small]
    exact Nat.lt_of_lt_of_le small (Nat.le_add_right _ _)
  · intro index small
    have inAll : index < (parsed ++ rootNodes).length := by
      rw [length_append]
      omega
    rw [sameNode, allocate_twice, allocate_node_new memory _ inAll, getElem_append_left small]
  · intro _ member
    cases member
  · rw [kept.node]
    exact settled

theorem addNodes_later (fits : Fits parsed) (filled : parsed ≠ []) (present : memory.tnmMibTree ≠ none) :
    ∃ after tree flag, (∃ bound, ∀ fuel ≥ bound, addNodes fuel parsed memory = some (after, flag)) ∧
      Adds memory parsed before after tree := by
  have allocated := sound.allocate parsed
  have chain := allocate_chain memory parsed
  have isFilled : parsed.isEmpty = false := by simpa using filled
  simp only [isFilled] at chain
  have fresh : ∀ address ∈ List.range' memory.size parsed.length,
      address ∉ before.values ∧ address < (memory.allocate parsed).size := by
    intro address member
    rw [mem_range'_1] at member
    refine ⟨fun old => ?_, member.2⟩
    have small := sound.grown.bounded address old
    omega
  have texts := @allocate_node_mem memory parsed
  have fit : Fit (memory.allocate parsed) ⟨before, (List.range' memory.size parsed.length).toFinset, ∅⟩ := by
    refine ⟨fun address member => fits.plain _ (texts (List.mem_toFinset.mp member)), ?_⟩
    rintro address (inTree | member)
    · exact allocated.unmarked address inTree
    · exact fits.unmarked _ (texts (List.mem_toFinset.mp member))
  have positive : List.range' memory.size parsed.length ≠ [] := by
    rw [Ne, range'_eq_nil_iff]
    exact fun none => filled (length_eq_zero_iff.mp none)
  obtain ⟨after, final, added⟩ := addToTree_spec allocated.grown chain positive fresh fit
  have fitAfter := fit.steps added.kept added.steps
  obtain ⟨bound, returns⟩ := added.returns
  refine ⟨after, final.tree, decide (final.waiting = ∅), ⟨bound, ?_⟩,
    ⟨?_, fun address member => fitAfter.unmarked address (.inl member)⟩, ?_, ?_,
    fun entry member => steps_paths added.steps member, ?_⟩
  · intro fuel enough
    have isTree : (memory.allocate parsed).tnmMibTree.isNone = false := by
      cases found : memory.tnmMibTree with
      | none => exact absurd found present
      | some => simp [Memory.allocate, found]
    simp only [addNodes, isFilled, tnmMibAddNode, isTree]
    exact returns fuel enough
  · rw [added.kept.top]
    exact added.represents.grown
  · intro address small
    rw [added.kept.node, allocate_node_of_lt memory parsed small]
  · intro _ small
    rw [added.kept.node, allocate_node_new memory parsed small]
  · rw [added.kept.node]
    exact added.settled allocated.grown.nodup fun address member => (fresh address member).1

theorem addNodes_spec (ready : Ready memory parsed) :
    ∃ after tree flag, (∃ bound, ∀ fuel ≥ bound, addNodes fuel parsed memory = some (after, flag)) ∧
      Adds memory parsed before after tree := by
  obtain ⟨fits, fitsFirst⟩ := ready
  by_cases filled : parsed = []
  · subst filled
    refine ⟨memory.allocate [], before, true, ⟨0, fun fuel _ => rfl⟩, sound.allocate [], ?_, ?_,
      fun entry member => member, ?_⟩
    · intro address small
      exact allocate_node_of_lt memory [] small
    · intro _ small
      cases small
    · intro _ member
      cases member
  · by_cases none : memory.tnmMibTree = none
    · exact addNodes_first sound fits filled none (fitsFirst none)
    · exact addNodes_later sound fits filled none

end

end

theorem Loaded.sound {memory : Memory} (loaded : Loaded memory) : ∃ tree, Sound memory tree := by
  induction loaded with
  | start =>
    refine ⟨.nil, ⟨rfl, nodup_nil, trivial, trivial, ?_, ?_⟩, ?_⟩
    · intro address member
      cases member
    · intro _ address entry
      cases entry
    · intro _ member
      cases member
  | add _ ready adds ih =>
    obtain ⟨_, sound⟩ := ih
    obtain ⟨_, tree, _, ⟨bound, returns⟩, added⟩ := addNodes_spec sound ready
    obtain ⟨other, otherReturns⟩ := adds
    have same := (returns (max bound other) (by omega)).symm.trans (otherReturns (max bound other) (by omega))
    cases same
    exact ⟨tree, added.sound⟩

theorem Occupied.own {memory : Memory} {tree : AddressTree} {isNew : Nat → Prop} {address : Nat}
    (sound : Sound memory tree)
    (occupied : Occupied memory.node tree address) (sole : Sole memory tree isNew address) :
    ∃ path parent, (path, parent) ∈ tree.paths ∧ (memory.node address).parentName = some (memory.node parent).label ∧
      (path ++ [memory.subid address], address) ∈ tree.paths := by
  obtain ⟨path, parent, other, isParent, refers, isOther⟩ := occupied
  have otherRefers := sound.grown.named.child sound.grown.sorted isParent isOther
  obtain ⟨_, shape⟩ := sound.grown.held.key_eq isOther
  have sameSubid : memory.subid other = memory.subid address :=
    (cons.inj (append_inj' shape rfl).2).1.symm
  have same := sole other (.inr (mem_values_iff.mpr ⟨_, isOther⟩)) (otherRefers.trans refers.symm) sameSubid
  subst same
  exact ⟨path, parent, isParent, refers, isOther⟩

/-- Every node of a further list whose parents lead into the tree gets its place, unless that is taken. -/
theorem addNodes_complete {memory : Memory} {parsed : List Parsed} (loaded : Loaded memory)
    (ready : Ready memory parsed) :
    ∃ bound before after tree flag, (∀ fuel ≥ bound, addNodes fuel parsed memory = some (after, flag)) ∧
        memory.tree = some before ∧ after.tree = some tree ∧ tree.Sorted ∧
        (∀ entry ∈ before.paths, entry ∈ tree.paths) ∧
        (∀ address < memory.size, after.node address = memory.node address) ∧
        (∀ index, ∀ small : index < parsed.length, after.node (memory.size + index) = parsed[index]) ∧
        (∀ address, NewNode memory parsed address → ∀ parent ∈ tree.values,
          (after.node address).parentName = some (after.node parent).label → Occupied after.node tree address) ∧
        (∀ address, NewNode memory parsed address → ∀ parent, Anchored after tree (NewNode memory parsed) parent →
          (after.node address).parentName = some (after.node parent).label →
          Sole after tree (NewNode memory parsed) address → ∃ path parent, (path, parent) ∈ tree.paths ∧
              (after.node address).parentName = some (after.node parent).label ∧
              (path ++ [after.subid address], address) ∈ tree.paths) := by
  obtain ⟨before, sound⟩ := loaded.sound
  obtain ⟨after, tree, flag, ⟨bound, returns⟩, added⟩ := addNodes_spec sound ready
  have settled : ∀ address, NewNode memory parsed address → ∀ parent ∈ tree.values,
      (after.node address).parentName = some (after.node parent).label → Occupied after.node tree address := by
    intro address new
    exact added.settled address (mem_range'_1.mpr new)
  have inTree : ∀ address, Anchored after tree (NewNode memory parsed) address → address ∈ tree.values := by
    intro address anchored
    induction anchored with
    | inTree member => exact member
    | child new _ refers sole ih =>
      obtain ⟨_, parent, _, _, isChild⟩ := (settled _ new _ ih refers).own added.sound sole
      exact mem_values_iff.mpr ⟨_, isChild⟩
  refine ⟨bound, before, after, tree, flag, returns, sound.grown.tree_eq, added.sound.grown.tree_eq,
    added.sound.grown.sorted, added.paths, added.old, added.new, settled, ?_⟩
  intro address new parent anchored refers sole
  exact (settled address new parent (inTree parent anchored) refers).own added.sound sole

def parsedNode (label parent : String) (subid : Nat) : Parsed := ⟨label.toList, some parent.toList, none, subid⟩

/-- After a first list of one node, two nodes are added, the child in front of its parent. -/
theorem addNodes_dod : ∃ memory, Loaded memory ∧ Ready memory [parsedNode "dod" "org" 6, parsedNode "org" "iso" 3] ∧
      ∃ bound after flag, ∀ fuel ≥ bound,
        addNodes fuel [parsedNode "dod" "org" 6, parsedNode "org" "iso" 3] memory = some (after, flag) := by
  have plain : ∀ name ∈ ["ccitt".toList, "iso".toList, "org".toList], PlainName name := by
    intro _ member
    simp only [mem_cons, not_mem_nil, or_false] at member
    rcases member with rfl | rfl | rfl <;> exact ⟨by decide, by decide, by decide, by decide⟩
  have first : Ready noMemory [parsedNode "zeroDotZero" "ccitt" 0] := by
    refine ⟨⟨?_, by decide⟩, fun _ => ⟨by decide, by decide, by decide⟩⟩
    intro node member
    rw [mem_singleton.mp member]
    exact ⟨_, rfl, plain _ (by simp)⟩
  obtain ⟨bound, _, memory, _, _, returns, _⟩ := addNodes_complete Loaded.start first
  have loaded : Loaded memory := .add .start first ⟨bound, returns⟩
  have second : Ready memory [parsedNode "dod" "org" 6, parsedNode "org" "iso" 3] := by
    refine ⟨⟨?_, by decide⟩, fun _ => ⟨by decide, by decide, by decide⟩⟩
    intro _ member
    simp only [mem_cons, not_mem_nil, or_false] at member
    rcases member with rfl | rfl <;> exact ⟨_, rfl, plain _ (by simp)⟩
  obtain ⟨last, _, after, _, result, adds, _⟩ := addNodes_complete loaded second
  exact ⟨memory, loaded, second, last, after, result, adds⟩

/-- Of two nodes for one place the second is left out. -/
theorem addNodes_taken : ((addNodes 12 [parsedNode "zeroDotZero" "ccitt" 0] noMemory).bind fun result =>
      (addNodes 12 [parsedNode "alias" "iso" 3, parsedNode "org" "iso" 3] result.1).bind fun result => result.1.tree) =
      some (.node 0 1 (.node 0 0 .nil .nil) (.node 1 2 (.node 3 5 .nil .nil) (.node 2 3 .nil .nil))) ∧
    ((addNodes 12 [parsedNode "org" "iso" 3, parsedNode "dod" "org" 6] noMemory).bind fun result => result.1.tree) =
      some (.node 0 2 .nil (.node 1 3 (.node 3 0 .nil .nil) (.node 2 4 .nil .nil))) := by
  decide +kernel

end Tnm.Mib
