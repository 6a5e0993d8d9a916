import TkinedRemix.Mib.KnownParents

/-!
`TnmMibAddNode` for a list of nodes that are not in the tree yet.
-/

namespace Tnm.Mib

open Lib SiblingTree Relation List Option

section

variable (memory : Memory) (nodes : List Parsed)

theorem allocate_node_of_lt {address : Nat} (old : address < memory.size) :
    (memory.allocate nodes).node address = memory.node address := by
  simp [Memory.allocate, Nat.not_le.mpr old]

theorem allocate_links_of_lt {address : Nat} (old : address < memory.size) :
    (memory.allocate nodes).links address = memory.links address := by
  simp [Memory.allocate, Nat.not_le.mpr old]

theorem allocate_node_new {index : Nat} (inList : index < nodes.length) :
    (memory.allocate nodes).node (memory.size + index) = nodes[index] := by
  simp [Memory.allocate, inList]

theorem allocate_node_mem {address : Nat} (member : address ∈ List.range' memory.size nodes.length) :
    (memory.allocate nodes).node address ∈ nodes := by
  obtain ⟨_, small, rfl⟩ := mem_range'.mp member
  rw [Nat.one_mul, allocate_node_new memory nodes small]
  exact getElem_mem small

theorem allocate_chain_from (left : Nat) : ∀ index, index + left = nodes.length →
    (memory.allocate nodes).Chain (if index < nodes.length then some (memory.size + index) else none)
      (List.range' (memory.size + index) left) := by
  induction left with
  | zero =>
    intro index whole
    rw [if_neg (by omega)]
    rfl
  | succ _ ih =>
    intro index _
    have rest := ih (index + 1) (by omega)
    rw [if_pos (by omega)]
    refine ⟨rfl, _, rfl, ?_⟩
    have points : ((memory.allocate nodes).links (memory.size + index)).nextPtr =
        if index + 1 < nodes.length then some (memory.size + (index + 1)) else none := by
      have position : memory.size ≤ memory.size + index ∧ index < nodes.length := by omega
      simp only [Memory.allocate, Nat.add_assoc, Nat.add_lt_add_iff_left, if_pos position]
    rw [points]
    exact rest

theorem allocate_chain : (memory.allocate nodes).Chain (if nodes.isEmpty then none else some memory.size)
      (List.range' memory.size nodes.length) := by
  have whole := allocate_chain_from memory nodes nodes.length 0 (Nat.zero_add _)
  cases nodes with
  | nil => exact whole
  | cons => simpa using whole

variable {memory}

theorem Grown.allocate {top : Option Nat} {tree : AddressTree} (grown : Grown memory top tree) :
    Grown (memory.allocate nodes) top tree := by
  have texts : ∀ address ∈ tree.values, (memory.allocate nodes).node address = memory.node address :=
    fun address member => allocate_node_of_lt memory nodes (grown.bounded address member)
  refine ⟨?_, grown.nodup, grown.sorted, ?_, ?_, ?_⟩
  · refine grown.held.congr (fun address member => allocate_links_of_lt memory nodes (grown.bounded address member)) ?_
    exact fun address member => by rw [Memory.subid, texts address member, Memory.subid]
  · exact grown.named.congr fun address member => by simp only [texts address member, and_self]
  · intro address member
    exact Nat.lt_of_lt_of_le (grown.bounded address member) (Nat.le_add_right _ _)
  · intro label address entry
    obtain ⟨member, named⟩ := grown.registered label address entry
    exact ⟨member, by rw [texts address member, named]⟩

end

section

variable {memory : Memory} {top : Option Nat} {tree : AddressTree} {waiting : Finset Nat}

abbrev Memory.push (memory : Memory) (hash address : Nat) : Memory :=
  (memory.store (memory.nodehashtab hash) (.next address)).store (some address) (.bucket hash)

theorem push_links_of_ne {address other : Nat} (different : other ≠ address) (hash : Nat) :
    (memory.push hash address).links other = memory.links other := by
  simp [Memory.store, Memory.setLinks, different]

theorem push_spec (represents : Represents memory top ⟨tree, waiting, ∅⟩) {address : Nat} {name : List Char}
    (outside : address ∉ tree.values) (notWaiting : address ∉ waiting) (small : address < memory.size)
    (named : (memory.node address).parentName = some name) :
    Represents (memory.push (hashNodeLabel name) address) top ⟨tree, insert address waiting, ∅⟩ := by
  obtain ⟨grown, bins, apart, inside, _⟩ := represents
  have texts : (memory.push (hashNodeLabel name) address).node = memory.node := by simp
  have ownHash : memory.hashOf address = some (hashNodeLabel name) := by rw [Memory.hashOf, named, map_some]
  refine ⟨grown.frame texts (by simp) (by simp) fun other member => push_links_of_ne ?_ _, ?_, ?_, ?_, ?_⟩
  · rintro rfl
    exact outside member
  · intro hash
    obtain ⟨bin, chain, members⟩ := bins hash
    have notInBin : address ∉ bin := fun member => notWaiting ((members address).mp member).1
    have framed : (memory.push (hashNodeLabel name) address).Chain (memory.nodehashtab hash) bin := by
      refine chain_frame chain fun other member => push_links_of_ne ?_ _
      rintro rfl
      exact notInBin member
    by_cases same : hash = hashNodeLabel name
    · subst same
      refine ⟨address :: bin, ⟨?_, _, rfl, ?_⟩, ?_⟩
      · simp [Memory.store]
      · have points : ((memory.push (hashNodeLabel name) address).links address).nextPtr =
            memory.nodehashtab (hashNodeLabel name) := by
          simp [Memory.store, Memory.setLinks]
        rw [points]
        exact framed
      · intro other
        have old := members other
        rw [mem_cons, Finset.mem_insert, old, or_and_right]
        refine or_congr_left (iff_self_and.mpr ?_)
        rintro rfl
        exact ownHash
    · refine ⟨bin, ?_, ?_⟩
      · have table : (memory.push (hashNodeLabel name) address).nodehashtab hash = memory.nodehashtab hash := by
          simp [Memory.store, Memory.setLinks, same]
        rw [table]
        exact framed
      · intro other
        have old := members other
        rw [old, Finset.mem_insert, or_and_right]
        refine (or_iff_right ?_).symm
        rintro ⟨rfl, hashed⟩
        exact same (some.inj (hashed.symm.trans ownHash))
  · intro other member
    rcases Finset.mem_insert.mp member with rfl | old
    · exact outside
    · exact apart other old
  · intro other member
    rcases Finset.mem_insert.mp member with rfl | old
    · simpa using small
    · simpa using inside other old
  · intro other member
    cases Finset.notMem_empty other member

theorem hashNodes_spec {nodes : List Nat} {pointer : Option Nat} (represents : Represents memory top ⟨tree, waiting, ∅⟩)
    (chain : memory.Chain pointer nodes)
    (fresh : ∀ address ∈ nodes, address ∉ tree.values ∧ address ∉ waiting ∧ address < memory.size)
    (named : ∀ address ∈ nodes, ∃ name, (memory.node address).parentName = some name) :
    ∃ after, (∀ fuel ≥ nodes.length, hashNodes fuel pointer memory = some after) ∧ Kept memory after ∧
      Represents after top ⟨tree, nodes.toFinset ∪ waiting, ∅⟩ := by
  induction nodes generalizing memory waiting pointer with
  | nil =>
    have empty : pointer = none := chain
    subst empty
    refine ⟨memory, ?_, Kept.refl memory, by simpa using represents⟩
    intro fuel _
    cases fuel <;> rfl
  | cons address rest ih =>
    have nodup := nodup_cons.mp chain.nodup
    obtain ⟨rfl, _, stored, tail⟩ := chain
    cases stored
    obtain ⟨outside, notWaiting, small⟩ := fresh address mem_cons_self
    obtain ⟨name, isName⟩ := named address mem_cons_self
    have pushed := push_spec represents outside notWaiting small isName
    have kept : Kept memory (memory.push (hashNodeLabel name) address) := by
      refine ⟨?_, ?_, ?_⟩ <;> simp
    have restChain : (memory.push (hashNodeLabel name) address).Chain (memory.links address).nextPtr rest := by
      refine chain_frame tail fun other member => push_links_of_ne ?_ _
      rintro rfl
      exact nodup.1 member
    obtain ⟨after, returns, keptAfter, represented⟩ := ih pushed restChain
      (by
        intro other member
        obtain ⟨otherOutside, otherNotWaiting, otherSmall⟩ := fresh other (mem_cons_of_mem _ member)
        refine ⟨otherOutside, ?_, by simpa using otherSmall⟩
        rw [Finset.mem_insert, not_or]
        refine ⟨?_, otherNotWaiting⟩
        rintro rfl
        exact nodup.1 member)
      (by
        intro other member
        exact named other (mem_cons_of_mem _ member))
    refine ⟨after, ?_, kept.trans keptAfter, ?_⟩
    · rintro (_ | fuel) enough
      · simp at enough
      rw [length_cons] at enough
      rw [hashNodes, isName]
      exact returns fuel (by omega)
    · have sets : rest.toFinset ∪ insert address waiting = (address :: rest).toFinset ∪ waiting := by
        rw [toFinset_cons, Finset.union_insert, Finset.insert_union]
      rw [← sets]
      exact represented

theorem Grown.emptied (grown : Grown memory top tree) :
    Represents { memory with nodehashtab := fun _ => none } top ⟨tree, ∅, ∅⟩ := by
  refine ⟨grown.frame rfl rfl rfl fun _ _ => rfl, fun _ => ⟨[], rfl, by simp⟩, ?_, ?_, ?_⟩ <;>
    exact fun address member => absurd member (Finset.notMem_empty address)

theorem hashNodeList_spec {nodes : List Nat} {pointer : Option Nat} (grown : Grown memory top tree)
    (chain : memory.Chain pointer nodes) (fresh : ∀ address ∈ nodes, address ∉ tree.values ∧ address < memory.size)
    (named : ∀ address ∈ nodes, ∃ name, (memory.node address).parentName = some name) :
    ∃ after, (∀ fuel ≥ nodes.length, hashNodeList fuel pointer memory = some after) ∧ Kept memory after ∧
      Represents after top ⟨tree, nodes.toFinset, ∅⟩ := by
  obtain ⟨after, returns, kept, represented⟩ := hashNodes_spec grown.emptied chain
    (fun address member => ⟨(fresh address member).1, Finset.notMem_empty address, (fresh address member).2⟩) named
  refine ⟨after, returns, ⟨kept.node, kept.size, kept.top⟩, ?_⟩
  rwa [Finset.union_empty] at represented

end

/-- The sub-identifier of a node is taken below a node with its parent's name. -/
def Occupied (node : Nat → Parsed) (tree : AddressTree) (address : Nat) : Prop :=
  ∃ path parent other, (path, parent) ∈ tree.paths ∧ (node address).parentName = some (node parent).label ∧
    (path ++ [(node address).subid], other) ∈ tree.paths

def Settled (node : Nat → Parsed) (tree : AddressTree) (nodes : List Nat) : Prop :=
  ∀ address ∈ nodes, ∀ parent ∈ tree.values, (node address).parentName = some (node parent).label →
    Occupied node tree address

section

variable {node : Nat → Parsed} {before after : Stage}

theorem Occupied.mono {tree larger : AddressTree} (subset : ∀ entry ∈ tree.paths, entry ∈ larger.paths) {address : Nat}
    (occupied : Occupied node tree address) : Occupied node larger address := by
  obtain ⟨path, parent, other, isParent, refers, isOther⟩ := occupied
  exact ⟨path, parent, other, subset _ isParent, refers, subset _ isOther⟩

section

variable (steps : ReflTransGen (Step node) before after)
include steps

theorem steps_proper (nodup : before.tree.values.Nodup)
    (apart : ∀ address ∈ before.waiting, address ∉ before.tree.values) :
    after.tree.values.Nodup ∧ ∀ address ∈ after.waiting, address ∉ after.tree.values := by
  induction steps with
  | refl => exact ⟨nodup, apart⟩
  | @tail _ _ _ step ih =>
    obtain ⟨middleNodup, middleApart⟩ := ih
    obtain ⟨root, thisNode, _, waits, _, tree, waiting, _⟩ := step
    rw [tree, waiting]
    refine ⟨nodup_graft middleNodup (middleApart thisNode waits) root _, ?_⟩
    intro address member inTree
    obtain ⟨different, stillWaits⟩ := Finset.mem_erase.mp member
    rcases mem_values_graft inTree with old | same
    · exact middleApart address stillWaits old
    · exact different same

theorem steps_occupied (nodup : before.tree.values.Nodup)
    (apart : ∀ address ∈ before.waiting, address ∉ before.tree.values) {address : Nat}
    (waits : address ∈ before.waiting) :
    address ∈ after.waiting ∨ Occupied node after.tree address := by
  induction steps with
  | refl => exact .inl waits
  | @tail _ last steps step ih =>
    rcases ih with still | occupied
    · by_cases left : address ∈ last.waiting
      · exact .inl left
      · obtain ⟨middleNodup, _⟩ := steps_proper steps nodup apart
        obtain ⟨root, thisNode, isRoot, _, refers, tree, waiting, _⟩ := step
        have same : address = thisNode := by
          by_contra different
          exact left (by rw [waiting]; exact Finset.mem_erase.mpr ⟨different, still⟩)
        subst same
        obtain ⟨path, member⟩ := mem_values_iff.mp isRoot
        obtain ⟨other, taken⟩ := (extended_graft middleNodup member (node address).subid address).taken
        rw [tree]
        exact .inr ⟨path, root, other, paths_graft root _ _ member, refers, taken⟩
    · exact .inr (occupied.mono fun entry member => step.paths member)

theorem steps_linked {address : Nat} (member : address ∈ after.tree.values) (new : address ∉ before.tree.values) :
    ∃ path parent, (path, parent) ∈ after.tree.paths ∧ (node address).parentName = some (node parent).label ∧
      (path ++ [(node address).subid], address) ∈ after.tree.paths := by
  induction steps with
  | refl => exact absurd member new
  | @tail middle last _ step ih =>
    by_cases known : address ∈ middle.tree.values
    · obtain ⟨path, parent, isParent, refers, isChild⟩ := ih known
      exact ⟨path, parent, step.paths isParent, refers, step.paths isChild⟩
    · have paths : ∀ entry ∈ middle.tree.paths, entry ∈ last.tree.paths := fun entry member => step.paths member
      obtain ⟨root, _, _, _, refers, tree, _⟩ := step
      obtain ⟨path, isChild⟩ := mem_values_iff.mp member
      rw [tree] at isChild
      rcases mem_paths_graft isChild with old | ⟨rfl, above, isRoot, rfl⟩
      · exact absurd (mem_values_iff.mpr ⟨path, old⟩) known
      · exact ⟨above, root, paths _ isRoot, refers, by rw [tree]; exact isChild⟩

theorem steps_eq (stuck : ∀ address ∈ before.waiting, ∀ parent ∈ before.tree.values,
      (node address).parentName ≠ some (node parent).label) : after = before := by
  rcases ReflTransGen.cases_head steps with same | ⟨_, step, _⟩
  · exact same.symm
  · obtain ⟨root, thisNode, isRoot, waits, refers, _⟩ := step
    exact absurd refers (stuck thisNode waits root isRoot)

end

end

structure Added (memory : Memory) (tree : AddressTree) (nodes : List Nat) (run : Nat → Option (Memory × Bool))
    (after : Memory) (final : Stage) : Prop where
  returns : ∃ bound, ∀ fuel ≥ bound, run fuel = some (after, decide (final.waiting = ∅))
  kept : Kept memory after
  represents : Represents after memory.tnmMibTree final
  steps : ReflTransGen (Step memory.node) ⟨tree, nodes.toFinset, ∅⟩ final
  complete : ∀ address ∈ final.waiting, ∀ parent ∈ final.tree.values,
    (memory.node address).parentName ≠ some (memory.node parent).label

theorem addToTree_spec {memory : Memory} {tree : AddressTree} {nodes : List Nat} {nodeList : Option Nat}
    (grown : Grown memory memory.tnmMibTree tree) (chain : memory.Chain nodeList nodes) (filled : nodes ≠ [])
    (fresh : ∀ address ∈ nodes, address ∉ tree.values ∧ address < memory.size)
    (fit : Fit memory ⟨tree, nodes.toFinset, ∅⟩) :
    ∃ after final, Added memory tree nodes (fun fuel => addToTree fuel nodeList memory) after final := by
  have unmarked : Unmarked memory tree := fun address member => fit.unmarked address (.inl member)
  have names : ∀ address ∈ nodes, ∃ name, (memory.node address).parentName = some name ∧ PlainName name :=
    fun address member => fit.plain address (List.mem_toFinset.mpr member)
  obtain ⟨hashed, hashes, keptHashed, representsHashed⟩ := hashNodeList_spec grown chain fresh fun address member => by
    obtain ⟨name, named, _⟩ := names address member
    exact ⟨name, named⟩
  obtain ⟨name, named, plain⟩ := names (nodes.getLast filled) (getLast_mem filled)
  -- the anchor, if there is one
  have anchored : ∃ middle next, Built memory.tnmMibTree hashed ⟨tree, nodes.toFinset, ∅⟩
      (fun fuel => buildAnchor fuel (findNode memory tree name) hashed) middle next := by
    cases found : findNode memory tree name with
    | none => exact ⟨hashed, _, ⟨0, fun fuel _ => rfl⟩, Kept.refl hashed, representsHashed, ReflTransGen.refl⟩
    | some root =>
      have isRoot := ((findNode_label plain grown unmarked).1 root found).1
      obtain ⟨middle, next, built, _⟩ := buildSubTree_spec representsHashed isRoot
      exact ⟨middle, next, built⟩
  obtain ⟨middle, next, ⟨bound, returns⟩, keptMiddle, representsMiddle, steps⟩ := anchored
  have kept := keptHashed.trans keptMiddle
  rw [keptHashed.node] at steps
  rw [← kept.top] at representsMiddle
  have fitMiddle : Fit middle next := fit.steps kept steps
  obtain ⟨after, final, ⟨⟨lastBound, lastReturns⟩, keptAfter, represented, lastSteps⟩, complete⟩ :=
    buildKnown_spec _ rfl representsMiddle fitMiddle
  have fitAfter : Fit after final := fitMiddle.steps keptAfter lastSteps
  obtain ⟨left, isLeft, members⟩ := represented.hashed fitAfter
  rw [kept.node] at lastSteps complete
  rw [kept.top] at represented
  refine ⟨after, final, ⟨max (max bound lastBound) nodes.length, ?_⟩, kept.trans keptAfter, represented,
    steps.trans lastSteps, complete⟩
  intro fuel _
  have last : nodes.getLast? = some (nodes.getLast filled) := getLast?_eq_some_getLast filled
  have followed := follow_linked chain (by omega : nodes.length ≤ fuel)
  have empty : left.isEmpty = decide (final.waiting = ∅) := by
    rw [Bool.eq_iff_iff, List.isEmpty_iff, decide_eq_true_iff, Finset.eq_empty_iff_forall_notMem,
      eq_nil_iff_forall_not_mem]
    exact forall_congr' fun address => not_congr (members address)
  simp only [addToTree, followed, last, named, grown.tree_eq, bind_eq_bind, bind_some, hashes fuel (by omega)]
  rw [returns fuel (by omega), bind_some, lastReturns fuel (by omega), bind_some, isLeft, bind_some,
    empty]
  rfl

theorem Added.settled {memory after : Memory} {tree : AddressTree} {nodes : List Nat}
    {run : Nat → Option (Memory × Bool)} {final : Stage} (added : Added memory tree nodes run after final)
    (nodup : tree.values.Nodup) (fresh : ∀ address ∈ nodes, address ∉ tree.values) :
    Settled memory.node final.tree nodes := by
  intro address member parent isParent refers
  have apart : ∀ address ∈ nodes.toFinset, address ∉ tree.values :=
    fun address member => fresh address (List.mem_toFinset.mp member)
  rcases steps_occupied added.steps nodup apart (List.mem_toFinset.mpr member) with waits | occupied
  · exact absurd refers (added.complete address waits parent isParent)
  · exact occupied

end Tnm.Mib
