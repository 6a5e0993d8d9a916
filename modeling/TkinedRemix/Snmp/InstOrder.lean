import TkinedRemix.Snmp.InstCore

/-!
The order kept by the instance tree, by which `findNextNode` answers with the least instance behind the given
object identifier.
-/

namespace Tnm

open Lib Lib.SiblingTree
open List hiding keys

theorem tnmOidCompare_iff (left right : Oid) :
    (tnmOidCompare left right < 0 ↔ left < right) ∧ (0 < tnmOidCompare left right ↔ right < left) := by
  induction left generalizing right with
  | nil => cases right <;> simp [tnmOidCompare]
  | cons head _ ih =>
    cases right with
    | nil => simp [tnmOidCompare]
    | cons other =>
      rw [tnmOidCompare, cons_lt_cons_iff, cons_lt_cons_iff]
      rcases lt_trichotomy head other with smaller | rfl | larger
      · simp [smaller, smaller.not_gt, smaller.ne']
      · simp [ih]
      · simp [larger, larger.not_gt, larger.ne']

theorem tnmOidCompare_neg_iff (left right : Oid) : tnmOidCompare left right < 0 ↔ left < right :=
  (tnmOidCompare_iff left right).1

theorem tnmOidCompare_nonpos_iff (left right : Oid) : tnmOidCompare left right ≤ 0 ↔ left ≤ right := by
  rw [← Int.not_lt, (tnmOidCompare_iff left right).2, not_lt]

def Labelled (above : Oid) : InstTree → Prop
  | .nil => True
  | .node key here child next =>
    here.label = above ++ [key] ∧ Labelled (above ++ [key]) child ∧ Labelled above next

theorem labelled_paths (above : Oid) (tree : InstTree) (labelled : Labelled above tree) :
    ∀ entry ∈ tree.paths, entry.2.label = above ++ entry.1 := by
  induction tree generalizing above with
  | nil => simp [paths]
  | node key _ _ _ childIh nextIh =>
    obtain ⟨label, childLabelled, nextLabelled⟩ := labelled
    intro entry member
    simp only [paths, cons_append, mem_cons, mem_append, mem_map] at member
    rcases member with rfl | ⟨inner, innerMember, rfl⟩ | later
    · exact label
    · simpa using childIh (above ++ [key]) childLabelled inner innerMember
    · exact nextIh above nextLabelled entry later

structure WellFormedTree (above : Oid) (tree : InstTree) : Prop where
  sorted : tree.Sorted
  labelled : Labelled above tree

section

variable {above : Oid} {key subid : Nat} {here value : Node} {tree child next : InstTree}

theorem wellFormedTree_nil (above : Oid) : WellFormedTree above .nil := ⟨trivial, trivial⟩

theorem wellFormedTree_node : WellFormedTree above (.node key here child next) ↔ here.label = above ++ [key] ∧
    WellFormedTree (above ++ [key]) child ∧ (∀ other ∈ next.keys, key < other) ∧ WellFormedTree above next :=
  ⟨fun ⟨⟨lower, larger, later⟩, label, below, behind⟩ => ⟨label, ⟨lower, below⟩, larger, later, behind⟩,
    fun ⟨label, ⟨lower, below⟩, larger, later, behind⟩ => ⟨⟨lower, larger, later⟩, label, below, behind⟩⟩

theorem insertSibling_node (fresh : subid ∉ next.keys) : insertSibling subid value (.node key here child next) =
    if subid < key then .node subid value .nil (.node key here child next)
    else .node key here child (insertSibling subid value next) := by
  rw [insertSibling]
  cases next with
  | nil => rfl
  | node nextKey =>
    simp only [keys, mem_cons] at fresh
    rw [insertBehind, insertSibling]
    split_ifs <;> first | rfl | omega

theorem insertSibling_keys (fresh : subid ∉ tree.keys) :
    ∀ key ∈ (insertSibling subid value tree).keys, key = subid ∨ key ∈ tree.keys := by
  induction tree with
  | nil => simp [insertSibling, keys]
  | node key _ _ _ _ nextIh =>
    simp only [keys, mem_cons, not_or] at fresh
    intro other member
    rw [insertSibling_node fresh.2] at member
    split at member
    · simpa [keys] using member
    · rcases mem_cons.mp member with rfl | later
      · exact .inr mem_cons_self
      · exact (nextIh fresh.2 other later).imp_right (mem_cons_of_mem key)

theorem insertSibling_wellFormed (wellFormed : WellFormedTree above tree) (fresh : subid ∉ tree.keys)
    (label : value.label = above ++ [subid]) : WellFormedTree above (insertSibling subid value tree) := by
  induction tree with
  | nil => exact wellFormedTree_node.mpr ⟨label, wellFormedTree_nil _, by simp [keys], wellFormedTree_nil _⟩
  | node _ _ _ _ _ nextIh =>
    obtain ⟨hereLabel, below, larger, later⟩ := wellFormedTree_node.mp wellFormed
    simp only [keys, mem_cons, not_or] at fresh
    rw [insertSibling_node fresh.2]
    split
    next smaller =>
      refine wellFormedTree_node.mpr ⟨label, wellFormedTree_nil _, ?_, wellFormed⟩
      rw [keys, forall_mem_cons]
      exact ⟨smaller, fun other member => smaller.trans (larger other member)⟩
    next notSmaller =>
      refine wellFormedTree_node.mpr ⟨hereLabel, below, ?_, nextIh later fresh.2⟩
      intro other member
      rcases insertSibling_keys fresh.2 other member with rfl | known
      · omega
      · exact larger other known

theorem updateSibling_keys (subid : Nat) (change : Node → InstTree → Node × InstTree)
    (tree : InstTree) : (updateSibling subid change tree).keys = tree.keys := by
  induction tree with
  | nil => rfl
  | node _ _ _ _ _ nextIh =>
    simp only [updateSibling]
    split
    · rfl
    · simp [keys, nextIh]

theorem updateSibling_wellFormed (change : Node → InstTree → Node × InstTree) (wellFormed : WellFormedTree above tree)
    (kept : ∀ here child, here.label = above ++ [subid] → WellFormedTree (above ++ [subid]) child →
      (change here child).1.label = above ++ [subid] ∧ WellFormedTree (above ++ [subid]) (change here child).2) :
    WellFormedTree above (updateSibling subid change tree) := by
  induction tree with
  | nil => exact wellFormedTree_nil above
  | node _ here child _ _ nextIh =>
    obtain ⟨label, below, larger, later⟩ := wellFormedTree_node.mp wellFormed
    rw [updateSibling]
    split
    next same =>
      subst same
      obtain ⟨changedLabel, changed⟩ := kept here child label below
      exact wellFormedTree_node.mpr ⟨changedLabel, changed, larger, later⟩
    · exact wellFormedTree_node.mpr ⟨label, below, by rwa [updateSibling_keys], nextIh later⟩

theorem addPath_wellFormed (offset : Nat) (assign : Node → Node) {rest : Oid} (wellFormed : WellFormedTree above tree)
    (kept : ∀ here, here.label = above ++ rest → (assign here).label = above ++ rest) :
    WellFormedTree above (addPath offset assign above rest tree) := by
  induction rest generalizing above tree with
  | nil => exact wellFormed
  | cons subid rest ih =>
    have present : WellFormedTree above (if subid ∈ tree.keys then tree
        else insertSibling subid (blankNode (above ++ [subid]) offset) tree) := by
      split
      · exact wellFormed
      next missing => exact insertSibling_wellFormed wellFormed missing rfl
    refine updateSibling_wellFormed _ present ?_
    intro here child label below
    cases rest with
    | nil => exact ⟨kept here label, below⟩
    | cons => exact ⟨label, ih below (by simpa using kept)⟩

theorem modifyNode_wellFormed {change : Node → Node} (path : Oid) (wellFormed : WellFormedTree above tree)
    (kept : ∀ here, (change here).label = here.label) : WellFormedTree above (modifyNode change path tree) := by
  induction path generalizing above tree with
  | nil => exact wellFormed
  | cons _ rest ih =>
    refine updateSibling_wellFormed _ wellFormed ?_
    intro here _ label below
    cases rest with
    | nil => exact ⟨(kept here).trans label, below⟩
    | cons => exact ⟨label, ih below⟩

theorem modifyNode_keys (change : Node → Node) (path : Oid) (tree : InstTree) :
    (modifyNode change path tree).keys = tree.keys := by
  cases path with
  | nil => rfl
  | cons subid => exact updateSibling_keys subid _ tree

theorem dropBoundHead_wellFormed (varName : String) (wellFormed : WellFormedTree above tree) :
    WellFormedTree above (dropBoundHead varName tree) := by
  cases tree with
  | nil => exact wellFormed
  | node =>
    rw [dropBoundHead]
    split
    · exact (wellFormedTree_node.mp wellFormed).2.2.2
    · exact wellFormed

theorem removeNode_keys (varName : String) (tree : InstTree) :
    ∀ key ∈ (removeNode varName tree).keys, key ∈ tree.keys := by
  fun_induction removeNode varName tree with
  | case1 => simp
  | case2 => simp [keys]
  | case3 _ _ _ _ _ _ _ _ ih2 ih3 =>
    intro other member
    simp only [keys, mem_cons] at member ⊢
    rcases member with rfl | later
    · simp
    · split at later
      · exact .inr (.inr (ih2 other later))
      · have known := ih3 other later
        simp only [keys, mem_cons] at known
        exact .inr known

theorem removeNode_wellFormed (varName : String) (wellFormed : WellFormedTree above tree) :
    WellFormedTree above (removeNode varName tree) := by
  fun_induction removeNode varName tree generalizing above with
  | case1 => exact wellFormed
  | case2 _ _ _ ih =>
    obtain ⟨label, below, larger, later⟩ := wellFormedTree_node.mp wellFormed
    exact wellFormedTree_node.mpr ⟨label, dropBoundHead_wellFormed varName (ih below), larger, later⟩
  | case3 _ _ _ _ _ _ rest ih1 ih2 ih3 =>
    obtain ⟨label, below, larger, later⟩ := wellFormedTree_node.mp wellFormed
    refine wellFormedTree_node.mpr ⟨label, dropBoundHead_wellFormed varName (ih1 below), ?_, ?_⟩ <;> split
    · exact fun other member => larger other (mem_cons_of_mem _ (removeNode_keys varName rest other member))
    · exact fun other member => larger other (removeNode_keys varName _ other member)
    · exact ih2 (wellFormedTree_node.mp later).2.2.2
    · exact ih3 later

def qualifies (oid : Oid) (entry : Oid × Node) : Bool :=
  entry.2.asn1Syntax ≠ 0 ∧ oid < entry.1

def Passed (oid : Oid) (subids : List Nat) : Prop :=
  oid = [] ∨ ∀ subid ∈ subids, oid.headD 0 < subid

theorem qualifies_of_passed {oid : Oid} (passed : Passed oid tree.keys) :
    ∀ entry ∈ tree.paths, qualifies oid entry = decide (entry.2.asn1Syntax ≠ 0) := by
  intro entry member
  obtain ⟨head, rest, shape, known⟩ := paths_head_mem tree entry member
  cases oid with
  | nil => simp [qualifies, shape]
  | cons first =>
    have below : first < head := passed.resolve_left (by simp) head known
    simp [qualifies, shape, cons_lt_cons_iff, below]

theorem find?_paths (test : Oid × Node → Bool) :
    ((SiblingTree.node subid here child next).paths.find? test).map (·.2) = if test ([subid], here) then some here
      else ((child.paths.find? fun entry => test (subid :: entry.1, entry.2)).map (·.2)).or
        ((next.paths.find? test).map (·.2)) := by
  simp only [paths, find?_cons, find?_append, find?_map]
  split
  next found => simp [found]
  next missed =>
    rw [missed]
    change Option.map _
      (Option.or (Option.map _ (child.paths.find? fun entry => test (subid :: entry.1, entry.2))) _) = _
    cases child.paths.find? fun entry => test (subid :: entry.1, entry.2) <;> rfl

/-- Behind the identifier the search takes the first instance. -/
theorem findNextNodeFrom_passed (skip force : Bool) {oid : Oid} (passed : Passed oid tree.keys) :
    (findNextNodeFrom skip tree oid force).1 =
      (tree.paths.find? fun entry => decide (entry.2.asn1Syntax ≠ 0)).map (·.2) := by
  induction tree generalizing skip oid force with
  | nil => rfl
  | node subid here child _ childIh nextIh =>
    have nextEq := fun force => nextIh false force (passed.imp_right fun larger other member =>
      larger other (mem_cons_of_mem subid member))
    have ahead : oid = [] ∨ oid.headD 0 < subid := passed.imp_right fun larger => larger subid mem_cons_self
    have unmatched : ¬(oid ≠ [] ∧ subid = oid.headD 0) := by grind
    rw [find?_paths, findNextNodeFrom, if_neg (by grind), if_neg unmatched, ← childIh true true (.inl rfl)]
    by_cases bare : here.asn1Syntax = 0
    · cases child with
      | nil => simp [bare, findNextNodeFrom, nextEq]
      | node =>
        cases outcome : findNextNodeFrom true _ [] true with
        | mk found => cases found <;> simp [bare, nextEq]
    · cases oid with
      | nil => simp [bare]
      | cons head =>
        have apart : subid ≠ head := fun same => unmatched ⟨nofun, same⟩
        simp [bare, apart]

theorem findNextNodeFrom_eq (oid : Oid) (sorted : tree.Sorted) :
    (findNextNodeFrom true tree oid false).1 = (tree.paths.find? (qualifies oid)).map (·.2) := by
  induction tree generalizing oid with
  | nil => rfl
  | node subid _ child next childIh nextIh =>
    obtain ⟨childSorted, larger, nextSorted⟩ := sorted
    cases oid with
    | nil => rw [findNextNodeFrom_passed true false (.inl rfl), find?_congr (qualifies_of_passed (.inl rfl))]
    | cons head tail =>
      rcases lt_trichotomy subid head with smaller | rfl | behind
      · -- the whole subtree lies before the identifier
        have skipped : ∀ rest node, qualifies (head :: tail) (subid :: rest, node) = false := by
          simp [qualifies, cons_lt_cons_iff, smaller.not_gt, smaller.ne']
        have block : (child.paths.find? fun _ => false) = none := find?_eq_none.mpr (by simp)
        simp [find?_paths, findNextNodeFrom, smaller, skipped, block, nextIh _ nextSorted]
      · -- the node itself is a prefix of the identifier; only its children can qualify
        have passed : Passed (subid :: tail) next.keys := .inr larger
        have nextEq : ∀ force, (findNextNodeFrom false next (subid :: tail) force).1 =
            (next.paths.find? (qualifies (subid :: tail))).map (·.2) := fun force => by
          rw [findNextNodeFrom_passed false force passed, find?_congr (qualifies_of_passed passed)]
        have matched : ∀ entry : Oid × Node, qualifies (subid :: tail) (subid :: entry.1, entry.2) =
            qualifies tail entry := by simp [qualifies]
        by_cases leaf : child = .nil
        · simp [leaf, findNextNodeFrom, qualifies, paths, nextEq]
        · simp only [find?_paths, matched, ← childIh tail childSorted, findNextNodeFrom]
          cases outcome : findNextNodeFrom true child tail false with
          | mk found => cases found <;> simp [leaf, qualifies, outcome, nextEq]
      · have passed : Passed (head :: tail) (SiblingTree.node subid ‹_› child next).keys :=
          .inr (forall_mem_cons.mpr ⟨behind, fun other member => behind.trans (larger other member)⟩)
        rw [findNextNodeFrom_passed true false passed, find?_congr (qualifies_of_passed passed)]

end

def WholeTree (tree : InstTree) : Prop := WellFormedTree [] tree ∧ ∀ key ∈ tree.keys, key = 1

theorem withRoot_wellFormed (tree : InstTree) (whole : WholeTree tree) : WholeTree (withRoot tree) := by
  cases tree with
  | nil => exact ⟨⟨⟨trivial, by simp [keys], trivial⟩, rfl, trivial, trivial⟩, by simp [withRoot, keys]⟩
  | node => exact whole

theorem onRootChildren_wellFormed (change : InstTree → InstTree) (tree : InstTree) (whole : WholeTree tree)
    (kept : ∀ child, WellFormedTree [1] child → WellFormedTree [1] (change child)) :
    WholeTree (onRootChildren change tree) := by
  cases tree with
  | nil => exact whole
  | node key _ child =>
    obtain ⟨wellFormed, rooted⟩ := whole
    obtain rfl : key = 1 := rooted key (by simp [keys])
    obtain ⟨label, below, larger, later⟩ := wellFormedTree_node.mp wellFormed
    exact ⟨wellFormedTree_node.mpr ⟨label, kept child below, larger, later⟩, rooted⟩

section

variable (tree : InstTree)
include tree

theorem addNode_wellFormed (soid : Oid) (offset asn1Syntax : Nat) (access : Access) (tclVarName : Option String)
    (whole : WholeTree tree) : WholeTree (addNode tree soid offset asn1Syntax access tclVarName).1 := by
  have rooted := withRoot_wellFormed tree whole
  unfold addNode
  split
  · exact onRootChildren_wellFormed _ _ rooted fun _ below => addPath_wellFormed offset _ below (by simp)
  · exact rooted

theorem reachable_wellFormed (reachable : ReachableTree tree) : WholeTree tree := by
  induction reachable with
  | empty => exact ⟨wellFormedTree_nil [], by simp [keys]⟩
  | add soid offset asn1Syntax access tclVarName _ ih =>
    exact addNode_wellFormed _ soid offset asn1Syntax access tclVarName ih
  | @bind tree oid event _ _ ih =>
    have bound : ∀ {target : InstTree}, WholeTree target → ∀ path text, WholeTree (modifyNode
        (fun here => { here with bindings := storeBinding event text here.bindings }) path target) := by
      intro target whole path text
      refine ⟨modifyNode_wellFormed _ whole.1 fun _ => rfl, ?_⟩
      rw [modifyNode_keys]
      exact whole.2
    have added := addNode_wellFormed tree oid 0 0 .noAccess none ih
    simp only [tnmSnmpSetNodeBinding]
    cases findNode tree oid with
    | some =>
      simp only
      split
      · exact bound ih _ _
      · exact ih
    | none =>
      simp only
      split
      · exact bound added _ _
      · exact added
  | delete _ _ _ ih =>
    exact ⟨removeNode_wellFormed _ ih.1, fun key member =>
      ih.2 key (removeNode_keys _ _ key member)⟩

theorem mem_instances_label (wellFormed : WellFormedTree [] tree) (entry : Oid × Node)
    (member : entry ∈ instances tree) : entry.2.label = entry.1 := by
  simpa using labelled_paths [] tree wellFormed.labelled entry (mem_of_mem_filter member)

theorem findNextNode_eq (oid : Oid) (wellFormed : WellFormedTree [] tree) :
    findNextNode tree oid = ((instances tree).map (·.2)).find? fun node => oid < node.label := by
  have labelled := labelled_paths [] tree wellFormed.labelled
  rw [findNextNode, findNextNodeFrom_eq oid wellFormed.sorted, instances, find?_map, find?_filter]
  refine congrArg _ (find?_congr fun entry member => ?_)
  simp [qualifies, labelled entry member]

theorem instances_increasing (wellFormed : WellFormedTree [] tree) :
    Increasing Node.label ((instances tree).map (·.2)) := by
  have listed := (paths_increasing tree wellFormed.sorted).filter
    (fun entry => decide (entry.2.asn1Syntax ≠ 0))
  rw [Increasing, pairwise_map]
  apply List.Pairwise.imp_of_mem _ listed
  intro first second firstMember secondMember _
  rwa [mem_instances_label tree wellFormed first firstMember,
    mem_instances_label tree wellFormed second secondMember]

theorem findNextNode_some_iff (oid : Oid) (node : Node) (wellFormed : WellFormedTree [] tree) :
    findNextNode tree oid = some node ↔ (node.label, node) ∈ instances tree ∧ oid < node.label ∧
        ∀ other ∈ instances tree, oid < other.1 → node.label ≤ other.1 := by
  have labelled := mem_instances_label tree wellFormed
  rw [findNextNode_eq tree oid wellFormed, (instances_increasing tree wellFormed).find?_eq_some_iff]
  constructor
  · rintro ⟨member, behind, least⟩
    obtain ⟨entry, entryMember, rfl⟩ := mem_map.mp member
    refine ⟨by rw [labelled entry entryMember]; exact entryMember, by simpa using behind, ?_⟩
    intro other otherMember otherBehind
    rw [← labelled other otherMember] at otherBehind ⊢
    exact least other.2 (mem_map.mpr ⟨other, otherMember, rfl⟩) (by simpa using otherBehind)
  · rintro ⟨member, behind, least⟩
    refine ⟨mem_map.mpr ⟨_, member, rfl⟩, by simpa using behind, ?_⟩
    intro _ otherMember otherBehind
    obtain ⟨entry, entryMember, rfl⟩ := mem_map.mp otherMember
    rw [labelled entry entryMember] at otherBehind ⊢
    exact least entry entryMember (by simpa using otherBehind)

theorem findNextNode_none_iff (oid : Oid) (wellFormed : WellFormedTree [] tree) :
    findNextNode tree oid = none ↔ ∀ other ∈ instances tree, ¬oid < other.1 := by
  have labelled := mem_instances_label tree wellFormed
  rw [findNextNode_eq tree oid wellFormed, find?_eq_none, forall_mem_map]
  refine forall₂_congr fun entry member => ?_
  rw [labelled entry member, decide_eq_true_eq]

/-- GETNEXT answers the least instance behind the one asked for, on any tree the agent can build. -/
theorem findNextNode_least (reachable : ReachableTree tree) : (∀ oid node, findNextNode tree oid = some node ↔
      (node.label, node) ∈ instances tree ∧ tnmOidCompare oid node.label < 0 ∧
        ∀ other ∈ instances tree, tnmOidCompare oid other.1 < 0 → tnmOidCompare node.label other.1 ≤ 0) ∧
    (∀ oid, findNextNode tree oid = none ↔ ∀ other ∈ instances tree, ¬tnmOidCompare oid other.1 < 0) ∧
    (∀ fuel, (instances tree).length ≤ fuel → getNextWalk tree fuel [] = (instances tree).map (·.2)) ∧
    ((instances tree).map (·.2)).Pairwise fun first second => tnmOidCompare first.label second.label < 0 := by
  have wellFormed := (reachable_wellFormed tree reachable).1
  have increasing := instances_increasing tree wellFormed
  have labelled := mem_instances_label tree wellFormed
  simp only [tnmOidCompare_neg_iff, tnmOidCompare_nonpos_iff]
  refine ⟨fun oid node => findNextNode_some_iff tree oid node wellFormed,
    fun oid => findNextNode_none_iff tree oid wellFormed, ?_, increasing⟩
  intro fuel enough
  -- The empty identifier lies before every instance.
  have everything : ((instances tree).map (·.2)).filter (fun node => [] < node.label) =
      (instances tree).map (·.2) := by
    rw [filter_eq_self]
    intro _ member
    obtain ⟨entry, entryMember, rfl⟩ := mem_map.mp member
    rw [labelled entry entryMember]
    have nonempty := paths_ne_nil tree entry (mem_of_mem_filter entryMember)
    obtain ⟨_, _, shape⟩ := exists_cons_of_ne_nil nonempty
    simp [shape]
  rw [getNextWalk, increasing.successorWalk_eq (by simp)
    (fun position => findNextNode_eq tree position wellFormed) fuel [] (by
      rw [everything]; simpa using enough), everything]

end

def sampleTree : InstTree :=
  tnmSnmpSetNodeBinding
    (addNode (addNode .nil [1, 3, 2, 7] 4 4 .readWrite (some "b")).1 [1, 3, 2] 4 2 .readOnly
      (some "a")).1 [1, 3, 9] .get (some "incr reads")

theorem findNextNode_least_sampleTree :
    ReachableTree sampleTree ∧ (getNextWalk sampleTree 2 []).map (·.label) = [[1, 3, 2], [1, 3, 2, 7]] ∧
      (findNextNode sampleTree [1, 3, 2, 7] = none ↔
        ∀ other ∈ instances sampleTree, ¬tnmOidCompare [1, 3, 2, 7] other.1 < 0) := by
  have reachable : ReachableTree sampleTree :=
    .bind _ _ _ (.add _ _ _ _ _ (.add _ _ _ _ _ .empty))
  obtain ⟨_, none, walk, _⟩ := findNextNode_least sampleTree reachable
  refine ⟨reachable, ?_, none _⟩
  decide

end Tnm
