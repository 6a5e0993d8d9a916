import TkinedRemix.Snmp.InstOrder

/-!
Looking up nodes of the instance tree, and what creating and removing a node changes about it.
-/

namespace Tnm

open Lib SiblingTree List Option

variable {subid : Nat} {tree : InstTree} {here : Node}

theorem findSibling_paths {child : InstTree} (found : findSibling subid tree = some (here, child)) :
    ([subid], here) ∈ tree.paths ∧ ∀ entry ∈ child.paths, (subid :: entry.1, entry.2) ∈ tree.paths := by
  induction tree with
  | nil => simp [findSibling] at found
  | node _ _ _ _ _ nextIh =>
    rw [findSibling] at found
    split_ifs at found with same
    · cases found
      subst same
      refine ⟨by simp [paths], fun entry member => ?_⟩
      simp only [paths, cons_append, mem_cons, mem_append, List.mem_map]
      exact .inr (.inl ⟨entry, member, rfl⟩)
    · obtain ⟨top, deeper⟩ := nextIh found
      simp only [paths, cons_append, mem_cons, mem_append]
      exact ⟨.inr (.inr top), fun entry member => .inr (.inr (deeper entry member))⟩

variable {node : Node}

theorem nodeAt_mem_paths {path : Oid} (found : nodeAt path tree = some node) : (path, node) ∈ tree.paths := by
  induction path generalizing tree with
  | nil => simp [nodeAt] at found
  | cons _ rest ih =>
    rw [nodeAt] at found
    split at found
    · cases found
    next here child sibling =>
      obtain ⟨top, deeper⟩ := findSibling_paths sibling
      split_ifs at found with last
      · cases found
        rw [last]
        exact top
      · exact deeper (rest, node) (ih found)

@[simp] theorem nodeAt_nil (path : Oid) : nodeAt path .nil = none := by
  cases path <;> rfl

variable {oid : Oid}

theorem findNode_label (wellFormed : WellFormedTree [] tree) (rooted : ∀ key ∈ tree.keys, key = 1)
    (found : findNode tree oid = some node) : node.label = oid := by
  unfold findNode at found
  split at found
  next key root child next rest =>
    obtain rfl : key = 1 := rooted key (by simp [SiblingTree.keys])
    have member := labelled_paths [1] child wellFormed.labelled.2.1 _ (nodeAt_mem_paths found)
    simpa using member
  · cases found

theorem mem_keys_iff : subid ∈ tree.keys ↔ (findSibling subid tree).isSome := by
  induction tree with
  | nil => simp [SiblingTree.keys, findSibling]
  | node _ _ _ _ _ nextIh =>
    rw [findSibling, SiblingTree.keys, mem_cons, nextIh]
    split_ifs with same
    · simp [same]
    · simp [Ne.symm same]

theorem nodeAt_of_mem_paths {path : Oid} (sorted : tree.Sorted) (member : (path, node) ∈ tree.paths) :
    nodeAt path tree = some node := by
  induction tree generalizing path with
  | nil => simp [paths] at member
  | node key _ child next childIh nextIh =>
    obtain ⟨childSorted, above, nextSorted⟩ := sorted
    simp only [paths, cons_append, mem_cons, mem_append, List.mem_map] at member
    rcases member with equal | ⟨inner, innerMember, equal⟩ | later
    · cases equal
      simp [nodeAt, findSibling]
    · cases equal
      have nonempty := paths_ne_nil child inner innerMember
      simp only [nodeAt, findSibling, if_neg nonempty]
      exact childIh childSorted innerMember
    · obtain ⟨head, tail, shape, known⟩ := paths_head_mem next _ later
      obtain rfl : path = head :: tail := shape
      have found := nextIh nextSorted later
      have differs : key ≠ head := (above head known).ne
      simpa only [nodeAt, findSibling, if_neg differs] using found

theorem findSibling_updateSibling (key subid : Nat) (change : Node → InstTree → Node × InstTree) (tree : InstTree) :
    findSibling key (updateSibling subid change tree) =
      if key = subid then (findSibling subid tree).map fun found => change found.1 found.2
      else findSibling key tree := by
  induction tree with
  | nil => simp [updateSibling, findSibling]
  | node first _ _ _ _ nextIh =>
    rw [updateSibling]
    by_cases same : first = subid
    · subst same
      by_cases equal : key = first
      · simp [findSibling, equal]
      · simp [findSibling, equal, Ne.symm equal]
    · rw [if_neg same, findSibling, nextIh]
      by_cases equal : first = key
      · subst equal
        simp [findSibling, same]
      · simp [findSibling, equal, same]

theorem findSibling_insertSibling (key subid : Nat) (value : Node) (tree : InstTree) (fresh : subid ∉ tree.keys) :
    findSibling key (insertSibling subid value tree) =
      if key = subid then some (value, .nil) else findSibling key tree := by
  induction tree with
  | nil => grind [insertSibling, findSibling]
  | node _ _ _ _ _ nextIh =>
    simp only [SiblingTree.keys, mem_cons, not_or] at fresh
    rw [insertSibling_node fresh.2]
    grind [findSibling]

theorem findSibling_present (key subid offset : Nat) (label : Oid) (tree : InstTree) :
    findSibling key (if subid ∈ tree.keys then tree else insertSibling subid (blankNode label offset) tree) =
      if key = subid then some ((findSibling subid tree).getD (blankNode label offset, .nil))
      else findSibling key tree := by
  by_cases known : subid ∈ tree.keys
  · split_ifs with same
    · subst same
      obtain ⟨_, sibling⟩ := isSome_iff_exists.mp (mem_keys_iff.mp known)
      rw [sibling, getD_some]
    · rfl
  · have missing : findSibling subid tree = none := by simpa [mem_keys_iff] using known
    rw [if_neg known, findSibling_insertSibling key subid _ tree known, missing, getD_none]

section

variable (offset : Nat) (assign : Node → Node) (done rest : Oid)
include offset assign done rest

theorem findSibling_addPath (key subid : Nat) (tree : InstTree) :
    findSibling key (addPath offset assign done (subid :: rest) tree) = if key = subid then
        let found := (findSibling subid tree).getD (blankNode (done ++ [subid]) offset, .nil)
        some (if rest = [] then (assign found.1, found.2)
          else (found.1, addPath offset assign (done ++ [subid]) rest found.2))
      else findSibling key tree := by
  rw [addPath, findSibling_updateSibling, findSibling_present, findSibling_present, if_pos rfl]
  split_ifs with same last
  · subst last
    rfl
  · cases rest with
    | nil => exact absurd rfl last
    | cons => rfl
  · rfl

theorem nodeAt_addPath_self (tree : InstTree) (nonempty : rest ≠ []) :
    nodeAt rest (addPath offset assign done rest tree) =
      some (assign ((nodeAt rest tree).getD (blankNode (done ++ rest) offset))) := by
  induction rest generalizing done tree with
  | nil => exact absurd rfl nonempty
  | cons subid more ih =>
    simp only [nodeAt, findSibling_addPath, if_true]
    by_cases last : more = []
    · subst last
      cases sibling : findSibling subid tree <;> simp
    · simp only [if_neg last, ih _ _ last]
      cases sibling : findSibling subid tree <;> simp

theorem nodeAt_addPath_other (path : Oid) (tree : InstTree) (differs : path ≠ rest) :
    nodeAt path (addPath offset assign done rest tree) = nodeAt path tree ∨
      (nodeAt path tree = none ∧
        ∃ label, nodeAt path (addPath offset assign done rest tree) = some (blankNode label offset)) := by
  induction rest generalizing done tree path with
  | nil => exact .inl rfl
  | cons subid more ih =>
    cases path with
    | nil => exact .inl rfl
    | cons key tail =>
      simp only [nodeAt, findSibling_addPath]
      by_cases same : key = subid
      · subst same
        have tailDiffers : tail ≠ more := by simpa using differs
        by_cases last : more = []
        · subst last
          simp only [if_neg tailDiffers]
          cases sibling : findSibling key tree with
          | none => exact .inl (nodeAt_nil tail)
          | some => exact .inl rfl
        · simp only [if_neg last]
          cases sibling : findSibling key tree with
          | none =>
            by_cases top : tail = []
            · exact .inr ⟨rfl, done ++ [key], by simp [top]⟩
            · simpa [top] using ih (done ++ [key]) tail .nil tailDiffers
          | some found =>
            by_cases top : tail = []
            · simp [top]
            · simpa [top] using ih (done ++ [key]) tail found.2 tailDiffers
      · rw [if_neg same]
        exact .inl rfl

end

theorem reachable_root (reachable : ReachableTree tree) :
    tree = .nil ∨ ∃ root child, tree = .node 1 root child .nil := by
  obtain ⟨wellFormed, rooted⟩ := reachable_wellFormed tree reachable
  cases tree with
  | nil => exact .inl rfl
  | node key root child next =>
    obtain rfl : key = 1 := rooted key (by simp [SiblingTree.keys])
    cases next with
    | nil => exact .inr ⟨root, child, rfl⟩
    | node second =>
      have larger := wellFormed.sorted.2.1 second (by simp [SiblingTree.keys])
      have same := rooted second (by simp [SiblingTree.keys])
      omega

theorem findNode_addNode_self (tree : InstTree) (reachable : ReachableTree tree) (rest : Oid) (offset asn1Syntax : Nat)
    (access : Access) (tclVarName : Option String) (nonempty : rest ≠ []) :
    ∃ bindings, findNode (addNode tree (1 :: rest) offset asn1Syntax access tclVarName).1 (1 :: rest) =
      some ⟨1 :: rest, offset, asn1Syntax, access, tclVarName, bindings⟩ := by
  rcases reachable_root reachable with rfl | ⟨_, child, rfl⟩
  · exact ⟨_, nodeAt_addPath_self offset _ [1] rest .nil nonempty⟩
  · exact ⟨_, nodeAt_addPath_self offset _ [1] rest child nonempty⟩

theorem own_or_foreign (oid : Oid) : (∃ path, oid = 1 :: path) ∨ ∀ tree, findNode tree oid = none := by
  refine or_iff_not_imp_left.mpr fun foreign tree => ?_
  unfold findNode
  split
  next rest => exact absurd ⟨rest, rfl⟩ foreign
  · rfl

theorem findNode_own (found : findNode tree oid = some node) : ∃ path, oid = 1 :: path := by
  refine (own_or_foreign oid).resolve_right fun foreign => ?_
  rw [foreign] at found
  cases found

theorem findNode_addNode_other (tree : InstTree) (reachable : ReachableTree tree) (soid oid : Oid)
    (offset asn1Syntax : Nat) (access : Access) (tclVarName : Option String) (differs : oid ≠ soid) :
    findNode (addNode tree soid offset asn1Syntax access tclVarName).1 oid = findNode tree oid ∨
      (findNode tree oid = none ∧ ∃ label,
        findNode (addNode tree soid offset asn1Syntax access tclVarName).1 oid = some (blankNode label offset)) := by
  rcases own_or_foreign oid with ⟨path, rfl⟩ | foreign
  · unfold addNode
    split
    next rest =>
      have apart : path ≠ rest := fun same => differs (by rw [same])
      rcases reachable_root reachable with rfl | ⟨_, child, rfl⟩
      · have added := fun assign => nodeAt_addPath_other offset assign [1] rest path .nil apart
        simpa [findNode, withRoot, onRootChildren] using added _
      · exact nodeAt_addPath_other offset _ [1] rest path child apart
    · rcases reachable_root reachable with rfl | ⟨_, _, rfl⟩
      · exact .inl (nodeAt_nil path)
      · exact .inl rfl
  · rw [foreign, foreign]
    exact .inl rfl

def eraseBound (varName : String) : InstTree → InstTree
  | .nil => .nil
  | .node key here child next =>
    if carries varName here then eraseBound varName next
    else .node key here (eraseBound varName child) (eraseBound varName next)

def Uncarried (varName : String) (tree : InstTree) : Prop := ∀ entry ∈ tree.paths, carries varName entry.2 = false

def CarriedOnly (varName : String) (place : Oid) (tree : InstTree) : Prop :=
  ∀ entry ∈ tree.paths, carries varName entry.2 = true → entry.1 = place

def headCarries (varName : String) : InstTree → Bool
  | .nil => false
  | .node _ here _ _ => carries varName here

/-- Outside of bound nodes no bound sibling but the first one is followed by another bound one. -/
def Parted (varName : String) : Bool → InstTree → Prop
  | _, .nil => True
  | first, .node _ here child next =>
    (carries varName here = false → Parted varName true child) ∧
      (first = false → carries varName here = true → headCarries varName next = false) ∧ Parted varName false next

def removeBehind (varName : String) : InstTree → InstTree
  | .nil => .nil
  | .node key here child next =>
    if carries varName here then removeNode varName next else removeNode varName (.node key here child next)

variable {varName : String} {key : Nat}

theorem removeNode_node {child next : InstTree} : removeNode varName (.node key here child next) =
    .node key here (dropBoundHead varName (removeNode varName child)) (removeBehind varName next) := by
  cases next <;> rfl

theorem Uncarried.split {child next : InstTree} (uncarried : Uncarried varName (.node key here child next)) :
    carries varName here = false ∧ Uncarried varName child ∧ Uncarried varName next := by
  refine ⟨uncarried ([key], here) (by simp [paths]), fun entry member => ?_, fun entry member => ?_⟩
  · exact uncarried (key :: entry.1, entry.2) (by simp [paths, member])
  · exact uncarried entry (by simp [paths, member])

theorem removeNode_uncarried (uncarried : Uncarried varName tree) :
    removeNode varName tree = tree ∧ dropBoundHead varName tree = tree ∧ eraseBound varName tree = tree := by
  induction tree with
  | nil => exact ⟨rfl, rfl, rfl⟩
  | node _ _ _ next childIh nextIh =>
    obtain ⟨free, childFree, nextFree⟩ := uncarried.split
    obtain ⟨childRemoved, childHead, childErased⟩ := childIh childFree
    obtain ⟨nextRemoved, _, nextErased⟩ := nextIh nextFree
    refine ⟨?_, by simp [dropBoundHead, free], by simp [eraseBound, free, childErased, nextErased]⟩
    rw [removeNode_node, childRemoved, childHead]
    cases next with
    | nil => rfl
    | node => rw [removeBehind, nextFree.split.1, if_neg (by simp), nextRemoved]

variable {place : Oid}

section

variable {below later : InstTree} (only : CarriedOnly varName place (.node key here below later))

include only

theorem CarriedOnly.child : CarriedOnly varName place.tail below := by
  intro entry member carried
  have shape := only (key :: entry.1, entry.2) (by simp [paths, member]) carried
  rw [← shape, tail_cons]

theorem CarriedOnly.next : CarriedOnly varName place later :=
  fun entry member => only entry (by simp [paths, member])

theorem CarriedOnly.head_last (above : ∀ other ∈ later.keys, key < other) (carried : carries varName here = true) :
    Uncarried varName later := by
  intro entry member
  by_contra other
  have first : [key] = place := only ([key], here) (by simp [paths]) carried
  have second : entry.1 = place := only.next entry member (by simpa using other)
  obtain ⟨_, _, shape, known⟩ := paths_head_mem later entry member
  rw [shape, ← first] at second
  cases second
  exact absurd (above key known) (Nat.lt_irrefl key)

end

theorem CarriedOnly.parted (sorted : tree.Sorted) (only : CarriedOnly varName place tree) (first : Bool) :
    Parted varName first tree := by
  induction tree generalizing place first with
  | nil => trivial
  | node _ _ _ next childIh nextIh =>
    refine ⟨fun _ => childIh sorted.1 only.child true, fun _ carried => ?_, nextIh sorted.2.2 only.next false⟩
    have free := only.head_last sorted.2.1 carried
    cases next with
    | nil => rfl
    | node => exact free.split.1

theorem removeNode_parted (tree : InstTree) :
    (Parted varName true tree → dropBoundHead varName (removeNode varName tree) = eraseBound varName tree) ∧
      (Parted varName false tree → removeBehind varName tree = eraseBound varName tree ∧
        (headCarries varName tree = false → removeNode varName tree = eraseBound varName tree)) := by
  induction tree with
  | nil => exact ⟨fun _ => rfl, fun _ => ⟨rfl, fun _ => rfl⟩⟩
  | node key here child next childIh nextIh =>
    rw [removeNode_node, removeBehind, dropBoundHead, headCarries, eraseBound, removeNode_node]
    by_cases carried : carries varName here = true
    · simp only [carried]
      exact ⟨fun parted => (nextIh.2 parted.2.2).1,
        fun parted => ⟨(nextIh.2 parted.2.2).2 (parted.2.1 rfl carried), by simp⟩⟩
    · rw [Bool.not_eq_true] at carried
      have stripped : ∀ first, Parted varName first (.node key here child next) →
          (.node key here (dropBoundHead varName (removeNode varName child)) (removeBehind varName next) : InstTree) =
            .node key here (eraseBound varName child) (eraseBound varName next) := by
        intro _ parted
        rw [childIh.1 (parted.1 carried), (nextIh.2 parted.2.2).1]
      simp only [carried]
      exact ⟨stripped true, fun parted => ⟨stripped false parted, fun _ => stripped false parted⟩⟩

theorem parted_of_uncarried (tree : InstTree) :
    (Uncarried varName (dropBoundHead varName (removeNode varName tree)) → Parted varName true tree) ∧
      (Uncarried varName (removeBehind varName tree) → Parted varName false tree) ∧
      (Uncarried varName (removeNode varName tree) → headCarries varName tree = false ∧ Parted varName false tree) := by
  induction tree with
  | nil => exact ⟨fun _ => trivial, fun _ => trivial, fun _ => ⟨rfl, trivial⟩⟩
  | node key here child next childIh nextIh =>
    rw [removeNode_node, removeBehind, dropBoundHead, removeNode_node]
    have whole : ∀ first, Uncarried varName
        (.node key here (dropBoundHead varName (removeNode varName child)) (removeBehind varName next)) →
          carries varName here = false ∧ Parted varName first (.node key here child next) := by
      intro _ uncarried
      obtain ⟨free, below, behind⟩ := uncarried.split
      refine ⟨free, fun _ => childIh.1 below, fun _ carried => ?_, nextIh.2.1 behind⟩
      cases free.symm.trans carried
    split_ifs with carried
    · have vacuous : carries varName here = false → Parted varName true child := fun free => by
        cases carried.symm.trans free
      refine ⟨fun behind => ⟨vacuous, by simp, nextIh.2.1 behind⟩, fun behind => ?_, whole false⟩
      obtain ⟨free, parted⟩ := nextIh.2.2 behind
      exact ⟨vacuous, fun _ _ => free, parted⟩
    · exact ⟨fun uncarried => (whole true uncarried).2, fun uncarried => (whole false uncarried).2, whole false⟩

theorem eraseBound_uncarried (varName : String) (tree : InstTree) : Uncarried varName (eraseBound varName tree) := by
  induction tree with
  | nil => simp [Uncarried, eraseBound, paths]
  | node _ _ _ _ childIh nextIh =>
    rw [eraseBound]
    split_ifs with carried
    · exact nextIh
    · intro entry member
      simp only [paths, cons_append, mem_cons, mem_append, List.mem_map] at member
      rcases member with rfl | ⟨inner, innerMember, rfl⟩ | later
      · simpa using carried
      · exact childIh inner innerMember
      · exact nextIh entry later

theorem eraseBound_keys (varName : String) (tree : InstTree) :
    ∀ key ∈ (eraseBound varName tree).keys, key ∈ tree.keys := by
  induction tree with
  | nil => simp [eraseBound]
  | node key _ _ _ _ nextIh =>
    intro other member
    rw [eraseBound] at member
    split_ifs at member
    · exact mem_cons_of_mem key (nextIh other member)
    · rcases mem_cons.mp member with rfl | member
      · exact mem_cons_self
      · exact mem_cons_of_mem key (nextIh other member)

theorem findSibling_eraseBound (varName : String) (key : Nat) (tree : InstTree) (sorted : tree.Sorted) :
    findSibling key (eraseBound varName tree) =
      ((findSibling key tree).filter fun found => !carries varName found.1).map
      fun found => (found.1, eraseBound varName found.2) := by
  induction tree with
  | nil => rfl
  | node first _ _ next _ nextIh =>
    obtain ⟨_, above, nextSorted⟩ := sorted
    rw [eraseBound, findSibling]
    by_cases same : first = key
    · subst same
      have absent : findSibling first (eraseBound varName next) = none := by
        rw [← not_isSome_iff_eq_none, ← mem_keys_iff]
        intro member
        exact absurd (above first (eraseBound_keys varName next first member)) (Nat.lt_irrefl first)
      rw [if_pos rfl]
      split_ifs with carried
      · simp [filter_some, absent, carried]
      · simp [filter_some, findSibling, carried]
    · split_ifs with carried
      · exact nextIh nextSorted
      · rw [findSibling, if_neg same]
        exact nextIh nextSorted

theorem findSibling_sorted {child : InstTree} (sorted : tree.Sorted)
    (found : findSibling key tree = some (here, child)) : child.Sorted := by
  induction tree with
  | nil => cases found
  | node _ _ _ _ _ nextIh =>
    rw [findSibling] at found
    split_ifs at found
    · cases found
      exact sorted.1
    · exact nextIh sorted.2.2 found

theorem nodeAt_eraseBound_kept (varName : String) (path : Oid) (tree : InstTree) (sorted : tree.Sorted)
    (free : ∀ above node, above <+: path → nodeAt above tree = some node → carries varName node = false) :
    nodeAt path (eraseBound varName tree) = nodeAt path tree := by
  induction path generalizing tree with
  | nil => rfl
  | cons key _ ih =>
    rw [nodeAt, nodeAt, findSibling_eraseBound varName key tree sorted]
    cases sibling : findSibling key tree with
    | none => rfl
    | some found =>
      have hereFree : carries varName found.1 = false :=
        free [key] found.1 (by simp) (by simp [nodeAt, sibling])
      simp only [filter_some, hereFree, Bool.not_false, if_true]
      split_ifs with last
      · rfl
      · refine ih found.2 (findSibling_sorted sorted sibling) fun above node shorter reached => ?_
        refine free (key :: above) node (cons_prefix_cons.mpr ⟨rfl, shorter⟩) ?_
        have nonempty : above ≠ [] := by
          rintro rfl
          cases reached
        rw [nodeAt, sibling]
        simp [nonempty, reached]

theorem nodeAt_eraseBound_gone (varName : String) (path above : Oid) (tree : InstTree) (node : Node)
    (sorted : tree.Sorted) (shorter : above <+: path) (reached : nodeAt above tree = some node)
    (carried : carries varName node = true) : nodeAt path (eraseBound varName tree) = none := by
  induction path generalizing tree above with
  | nil => rfl
  | cons _ rest ih =>
    cases above with
    | nil => cases reached
    | cons head inner =>
      obtain ⟨rfl, innerShorter⟩ := cons_prefix_cons.mp shorter
      rw [nodeAt] at reached
      rw [nodeAt, findSibling_eraseBound varName head tree sorted]
      cases sibling : findSibling head tree with
      | none => rfl
      | some found =>
        rw [sibling] at reached
        by_cases hereCarried : carries varName found.1 = true
        · simp [filter_some, hereCarried]
        · simp only [filter_some, hereCarried, Bool.not_false, if_true, map_some]
          split_ifs at reached with last
          · cases reached
            simp [hereCarried] at carried
          · have nonempty : rest ≠ [] := by
              rintro rfl
              exact last (prefix_nil.mp innerShorter)
            rw [if_neg nonempty]
            exact ih inner found.2 (findSibling_sorted sorted sibling) innerShorter reached

def BoundOnly (varName : String) (place : Oid) (tree : InstTree) : Prop :=
  ∀ oid node, findNode tree oid = some node → carries varName node = true → oid = place

variable {root : Node}

theorem BoundOnly.carriedOnly {child : InstTree} (sorted : child.Sorted)
    (only : BoundOnly varName place (.node 1 root child .nil)) : CarriedOnly varName place.tail child := by
  intro entry member carried
  have found : findNode (.node 1 root child .nil) (1 :: entry.1) = some entry.2 := nodeAt_of_mem_paths sorted member
  rw [← only _ _ found carried, tail_cons]

theorem removeNode_root {child : InstTree} (sorted : child.Sorted)
    (only : BoundOnly varName place (.node 1 root child .nil)) :
    removeNode varName (.node 1 root child .nil) = .node 1 root (eraseBound varName child) .nil := by
  rw [removeNode, (removeNode_parted child).1 ((only.carriedOnly sorted).parted sorted true)]

theorem reachable_child_sorted {child : InstTree} (reachable : ReachableTree (.node 1 root child .nil)) :
    child.Sorted :=
  (reachable_wellFormed _ reachable).1.sorted.1

section

variable (reachable : ReachableTree tree) (only : BoundOnly varName place tree)
include reachable only

theorem findNode_removeNode_kept (elsewhere : ¬ place <+: oid) :
    findNode (removeNode varName tree) oid = findNode tree oid := by
  rcases reachable_root reachable with rfl | ⟨root, child, rfl⟩
  · rfl
  · have sorted := reachable_child_sorted reachable
    rw [removeNode_root sorted only]
    rcases own_or_foreign oid with ⟨path, rfl⟩ | foreign
    · refine nodeAt_eraseBound_kept varName path child sorted fun above node shorter reached => ?_
      by_contra carried
      have found : findNode (.node 1 root child .nil) (1 :: above) = some node := reached
      refine elsewhere ?_
      rw [← only _ _ found (by simpa using carried)]
      exact cons_prefix_cons.mpr ⟨rfl, shorter⟩
    · rw [foreign, foreign]

theorem findNode_removeNode_gone (found : findNode tree place = some node) (carried : carries varName node = true)
    (below : place <+: oid) : findNode (removeNode varName tree) oid = none := by
  rcases reachable_root reachable with rfl | ⟨_, child, rfl⟩
  · cases found
  · have sorted := reachable_child_sorted reachable
    rw [removeNode_root sorted only]
    rcases own_or_foreign oid with ⟨path, rfl⟩ | foreign
    · cases place with
      | nil => cases found
      | cons _ above =>
        obtain ⟨rfl, shorter⟩ := cons_prefix_cons.mp below
        exact nodeAt_eraseBound_gone varName path above child node sorted shorter found carried
    · exact foreign _

theorem removeNode_again : removeNode varName (removeNode varName tree) = removeNode varName tree := by
  rcases reachable_root reachable with rfl | ⟨_, child, rfl⟩
  · rfl
  · rw [removeNode_root (reachable_child_sorted reachable) only, removeNode]
    obtain ⟨removed, head, _⟩ := removeNode_uncarried (eraseBound_uncarried varName child)
    rw [removed, head]

end

def childrenOf : InstTree → InstTree
  | .nil => .nil
  | .node _ _ child _ => child

/-- A variable that is unset takes exactly its instances with it. -/
theorem deleteNodeProc_exact_iff {tree : InstTree} (reachable : ReachableTree tree) (name1 : String)
    (name2 : Option String) :
    ((∀ oid node, findNode (deleteNodeProc tree name1 name2) oid = some node →
        carries (traceVarName name1 name2) node = false) ∧
      ∀ oid node, findNode tree oid = some node → node.asn1Syntax ≠ 0 →
        carries (traceVarName name1 name2) node = false → findNode (deleteNodeProc tree name1 name2) oid = some node) ↔
    Parted (traceVarName name1 name2) true (childrenOf tree) ∧
      ∀ place oid bound node, findNode tree place = some bound → carries (traceVarName name1 name2) bound = true →
        place <+: oid → findNode tree oid = some node → node.asn1Syntax ≠ 0 →
          carries (traceVarName name1 name2) node = true := by
  have after := reachable.delete name1 name2
  unfold deleteNodeProc at after ⊢
  generalize traceVarName name1 name2 = varName at after
  rcases reachable_root reachable with rfl | ⟨_, child, rfl⟩
  · exact ⟨fun _ => ⟨trivial, nofun⟩, fun _ => ⟨nofun, nofun⟩⟩
  · have sorted := reachable_child_sorted reachable
    rw [removeNode_node] at after ⊢
    have afterSorted := reachable_child_sorted after
    constructor
    · rintro ⟨complete, frame⟩
      have parted : Parted varName true child := by
        refine (parted_of_uncarried child).1 fun entry member => ?_
        exact complete (1 :: entry.1) entry.2 (nodeAt_of_mem_paths afterSorted member)
      refine ⟨parted, fun place oid bound node isBound carried below found isInstance => ?_⟩
      by_contra other
      have kept := frame oid node found isInstance (by simpa using other)
      rw [(removeNode_parted child).1 parted] at kept
      obtain ⟨above, rfl⟩ := findNode_own isBound
      obtain ⟨path, rfl⟩ := findNode_own found
      have gone :=
        nodeAt_eraseBound_gone varName path above child bound sorted (cons_prefix_cons.mp below).2 isBound carried
      exact some_ne_none _ (kept.symm.trans gone)
    · rintro ⟨parted, alone⟩
      rw [(removeNode_parted child).1 parted]
      constructor
      · intro oid node found
        obtain ⟨path, rfl⟩ := findNode_own found
        exact eraseBound_uncarried varName child _ (nodeAt_mem_paths found)
      · intro oid node found isInstance free
        obtain ⟨path, rfl⟩ := findNode_own found
        refine (nodeAt_eraseBound_kept varName path child sorted fun above bound shorter reached => ?_).trans found
        by_contra carried
        have same := alone (1 :: above) (1 :: path) bound node reached (by simpa using carried)
          (cons_prefix_cons.mpr ⟨rfl, shorter⟩) found isInstance
        cases free.symm.trans same

def bound (soid : Oid) (varName : String) (tree : InstTree) : InstTree :=
  (addNode tree soid 2 4 .readWrite (some varName)).1

def twins : InstTree := bound [1, 3, 3] "b" (bound [1, 3, 2] "a" (bound [1, 3, 1] "a" .nil))

theorem deleteNodeProc_twins : ReachableTree twins ∧
    (∀ oid node, findNode (deleteNodeProc twins "a" none) oid = some node → carries "a" node = false) ∧
      (findNode (deleteNodeProc twins "a" none) [1, 3, 3]).isSome = true := by
  have reachable : ReachableTree twins := .add _ _ _ _ _ (.add _ _ _ _ _ (.add _ _ _ _ _ .empty))
  have alone : ∀ first ∈ (childrenOf twins).paths, ∀ second ∈ (childrenOf twins).paths,
      carries "a" first.2 = true → first.1 <+: second.1 → carries "a" second.2 = true := by decide
  have exact := (deleteNodeProc_exact_iff reachable "a" none).mpr ⟨by simp [twins, bound, addNode, withRoot,
    onRootChildren, addPath, insertSibling, insertBehind, updateSibling, SiblingTree.keys, childrenOf, Parted,
    headCarries, carries, traceVarName], ?_⟩
  · exact ⟨reachable, exact.1, by decide⟩
  · intro place oid node other isBound carried below found _
    obtain ⟨above, rfl⟩ := findNode_own isBound
    obtain ⟨path, rfl⟩ := findNode_own found
    exact alone (above, node) (nodeAt_mem_paths isBound) (path, other) (nodeAt_mem_paths found) carried
      (cons_prefix_cons.mp below).2

/-- The third of three neighbours keeps its variable, and an instance below a removed one is gone. -/
theorem deleteNodeProc_inexact : (ReachableTree (bound [1, 3, 3] "a" (bound [1, 3, 2] "a" (bound [1, 3, 1] "a" .nil))) ∧
      (findNode (deleteNodeProc (bound [1, 3, 3] "a" (bound [1, 3, 2] "a" (bound [1, 3, 1] "a" .nil))) "a" none)
        [1, 3, 3]).map (carries "a") = some true) ∧ ReachableTree (bound [1, 3, 1, 1] "b" (bound [1, 3, 1] "a" .nil)) ∧
      (findNode (bound [1, 3, 1, 1] "b" (bound [1, 3, 1] "a" .nil)) [1, 3, 1, 1]).map (carries "a") = some false ∧
      findNode (deleteNodeProc (bound [1, 3, 1, 1] "b" (bound [1, 3, 1] "a" .nil)) "a" none) [1, 3, 1, 1] = none := by
  exact ⟨⟨.add _ _ _ _ _ (.add _ _ _ _ _ (.add _ _ _ _ _ .empty)), by decide⟩,
    .add _ _ _ _ _ (.add _ _ _ _ _ .empty), by decide, by decide⟩

end Tnm
