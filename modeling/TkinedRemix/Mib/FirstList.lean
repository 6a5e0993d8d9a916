import TkinedRemix.Mib.AddNode

/-!
The first list of nodes is added twice, by `BuildTree` and by `TnmMibAddNode`. The node it starts with is in the
tree by then, and what it points to is taken for the rest of the list.
-/

namespace Tnm.Mib

open Lib SiblingTree Relation List Option Function

def rootTree (first : Nat) : AddressTree :=
  .node 0 first .nil (.node 1 (first + 1) .nil (.node 2 (first + 2) .nil .nil))

section

variable {memory : Memory} {waiting : Finset Nat}

theorem roots_represents (represents : Represents memory none ⟨.nil, waiting, ∅⟩) :
    Represents (memory.allocate rootNodes) (some memory.size) ⟨rootTree memory.size, waiting, ∅⟩ := by
  obtain ⟨grown, bins, _, inside, _⟩ := represents
  have values : (rootTree memory.size).values = [memory.size, memory.size + 1, memory.size + 2] := rfl
  refine ⟨⟨?_, ?_, ?_, ?_, ?_, ?_⟩, ?_, ?_, ?_, ?_⟩
  · simp [rootTree, Stored, Memory.allocate, rootNodes, Memory.subid]
  · simp [values]
  · simp [rootTree, Sorted, SiblingTree.keys]
  · simp [rootTree, Named, Memory.allocate, rootNodes]
  · intro address member
    simp only [values, mem_cons, not_mem_nil, or_false] at member
    simp only [Memory.allocate, rootNodes, length_cons]
    omega
  · intro label address entry
    have none := (grown.registered label address entry).1
    cases none
  · intro hash
    obtain ⟨bin, chain, members⟩ := bins hash
    have old : ∀ address ∈ bin, address < memory.size := fun address member =>
      inside address ((members address).mp member).1
    refine ⟨bin, chain_frame chain fun address member => allocate_links_of_lt memory rootNodes (old address member), ?_⟩
    intro address
    rw [members address]
    refine and_congr_right fun waits => ?_
    rw [Memory.hashOf, Memory.hashOf, allocate_node_of_lt memory rootNodes (inside address waits)]
  · intro address waits member
    have small := inside address waits
    simp only [values, mem_cons, not_mem_nil, or_false] at member
    omega
  · intro address waits
    exact Nat.lt_of_lt_of_le (inside address waits) (Nat.le_add_right _ _)
  · intro address member
    cases Finset.notMem_empty address member

def Closed (memory : Memory) (stage : Stage) (left : List Nat) : Prop :=
  ∀ parent ∈ stage.tree.values, parent ∉ left → ∀ address ∈ stage.waiting,
    (memory.node address).parentName ≠ some (memory.node parent).label

theorem buildSubTree_closes {top : Option Nat} {stage : Stage} {root : Nat} {left : List Nat}
    (represents : Represents memory top stage) (isRoot : root ∈ stage.tree.values)
    (distinct : Distinct memory stage.waiting) (closed : Closed memory stage (root :: left)) :
    ∃ after final, Built top memory stage (fun fuel => buildSubTree fuel root memory) after final ∧
      Distinct after final.waiting ∧ Closed after final left := by
  obtain ⟨after, final, built, _, complete⟩ := buildSubTree_spec represents isRoot
  have fewer := steps_waiting built.steps
  refine ⟨after, final, built, distinct.subset built.kept.node fewer, ?_⟩
  intro parent member notLeft address waits
  rw [built.kept.node]
  by_cases fresh : parent = root ∨ parent ∉ stage.tree.values
  · exact complete distinct parent member fresh address waits
  · rw [not_or, not_not] at fresh
    refine closed parent fresh.2 ?_ address (fewer waits)
    rw [mem_cons, not_or]
    exact ⟨fresh.1, notLeft⟩

theorem Represents.setTop {top : Option Nat} {stage : Stage} (represents : Represents memory top stage)
    (root : Option Nat) :
    Represents { memory with tnmMibTree := root } top stage := by
  obtain ⟨grown, bins, apart, inside, alone⟩ := represents
  exact ⟨grown.frame rfl rfl rfl fun _ _ => rfl, bins, apart, inside, alone⟩

theorem buildTree_spec {nodes : List Nat} {nodeList : Option Nat} (grown : Grown memory none .nil)
    (chain : memory.Chain nodeList nodes) (inside : ∀ address ∈ nodes, address < memory.size)
    (named : ∀ address ∈ nodes, ∃ name, (memory.node address).parentName = some name)
    (distinct : Distinct memory nodes.toFinset) :
    ∃ after final, (∃ bound, ∀ fuel ≥ bound, buildTree fuel nodeList memory = some after) ∧
      after.node = (memory.allocate rootNodes).node ∧ after.size = (memory.allocate rootNodes).size ∧
      after.tnmMibTree = some memory.size ∧ Represents after (some memory.size) final ∧
      ReflTransGen (Step after.node) ⟨rootTree memory.size, nodes.toFinset, ∅⟩ final ∧ Closed after final [] := by
  obtain ⟨hashed, hashes, kept, representsHashed⟩ := hashNodeList_spec grown chain
    (fun address member => ⟨nofun, inside address member⟩) named
  have start := roots_represents representsHashed
  have texts : (hashed.allocate rootNodes).node = (memory.allocate rootNodes).node := by
    simp only [Memory.allocate, kept.node, kept.size]
  have sizes : (hashed.allocate rootNodes).size = (memory.allocate rootNodes).size := by
    simp only [Memory.allocate, kept.size]
  rw [kept.size] at start
  have apart : Distinct (hashed.allocate rootNodes) nodes.toFinset := by
    intro first firstMember second secondMember
    have old : ∀ address ∈ nodes.toFinset, (hashed.allocate rootNodes).node address = memory.node address := by
      intro address member
      rw [texts, allocate_node_of_lt memory rootNodes (inside address (List.mem_toFinset.mp member))]
    simp only [Memory.hashOf, old first firstMember, old second secondMember]
    exact distinct first firstMember second secondMember
  have roots : (rootTree memory.size).values = [memory.size, memory.size + 1, memory.size + 2] := rfl
  have unclosed : Closed (hashed.allocate rootNodes) ⟨rootTree memory.size, nodes.toFinset, ∅⟩
      [memory.size, memory.size + 1, memory.size + 2] := fun parent member notLeft => absurd member notLeft
  obtain ⟨_, _, ⟨⟨firstBound, firstReturns⟩, keptFirst, representsFirst, firstSteps⟩, apartFirst, closedFirst⟩ :=
    buildSubTree_closes start (by simp [roots]) apart unclosed
  obtain ⟨_, _, ⟨⟨secondBound, secondReturns⟩, keptSecond, representsSecond, secondSteps⟩, apartSecond, closedSecond⟩ :=
    buildSubTree_closes representsFirst (steps_values firstSteps (by simp [roots])) apartFirst closedFirst
  rw [keptFirst.node] at secondSteps
  obtain ⟨third, three, ⟨⟨thirdBound, thirdReturns⟩, keptThird, representsThird, thirdSteps⟩, _, closedThird⟩ :=
    buildSubTree_closes representsSecond (steps_values (firstSteps.trans secondSteps) (by simp [roots])) apartSecond
      closedSecond
  rw [keptSecond.node, keptFirst.node] at thirdSteps
  have keptAll := (keptFirst.trans keptSecond).trans keptThird
  refine ⟨{ third with tnmMibTree := some memory.size }, three,
    ⟨max (max firstBound secondBound) (max thirdBound nodes.length), ?_⟩,
    keptAll.node.trans texts, keptAll.size.trans sizes, rfl, representsThird.setTop _, ?_, closedThird⟩
  · intro fuel _
    have call := firstReturns fuel (by omega)
    rw [← kept.size] at call
    simp only [buildTree, hashes fuel (by omega), bind_eq_bind, bind_some, call]
    rw [kept.size, secondReturns fuel (by omega), bind_some, thirdReturns fuel (by omega)]
    rfl
  · have steps := (firstSteps.trans secondSteps).trans thirdSteps
    rw [← keptAll.node] at steps
    exact steps

end

section

variable {memory : Memory} {tree : AddressTree} {head : Nat}

theorem skipSmaller_found {siblings : AddressTree} {ptr : Place} (held : memory.Holds siblings (memory.load ptr))
    (sorted : siblings.Sorted) (member : ([memory.subid head], head) ∈ siblings.paths) :
    ∃ final, (∀ fuel > siblings.values.length, skipSmaller memory (memory.subid head) fuel ptr = some final) ∧
      memory.load final = some head := by
  induction siblings generalizing ptr with
  | nil => cases member
  | node _ address child next _ nextIh =>
    obtain ⟨points, rfl, _, nextHeld⟩ := held
    obtain ⟨_, smaller, nextSorted⟩ := sorted
    rcases mem_paths_node.mp member with ⟨_, rfl⟩ | ⟨_, below, shape⟩ | later
    · refine ⟨ptr, ?_, points⟩
      rintro (_ | fuel) enough
      · omega
      simp [skipSmaller, points]
    · have empty := (cons.inj shape).2
      subst empty
      exact absurd rfl (paths_ne_nil child _ below)
    · obtain ⟨_, _, shape, known⟩ := paths_head_mem next _ later
      cases shape
      have less : memory.subid address < memory.subid head := smaller _ known
      have nextAt : memory.Holds next (memory.load (.next address)) := nextHeld
      obtain ⟨final, found, loads⟩ := nextIh nextAt nextSorted later
      refine ⟨final, ?_, loads⟩
      rintro (_ | fuel) enough
      · simp at enough
      rw [values, length_cons, length_append] at enough
      simp only [skipSmaller, points, if_pos less]
      exact found fuel (by omega)

abbrev Memory.withTable (memory : Memory) (table : Nat → Option Nat) : Memory := { memory with nodehashtab := table }

variable {name : List Char}

theorem hashNodeList_again (alone : memory.links head = ⟨none, none⟩)
    (named : (memory.node head).parentName = some name)
    {fuel : Nat} (enough : 2 ≤ fuel) : hashNodeList fuel (some head) memory =
      some (memory.withTable (update (fun _ => none) (hashNodeLabel name) (some head))) := by
  obtain ⟨fuel, rfl⟩ : ∃ less, fuel = less + 2 := ⟨fuel - 2, by omega⟩
  have ends : (memory.links head).nextPtr = none := by rw [alone]
  simp only [hashNodeList, hashNodes, named, ends]
  simp [Memory.store, Memory.setLinks, alone]

theorem buildSubTree_again {parent : Nat} {path : List Nat} {top : Option Nat} (grown : Grown memory top tree)
    (isParent : (path, parent) ∈ tree.paths) (isHead : (path ++ [memory.subid head], head) ∈ tree.paths)
    (alone : memory.links head = ⟨none, none⟩) (named : (memory.node head).parentName = some name)
    (label : (memory.node parent).label = name) {fuel : Nat} (enough : memory.size + 1 < fuel) :
    buildSubTree fuel parent (memory.withTable (update (fun _ => none) (hashNodeLabel name) (some head))) =
      some (memory.withTable fun _ => none) := by
  have isThere := mem_values_iff.mpr ⟨path, isParent⟩
  obtain ⟨children, below⟩ := grown.held.children isThere
  obtain ⟨nodup, sorted, _⟩ := grown.held.children_proper grown.nodup grown.sorted isThere below
  have short : children.values.length ≤ memory.size := length_le_of_bounded nodup fun address member =>
    grown.bounded address (grown.held.children_subset isThere below address member)
  have belowAt :
    (memory.withTable fun _ => none).Holds children ((memory.withTable fun _ => none).load (.child parent)) := below
  obtain ⟨_, search, loads⟩ :=
    skipSmaller_found belowAt sorted (grown.held.child_path grown.sorted isParent below isHead)
  obtain ⟨fuel, rfl⟩ := Nat.exists_eq_succ_of_ne_zero (by omega : fuel ≠ 0)
  have linked : linkNode fuel (memory.withTable fun _ => none) parent head =
      some (memory.withTable fun _ => none, head) := by
    rw [linkNode, search fuel (by omega)]
    simp [loads]
  have idle : ∀ root hash, buildLoop fuel root (.bucket hash) (memory.withTable fun _ => none) =
      some (memory.withTable fun _ => none) := by
    intro _ hash
    have empty : (memory.withTable fun _ => none).Chain ((memory.withTable fun _ => none).load (.bucket hash)) [] := rfl
    exact buildLoop_idle empty (by simp) (by simpa using (by omega : 0 < fuel))
  have taken : (memory.withTable (update (fun _ => none) (hashNodeLabel name) (some head))).take
      (.bucket (hashNodeLabel name)) head = memory.withTable fun _ => none := by
    simp [Memory.store, Memory.setLinks, alone]
  simp only [buildSubTree, label, buildLoop, Memory.load, update_self, named, if_true, taken, linked,
    bind_eq_bind, bind_some, idle]

theorem addToTree_again {parent : Nat} {path : List Nat} (grown : Grown memory memory.tnmMibTree tree)
    (isParent : (path, parent) ∈ tree.paths) (isHead : (path ++ [memory.subid head], head) ∈ tree.paths)
    (alone : memory.links head = ⟨none, none⟩) (named : (memory.node head).parentName = some name)
    (label : (memory.node parent).label = name) (found : findNode memory tree name = some parent)
    (unmarked : Unmarked memory tree) :
    ∃ after, (∃ bound, ∀ fuel ≥ bound, addToTree fuel (some head) memory = some (after, true)) ∧ Kept memory after ∧
      Grown after memory.tnmMibTree tree := by
  have chain : memory.Chain (some head) [head] := ⟨rfl, _, rfl, by rw [alone]; rfl⟩
  have fit : Fit (memory.withTable fun _ => none) ⟨tree, ∅, ∅⟩ := by
    refine ⟨fun address member => absurd member (Finset.notMem_empty address), ?_⟩
    rintro address (member | member)
    · exact unmarked address member
    · exact absurd member (Finset.notMem_empty address)
  obtain ⟨after, final, ⟨⟨bound, returns⟩, kept, represented, steps⟩, _⟩ := buildKnown_spec _ rfl grown.emptied fit
  have same : final = ⟨tree, ∅, ∅⟩ := steps_eq steps fun address member => absurd member (Finset.notMem_empty address)
  subst same
  obtain ⟨left, isLeft, members⟩ := represented.hashed (fit.steps kept steps)
  have empty : left = [] := by
    rw [eq_nil_iff_forall_not_mem]
    intro address member
    exact Finset.notMem_empty address ((members address).mp member)
  refine ⟨after, ⟨max bound (memory.size + 2), ?_⟩, ⟨kept.node, kept.size, kept.top⟩, represented.grown⟩
  intro fuel _
  have followed := follow_linked chain (by simpa using (by omega : 1 ≤ fuel))
  simp only [addToTree, followed, getLast?_singleton, named, grown.tree_eq, found, bind_eq_bind, bind_some,
    hashNodeList_again alone named (by omega : 2 ≤ fuel), buildAnchor,
    buildSubTree_again grown isParent isHead alone named label (by omega : memory.size + 1 < fuel)]
  rw [returns fuel (by omega), bind_some, isLeft, empty]
  rfl

end

structure Rooted (memory : Memory) (roots : AddressTree) (nodes : List Nat) (head : Nat) (stage : Stage) : Prop where
  represents : Represents memory memory.tnmMibTree stage
  steps : ReflTransGen (Step memory.node) ⟨roots, nodes.toFinset, ∅⟩ stage
  closed : Closed memory stage []
  nodup : roots.values.Nodup
  isNode : head ∈ nodes
  small : head < memory.size
  apart : ∀ address ∈ nodes, address ∉ roots.values
  plain : ∀ address ∈ nodes, ∃ name, (memory.node address).parentName = some name ∧ PlainName name
  unmarked : ∀ address, address ∈ roots.values ∨ address ∈ nodes → memory.subid address ≠ 2 ^ 32 - 1
  labels : ∀ first, first ∈ roots.values ∨ first ∈ nodes → ∀ second, second ∈ roots.values ∨ second ∈ nodes →
    (memory.node first).label = (memory.node second).label → first = second
  leaf : ∀ other, other ∈ roots.values ∨ other ∈ nodes →
    (memory.node other).parentName ≠ some (memory.node head).label ∧
    ((memory.node other).parentName = (memory.node head).parentName → memory.subid other ≤ memory.subid head)

/-- The rest of the list is added again. -/
def AddsAgain (memory : Memory) (roots : AddressTree) (nodes : List Nat) (head : Nat) : Prop :=
  ∃ after tree flag, (∃ bound, ∀ fuel ≥ bound, addToTree fuel (some head) memory = some (after, flag)) ∧
    Kept memory after ∧
    Grown after memory.tnmMibTree tree ∧ (∀ address ∈ tree.values, address ∈ roots.values ∨ address ∈ nodes) ∧
    Settled memory.node tree nodes

section

variable {memory : Memory} {roots : AddressTree} {nodes : List Nat} {head : Nat} {stage : Stage}
  (rooted : Rooted memory roots nodes head stage)
include rooted

theorem Rooted.origin {address : Nat} (member : address ∈ stage.tree.values ∨ address ∈ stage.waiting) :
    address ∈ roots.values ∨ address ∈ nodes := by
  rcases member with inTree | waits
  · exact (steps_origin rooted.steps inTree).imp_right List.mem_toFinset.mp
  · exact .inr (List.mem_toFinset.mp (steps_waiting rooted.steps waits))

theorem Rooted.occupied {address : Nat} (member : address ∈ nodes) :
    address ∈ stage.waiting ∨ Occupied memory.node stage.tree address :=
  steps_occupied rooted.steps rooted.nodup (fun address waits => rooted.apart address (List.mem_toFinset.mp waits))
    (List.mem_toFinset.mpr member)

theorem Rooted.settled : Settled memory.node stage.tree nodes := by
  intro address member parent isParent refers
  rcases rooted.occupied member with waits | occupied
  · exact absurd refers (rooted.closed parent isParent not_mem_nil address waits)
  · exact occupied

theorem Rooted.fit {chain : List Nat} (inside : ∀ address ∈ chain, address ∈ nodes) :
    Fit memory ⟨stage.tree, chain.toFinset, ∅⟩ := by
  refine ⟨fun address waits => rooted.plain address (inside address (List.mem_toFinset.mp waits)), ?_⟩
  rintro address (inTree | waits)
  · exact rooted.unmarked address (rooted.origin (.inl inTree))
  · exact rooted.unmarked address (.inr (inside address (List.mem_toFinset.mp waits)))

theorem Rooted.origins (address : Nat) (member : address ∈ stage.tree.values) :
    address ∈ roots.values ∨ address ∈ nodes :=
  rooted.origin (.inl member)

theorem Rooted.waits (waits : head ∈ stage.waiting) : AddsAgain memory roots nodes head := by
  obtain ⟨name, named, _⟩ := rooted.plain head rooted.isNode
  have hashed : memory.hashOf head = some (hashNodeLabel name) := by rw [Memory.hashOf, named, map_some]
  obtain ⟨rest, cursor⟩ := rooted.represents.behind waits hashed
  have chain : memory.Chain (some head) (head :: rest) := ⟨rfl, _, rfl, cursor.chain⟩
  have allWait : ∀ address ∈ head :: rest, address ∈ stage.waiting := by
    intro address member
    rcases mem_cons.mp member with rfl | later
    · exact waits
    · exact (cursor.waits rooted.represents address later).1
  have inNodes : ∀ address ∈ head :: rest, address ∈ nodes := fun address member =>
    List.mem_toFinset.mp (steps_waiting rooted.steps (allWait address member))
  obtain ⟨after, final, added⟩ := addToTree_spec rooted.represents.grown chain (by simp)
    (fun address member => ⟨rooted.represents.apart address (allWait address member),
      rooted.represents.inside address (allWait address member)⟩) (rooted.fit inNodes)
  have same : final = ⟨stage.tree, (head :: rest).toFinset, ∅⟩ :=
      steps_eq added.steps fun address member parent isParent =>
    rooted.closed parent isParent not_mem_nil address (allWait address (List.mem_toFinset.mp member))
  subst same
  exact ⟨after, stage.tree, _, added.returns, added.kept, added.represents.grown, rooted.origins, rooted.settled⟩

theorem Rooted.gone (gone : head ∈ stage.gone) : AddsAgain memory roots nodes head := by
  obtain ⟨last, outside, _⟩ := rooted.represents.alone head gone
  have chain : memory.Chain (some head) [head] := ⟨rfl, _, rfl, last⟩
  have inNodes : ∀ address ∈ [head], address ∈ nodes := by
    intro address member
    rw [mem_singleton.mp member]
    exact rooted.isNode
  have small : ∀ address ∈ [head], address ∉ stage.tree.values ∧ address < memory.size := by
    intro address member
    rw [mem_singleton.mp member]
    exact ⟨outside, rooted.small⟩
  obtain ⟨after, final, added⟩ := addToTree_spec rooted.represents.grown chain (by simp) small (rooted.fit inNodes)
  refine ⟨after, final.tree, _, added.returns, added.kept, added.represents.grown, ?_, ?_⟩
  · intro address member
    rcases steps_origin added.steps member with old | new
    · exact rooted.origins address old
    · exact .inr (inNodes address (List.mem_toFinset.mp new))
  · intro address member parent isParent refers
    rcases rooted.occupied member with waits | occupied
    · -- the only new parent could be the first node, which has no children
      rcases steps_origin added.steps isParent with old | new
      · exact absurd refers (rooted.closed parent old not_mem_nil address waits)
      · rw [mem_singleton.mp (List.mem_toFinset.mp new)] at refers
        exact absurd refers (rooted.leaf address (.inr member)).1
    · exact occupied.mono fun entry member => steps_paths added.steps member

theorem Rooted.linked (linked : head ∈ stage.tree.values) : AddsAgain memory roots nodes head := by
  obtain ⟨path, parent, isParent, refers, isHead⟩ := steps_linked rooted.steps linked (rooted.apart head rooted.isNode)
  have parentThere := mem_values_iff.mpr ⟨path, isParent⟩
  obtain ⟨name, named, plain⟩ := rooted.plain head rooted.isNode
  have label : (memory.node parent).label = name := by
    rw [named] at refers
    exact (some.inj refers).symm
  have unmarked : Unmarked memory stage.tree := fun address member =>
    rooted.unmarked address (rooted.origins address member)
  obtain ⟨finds, complete⟩ := findNode_label plain rooted.represents.grown unmarked
  have found : findNode memory stage.tree name = some parent := by
    cases search : findNode memory stage.tree name with
    | none => exact absurd label (complete search parent parentThere)
    | some other =>
      obtain ⟨otherThere, otherLabel⟩ := finds other search
      rw [rooted.labels other (rooted.origins other otherThere) parent (rooted.origins parent parentThere)
        (otherLabel.trans label.symm)]
  obtain ⟨siblings, children⟩ := rooted.represents.grown.held.links_spec rooted.represents.grown.sorted
    rooted.represents.grown.named linked
  have noSibling : (memory.links head).nextPtr = none := by
    cases points : (memory.links head).nextPtr with
    | none => rfl
    | some next =>
      obtain ⟨known, same, larger⟩ := siblings next points
      have smaller := (rooted.leaf next (rooted.origins next known)).2 same
      exact absurd larger (Nat.not_lt.mpr smaller)
  have noChild : (memory.links head).childPtr = none := by
    cases points : (memory.links head).childPtr with
    | none => rfl
    | some child =>
      obtain ⟨known, same⟩ := children child points
      exact absurd same (rooted.leaf child (rooted.origins child known)).1
  have alone : memory.links head = ⟨none, none⟩ := by
    cases links : memory.links head with
    | mk =>
      rw [links] at noSibling noChild
      cases noSibling
      cases noChild
      rfl
  obtain ⟨after, returns, kept, grown⟩ :=
    addToTree_again rooted.represents.grown isParent isHead alone named label found unmarked
  exact ⟨after, stage.tree, true, returns, kept, grown, rooted.origins, rooted.settled⟩

theorem Rooted.addToTree : AddsAgain memory roots nodes head := by
  rcases steps_left rooted.steps (List.mem_toFinset.mpr rooted.isNode) with waits | linked | gone
  · exact rooted.waits waits
  · exact rooted.linked linked
  · exact rooted.gone gone

end

structure Fits (parsed : List Parsed) : Prop where
  plain : ∀ node ∈ parsed, ∃ name, node.parentName = some name ∧ PlainName name
  unmarked : ∀ node ∈ parsed, node.subid ≠ 2 ^ 32 - 1

structure FitsFirst (parsed : List Parsed) : Prop where
  distinct : ∀ first ∈ parsed, ∀ second ∈ parsed,
    first.parentName.map hashNodeLabel = second.parentName.map hashNodeLabel → first.parentName = second.parentName
  labels : ((parsed ++ rootNodes).map Parsed.label).Nodup
  leaf : ∀ head ∈ parsed.head?, ∀ other ∈ parsed ++ rootNodes, other.parentName ≠ some head.label ∧
    (other.parentName = head.parentName → other.subid ≤ head.subid)

section

variable {memory : Memory} {parsed : List Parsed}

theorem allocate_twice (memory : Memory) (first second : List Parsed) :
    ((memory.allocate first).allocate second).node = (memory.allocate (first ++ second)).node := by
  funext address
  by_cases old : memory.size ≤ address
  · by_cases behind : memory.size + first.length ≤ address
    · have outside : first.length ≤ address - memory.size := by omega
      simp [Memory.allocate, behind, old, getElem?_append_right outside, getElem?_eq_none outside, Nat.sub_sub]
    · simp [Memory.allocate, behind, getElem?_append_left (by omega : address - memory.size < first.length)]
  · simp [Memory.allocate, old]
    omega

theorem first_rooted (grown : Grown memory none .nil) (fits : Fits parsed) (fitsFirst : FitsFirst parsed)
    (filled : parsed ≠ []) :
    ∃ built stage, (∃ bound, ∀ fuel ≥ bound, buildTree fuel (some memory.size) (memory.allocate parsed) = some built) ∧
      built.node = ((memory.allocate parsed).allocate rootNodes).node ∧
        built.tnmMibTree = some (memory.size + parsed.length) ∧
      Rooted built (rootTree (memory.size + parsed.length))
        (List.range' memory.size parsed.length) memory.size stage := by
  have inside : ∀ address ∈ List.range' memory.size parsed.length, address < (memory.allocate parsed).size := by
    intro address member
    rw [mem_range'_1] at member
    exact member.2
  have chain := allocate_chain memory parsed
  have isFilled : parsed.isEmpty = false := by simpa using filled
  rw [isFilled] at chain
  have texts := @allocate_node_mem memory parsed
  have plain : ∀ address ∈ List.range' memory.size parsed.length,
      ∃ name, ((memory.allocate parsed).node address).parentName = some name ∧ PlainName name :=
    fun address member => fits.plain _ (texts member)
  have distinct : Distinct (memory.allocate parsed) (List.range' memory.size parsed.length).toFinset := by
    intro first firstMember second secondMember
    exact fitsFirst.distinct _ (texts (List.mem_toFinset.mp firstMember)) _
      (texts (List.mem_toFinset.mp secondMember))
  obtain ⟨built, stage, returns, sameNode, sameSize, top, represents, steps, closed⟩ :=
    buildTree_spec (grown.allocate parsed) chain inside
      (fun address member => by obtain ⟨name, named, _⟩ := plain address member; exact ⟨name, named⟩) distinct
  -- the list and the roots lie side by side
  have together := sameNode.trans (allocate_twice memory parsed rootNodes)
  have known : ∀ address, address ∈ (rootTree (memory.size + parsed.length)).values ∨
      address ∈ List.range' memory.size parsed.length →
          address ∈ List.range' memory.size (parsed ++ rootNodes).length := by
    intro address member
    have roots : rootNodes.length = 3 := rfl
    simp only [rootTree, values, mem_cons, nil_append, not_mem_nil, or_false, mem_range'_1] at member
    rw [mem_range'_1, length_append]
    omega
  have positive : 0 < parsed.length := length_pos_iff.mpr filled
  have headNode : memory.size ∈ List.range' memory.size parsed.length := by
    rw [mem_range'_1]
    omega
  have headText : built.node memory.size ∈ parsed.head? := by
    obtain ⟨first, rest, rfl⟩ := exists_cons_of_ne_nil filled
    have small : 0 < ((first :: rest) ++ rootNodes).length := by simp
    rw [together]
    exact congrArg some (allocate_node_new memory _ small).symm
  refine ⟨built, stage, returns, sameNode, top, top ▸ represents, steps, closed, ?_, headNode, ?_, ?_, ?_, ?_, ?_, ?_⟩
  · simp [rootTree, values]
  · rw [sameSize]
    simp only [Memory.allocate]
    omega
  · intro address isNode isRoot
    rw [mem_range'_1] at isNode
    simp only [rootTree, values, mem_cons, nil_append, not_mem_nil, or_false] at isRoot
    omega
  · intro address isNode
    rw [sameNode, allocate_node_of_lt (memory.allocate parsed) rootNodes (inside address isNode)]
    exact plain address isNode
  · intro address isKnown
    rw [Memory.subid, together]
    rcases mem_append.mp (allocate_node_mem memory _ (known address isKnown)) with inList | isRoot
    · exact fits.unmarked _ inList
    · have small : ∀ root ∈ rootNodes, root.subid ≠ 2 ^ 32 - 1 := by decide
      exact small _ isRoot
  · intro first isFirst second isSecond same
    obtain ⟨one, oneSmall, rfl⟩ := mem_range'.mp (known first isFirst)
    obtain ⟨two, twoSmall, rfl⟩ := mem_range'.mp (known second isSecond)
    simp only [together, Nat.one_mul, allocate_node_new memory _ oneSmall, allocate_node_new memory _ twoSmall] at same
    have nodes := inj_on_of_nodup_map fitsFirst.labels (getElem_mem oneSmall) (getElem_mem twoSmall) same
    rw [(fitsFirst.labels.of_map _).getElem_inj_iff.mp nodes]
  · intro other isKnown
    refine fitsFirst.leaf _ headText _ ?_
    rw [together]
    exact allocate_node_mem memory _ (known other isKnown)

end

end Tnm.Mib
