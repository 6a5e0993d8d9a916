import TkinedRemix.Mib.BuildRuns
import TkinedRemix.Mib.LabelLookup

/-!
Looking up the parents of nodes by name while the tree is built.
-/

namespace Tnm.Mib

open Lib SiblingTree Relation List Option Function

structure PlainName (name : List Char) : Prop where
  noDot : '.' ∉ name
  noColon : ':' ∉ name
  noMark : '!' ∉ name
  noNumber : name.all Char.isDigit = false

theorem isOidFrom_eq_all {name : List Char} (noDot : '.' ∉ name) (noColon : ':' ∉ name) :
    isOidFrom name ⟨false, 0⟩ = name.all Char.isDigit := by
  induction name with
  | nil => rfl
  | cons char _ ih =>
    rw [mem_cons, not_or] at noDot noColon
    have dot : ¬ char = '.' := fun same => noDot.1 same.symm
    have colon : ¬ char = ':' := fun same => noColon.1 same.symm
    rw [isOidFrom, if_neg dot, if_neg colon, ih noDot.2 noColon.2]
    cases digit : char.isDigit <;> simp [digit]

section

variable {name : List Char}

theorem PlainName.splitModule (plain : PlainName name) : splitModule name = none :=
  splitModule_eq_none plain.noMark plain.noColon (by simp [plain.noDot])

theorem PlainName.tnmHexToOid (plain : PlainName name) : (tnmHexToOid name).getD name = name := by
  have noHex := needsExpansion_append plain.noDot plain.noColon []
  rw [append_nil] at noHex
  simp [Mib.tnmHexToOid, noHex, needsExpansion]

theorem PlainName.tnmIsOid (plain : PlainName name) : tnmIsOid name = false := by
  rw [Mib.tnmIsOid, isOidFrom_eq_all plain.noDot plain.noColon, plain.noNumber]

theorem lookupLabel_plain (plain : PlainName name) (start : Nat) {tree : MibTree}
    (bounds : ∀ entry ∈ tree.paths, (2 ^ 32 - 1) ∉ entry.1) : (lookupLabel start [] true tree name true).map Prod.fst =
      (tree.paths.find? fun entry => entry.2.label == name).map Prod.fst := by
  have whole := takeWhile_eq_self_iff.mpr (bne_of_notMem plain.noDot)
  have nothing := dropWhile_eq_nil_iff.mpr (bne_of_notMem plain.noDot)
  induction tree with
  | nil => rfl
  | node subid node _ _ childIh nextIh =>
    have small : (headNumber name == subid) = false := by
      rw [headNumber, plain.noNumber]
      have own := bounds ([subid], node) (by simp [paths])
      simpa using fun same => own (by simp [same])
    have childSearch := childIh fun entry member unit => by
      have deeper := bounds (subid :: entry.1, entry.2) (by
        rw [mem_paths_node]
        exact .inr (.inl ⟨entry.1, member, rfl⟩))
      exact deeper (mem_cons_of_mem _ unit)
    have nextSearch := nextIh fun entry member => bounds entry (by
      rw [mem_paths_node]
      exact .inr (.inr member))
    simp only [lookupLabel, whole, nothing, drop_nil, small, if_true, paths, cons_append, find?_cons]
    by_cases same : node.label = name
    · simp [same]
    · have label : (name == node.label) = false := by simpa using Ne.symm same
      have entry : (node.label == name) = false := by simpa using same
      have inner : ∀ found : Option (Oid × Int),
        (found.map fun found => (subid :: found.1, adjustOffset found.2 (start - 0) [])).map Prod.fst =
          (found.map Prod.fst).map (subid :: ·) := by
        intro found
        cases found <;> rfl
      simp only [label, entry, map_or, find?_append, length_nil, nextSearch]
      rw [inner, childSearch]
      simp [comp_def]

theorem addressAt_of_mem {tree : AddressTree} (sorted : tree.Sorted) {path : Oid} {address : Nat}
    (member : (path, address) ∈ tree.paths) : addressAt tree path = some address := by
  have increasing : Increasing Prod.fst tree.paths := paths_increasing tree sorted
  rw [addressAt]
  cases search : tree.paths.find? fun entry => entry.1 == path with
  | none => exact absurd (find?_eq_none.mp search (path, address) member) (by simp)
  | some entry =>
    have same : entry.1 = path := by simpa using find?_some search
    have whole := increasing.eq_of_key (mem_of_find?_eq_some search) member same
    rw [whole, map_some]

variable {memory : Memory} {top : Option Nat} {tree : AddressTree}

def Unmarked (memory : Memory) (tree : AddressTree) : Prop := ∀ address ∈ tree.values, memory.subid address ≠ 2 ^ 32 - 1

theorem findNode_plain (plain : PlainName name) (grown : Grown memory top tree) (unmarked : Unmarked memory tree) :
    findNode memory tree name = match memory.nodeHashTable name with
      | some (some address) => some address
      | _ => (tree.paths.find? fun entry => (memory.node entry.2).label == name).map Prod.snd := by
  have bounds : ∀ entry ∈ (tree.map memory.mibNode).paths, (2 ^ 32 - 1) ∉ entry.1 := by
    intro entry member inPath
    rw [paths_map, List.mem_map] at member
    obtain ⟨_, member, rfl⟩ := member
    obtain ⟨other, known, same⟩ := grown.held.keys_of_path member _ inPath
    exact unmarked other known same.symm
  have search := lookupLabel_plain plain name.length bounds
  rw [paths_map, find?_map] at search
  have unfiltered : ∀ (test : Nat → Bool) (found : Option Nat), (∀ address, test address = true) →
      found.filter test = found := by
    intro _ found passes
    cases found <;> simp [passes]
  have looked :
    ((lookupLabel name.length [] true (tree.map memory.mibNode) name true).bind fun found => addressAt tree found.1) =
      (tree.paths.find? fun entry => (memory.node entry.2).label == name).map Prod.snd := by
    cases found : tree.paths.find? fun entry => (memory.node entry.2).label == name with
    | none =>
      have nothing : (lookupLabel name.length [] true (tree.map memory.mibNode) name true).map Prod.fst = none := by
        rw [search]
        simpa [Memory.mibNode] using found
      rw [map_eq_none_iff.mp nothing]
      rfl
    | some entry =>
      have first : (lookupLabel name.length [] true (tree.map memory.mibNode) name true).map Prod.fst =
          some entry.1 := by
        rw [search]
        simp only [comp_def, Memory.mibNode, found, map_some]
      obtain ⟨_, looked, same⟩ := map_eq_some_iff.mp first
      rw [looked, bind_some, same]
      exact addressAt_of_mem grown.sorted (mem_of_find?_eq_some found)
  rw [findNode, plain.splitModule]
  simp only [getD_none, plain.tnmHexToOid, plain.tnmIsOid, length_nil, Nat.zero_lt_succ, if_true, looked]
  refine unfiltered _ _ fun address => ?_
  split <;> simp

theorem findNode_label (plain : PlainName name) (grown : Grown memory top tree) (unmarked : Unmarked memory tree) :
    (∀ address, findNode memory tree name = some address → address ∈ tree.values ∧ (memory.node address).label = name) ∧
    (findNode memory tree name = none → ∀ address ∈ tree.values, (memory.node address).label ≠ name) := by
  rw [findNode_plain plain grown unmarked]
  split
  next address entry =>
    refine ⟨?_, nofun⟩
    rintro _ same
    cases same
    exact grown.registered name address entry
  next =>
    constructor
    · intro address found
      obtain ⟨entry, search, rfl⟩ := map_eq_some_iff.mp found
      refine ⟨mem_values_iff.mpr ⟨entry.1, mem_of_find?_eq_some search⟩, ?_⟩
      simpa using find?_some search
    · intro nothing address member same
      obtain ⟨path, member⟩ := mem_values_iff.mp member
      have passes := find?_eq_none.mp (map_eq_none_iff.mp nothing) (path, address) member
      exact passes (by simpa using same)

end

structure Fit (memory : Memory) (stage : Stage) : Prop where
  plain : ∀ address ∈ stage.waiting, ∃ name, (memory.node address).parentName = some name ∧ PlainName name
  unmarked : ∀ address, address ∈ stage.tree.values ∨ address ∈ stage.waiting → memory.subid address ≠ 2 ^ 32 - 1

theorem steps_origin {node : Nat → Parsed} {before after : Stage} (steps : ReflTransGen (Step node) before after)
    {address : Nat} (member : address ∈ after.tree.values) :
    address ∈ before.tree.values ∨ address ∈ before.waiting := by
  induction steps with
  | refl => exact .inl member
  | tail steps step ih =>
    obtain ⟨_, _, _, waits, _, tree, _⟩ := step
    rw [tree] at member
    rcases mem_values_graft member with old | rfl
    · exact ih old
    · exact .inr (steps_waiting steps waits)

section

variable {memory after : Memory} {top : Option Nat} {stage final : Stage}

theorem Fit.steps (fit : Fit memory stage) (kept : Kept memory after)
    (steps : ReflTransGen (Step memory.node) stage final) :
    Fit after final := by
  refine ⟨?_, ?_⟩
  · intro address waits
    rw [kept.node]
    exact fit.plain address (steps_waiting steps waits)
  · intro address member
    rw [Memory.subid, kept.node]
    apply fit.unmarked address
    rcases member with inTree | waits
    · exact steps_origin steps inTree
    · exact .inr (steps_waiting steps waits)

theorem Grown.tree_eq {tree : AddressTree} (grown : Grown memory memory.tnmMibTree tree) : memory.tree = some tree :=
  grown.held.read (length_le_of_bounded grown.nodup grown.bounded)

theorem Represents.hashed (represents : Represents memory top stage) (fit : Fit memory stage) :
    ∃ nodes, memory.hashed = some nodes ∧ ∀ address, address ∈ nodes ↔ address ∈ stage.waiting := by
  choose bin chain members using represents.bins
  have followed : ∀ hash, follow Links.nextPtr (fun address => some (memory.links address)) memory.size
      (memory.nodehashtab hash) = some (bin hash) := by
    intro hash
    refine follow_linked (chain hash) (length_le_of_bounded (chain hash).nodup ?_)
    intro address member
    exact represents.inside address ((members hash address).mp member).1
  have all : ((List.range nodeHashSize).mapM fun hash =>
      follow Links.nextPtr (fun address => some (memory.links address)) memory.size (memory.nodehashtab hash)) =
        some ((List.range nodeHashSize).map bin) := by
    simp only [followed]
    exact mapM_pure
  refine ⟨((List.range nodeHashSize).map bin).flatten, by rw [Memory.hashed, all, map_some], ?_⟩
  intro address
  rw [mem_flatten]
  constructor
  · rintro ⟨_, isBin, member⟩
    obtain ⟨hash, _, rfl⟩ := List.mem_map.mp isBin
    exact ((members hash address).mp member).1
  · intro waits
    obtain ⟨name, named, _⟩ := fit.plain address waits
    refine ⟨bin (hashNodeLabel name), ?_, (members _ address).mpr ⟨waits, by rw [Memory.hashOf, named, map_some]⟩⟩
    refine List.mem_map.mpr ⟨hashNodeLabel name, mem_range.mpr ?_, rfl⟩
    exact Nat.mod_lt _ (by decide)

theorem knownParent_spec (represents : Represents memory memory.tnmMibTree stage) (fit : Fit memory stage) :
    ∃ found, knownParent memory = some found ∧ (∀ root, found = some root → root ∈ stage.tree.values ∧
          ∃ address ∈ stage.waiting, (memory.node address).parentName = some (memory.node root).label) ∧
      (found = none → ∀ address ∈ stage.waiting, ∀ parent ∈ stage.tree.values,
        (memory.node address).parentName ≠ some (memory.node parent).label) := by
  obtain ⟨_, hashed, members⟩ := represents.hashed fit
  have unmarked : Unmarked memory stage.tree := fun address member => fit.unmarked address (.inl member)
  refine ⟨_, by rw [knownParent, represents.grown.tree_eq, hashed]; rfl, ?_, ?_⟩
  · intro root found
    obtain ⟨address, member, search⟩ := exists_of_findSome?_eq_some found
    obtain ⟨_, named, plain⟩ := fit.plain address ((members address).mp member)
    rw [named] at search
    obtain ⟨isThere, label⟩ := (findNode_label plain represents.grown unmarked).1 root search
    exact ⟨isThere, address, (members address).mp member, by rw [named, label]⟩
  · intro nothing address waits parent isThere refers
    have search := findSome?_eq_none_iff.mp nothing address ((members address).mpr waits)
    obtain ⟨_, named, plain⟩ := fit.plain address waits
    rw [named] at search
    rw [named] at refers
    exact (findNode_label plain represents.grown unmarked).2 search parent isThere (some.inj refers).symm

theorem buildKnown_spec (count : Nat) {memory : Memory} {stage : Stage} (small : stage.waiting.card = count)
    (represents : Represents memory memory.tnmMibTree stage) (fit : Fit memory stage) :
    ∃ after final, Built memory.tnmMibTree memory stage (fun fuel => buildKnown fuel memory) after final ∧
      ∀ address ∈ final.waiting, ∀ parent ∈ final.tree.values,
        (memory.node address).parentName ≠ some (memory.node parent).label := by
  induction count using Nat.strong_induction_on generalizing memory stage with
  | _ _ shorter =>
    obtain ⟨found, known, isParent, complete⟩ := knownParent_spec represents fit
    cases found with
    | none =>
      refine ⟨memory, stage, ⟨⟨1, ?_⟩, .refl memory, represents, ReflTransGen.refl⟩, complete rfl⟩
      rintro (_ | fuel) enough
      · omega
      simp [buildKnown, known]
    | some root =>
      obtain ⟨isRoot, waiting⟩ := isParent root rfl
      obtain ⟨_, _, ⟨⟨bound, returns⟩, kept, represented, steps⟩, progress, _⟩ := buildSubTree_spec represents isRoot
      have fewer := progress waiting
      rw [← kept.top] at represented
      obtain ⟨after, final, ⟨⟨lastBound, lastReturns⟩, keptLast, representsLast, lastSteps⟩, rest⟩ :=
        shorter _ (by omega) rfl represented (fit.steps kept steps)
      rw [kept.node] at lastSteps rest
      rw [kept.top] at representsLast
      refine ⟨after, final, ⟨⟨max bound lastBound + 1, ?_⟩, kept.trans keptLast, representsLast,
        steps.trans lastSteps⟩, rest⟩
      rintro (_ | fuel) _
      · omega
      simp only [buildKnown, known, bind_eq_bind, bind_some]
      rw [returns fuel (by omega)]
      exact lastReturns fuel (by omega)

end

end Tnm.Mib
