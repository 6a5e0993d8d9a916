import TkinedRemix.Mib.OidStrings

/-!
Nodes by their identifier: `LookupOID` and `TnmMibNodeFromOid` stop at the node with its longest prefix.
-/

namespace Tnm.Mib

open Lib List

theorem suffixText_cons (subid : Nat) (oid : Oid) :
    suffixText (subid :: oid) = '.' :: (subidText subid ++ suffixText oid) := by
  simp [suffixText]

variable {path : Oid}

theorem pathText_append (filled : path ≠ []) (suffix : Oid) :
    pathText (path ++ suffix) = pathText path ++ suffixText suffix := by
  cases path with
  | nil => exact absurd rfl filled
  | cons => simp [pathText, suffixText]

theorem isDigit_isPunct {char : Char} (isDigit : char.isDigit = true) : isPunct char = false := by
  simp only [Char.isDigit, Bool.and_eq_true, decide_eq_true_eq] at isDigit
  have low : 48 ≤ char.toNat := UInt32.le_iff_toNat_le.mp isDigit.1
  have high : char.toNat ≤ 57 := UInt32.le_iff_toNat_le.mp isDigit.2
  simp only [isPunct, Bool.or_eq_false_iff, Bool.and_eq_false_iff, decide_eq_false_iff_not]
  omega

theorem dropWhile_digits (digits : List Char) (isDigits : ∀ char ∈ digits, char.isDigit = true) (oid : Oid) :
    (digits ++ suffixText oid).dropWhile Char.isDigit = suffixText oid := by
  rw [dropWhile_append_of_pos isDigits]
  cases oid with
  | nil => rfl
  | cons =>
    rfl

theorem skipSubid_digits (subid : Nat) (oid : Oid) :
    (subidText subid ++ suffixText oid).dropWhile isPunct = subidText subid ++ suffixText oid := by
  obtain ⟨_, _, single, shape⟩ := subidText_head subid (suffixText oid)
  rw [shape, dropWhile_cons, isDigit_isPunct (digitChar_isDigit single)]
  rfl

theorem skipSubid_first (subid : Nat) (oid : Oid) : skipSubid (subidText subid ++ suffixText oid) = suffixText oid := by
  rw [skipSubid, skipSubid_digits, dropWhile_digits _ (subidText_isDigit subid)]

theorem skipSubid_suffixText (subid : Nat) (oid : Oid) : skipSubid (suffixText (subid :: oid)) = suffixText oid := by
  exact skipSubid_first subid oid

theorem skipSubid_iterate (oid suffix : Oid) :
    skipSubid^[oid.length] (suffixText (oid ++ suffix)) = suffixText suffix := by
  induction oid with
  | nil => rfl
  | cons _ _ ih =>
    rw [length_cons, Function.iterate_succ_apply, cons_append, skipSubid_suffixText, ih]

theorem skipSubid_pathText (filled : path ≠ []) (suffix : Oid) :
    skipSubid^[path.length] (pathText (path ++ suffix)) = suffixText suffix := by
  cases path with
  | nil => exact absurd rfl filled
  | cons =>
    rw [length_cons, Function.iterate_succ_apply, cons_append, pathText, skipSubid_first, skipSubid_iterate]

variable {tree : MibTree} {subid : Nat}

theorem nodeAt_cons {children : MibTree} {node : MibNode}
    (found : nodeAt tree (subid :: path) = some (node, children)) :
    ∃ value below, sibling subid tree = some (value, below) ∧
      ∀ suffix, descend below (path ++ suffix) = path.length + descend children suffix := by
  induction path generalizing tree subid with
  | nil =>
    exact ⟨node, children, found, fun suffix => by simp⟩
  | cons _ _ ih =>
    rw [nodeAt] at found
    · cases reached : sibling subid tree with
      | none => simp [reached] at found
      | some pair =>
        obtain ⟨value, below⟩ := pair
        rw [reached] at found
        obtain ⟨_, _, first, later⟩ := ih found
        refine ⟨value, below, rfl, fun suffix => ?_⟩
        rw [cons_append, descend, first]
        simp only
        rw [later, length_cons]
        omega
    · simp

theorem descend_le (tree : MibTree) (oid : Oid) : descend tree oid ≤ oid.length := by
  induction oid generalizing tree with
  | nil => exact Nat.le_refl 0
  | cons _ _ ih =>
    rw [descend]
    split
    next => exact Nat.succ_le_succ (ih _)
    next => exact Nat.zero_le _

variable {oid : Oid}

theorem nodeAt_descend {below : MibTree} {value : MibNode} (found : sibling subid tree = some (value, below)) :
    (nodeAt tree (subid :: oid.take (descend below oid))).isSome := by
  induction oid generalizing tree below value subid with
  | nil =>
    rw [descend, take_zero, nodeAt, found]
    rfl
  | cons next _ ih =>
    rw [descend]
    cases deeper : sibling next below with
    | none =>
      rw [take_zero, nodeAt, found]
      rfl
    | some =>
      rw [nodeAt, found]
      · exact ih deeper
      · simp

theorem pathText_single {digit : Char} (other : digit ≠ '.') (same : pathText (subid :: oid) = [digit]) :
    oid = [] ∧ subidText subid = [digit] := by
  cases oid with
  | nil => exact ⟨rfl, by simpa [pathText, suffixText] using same⟩
  | cons next oid =>
    have dot : '.' ∈ pathText (subid :: next :: oid) := by simp [pathText, suffixText_cons]
    rw [same, mem_singleton] at dot
    exact absurd dot.symm other

theorem lookupOID_pathText (tree : MibTree) (exact : Bool) (arc : subid ≤ 2) (bounds : ∀ other ∈ oid, other < 2 ^ 32)
    (short : oid.length < tnmOidMaxSize) : lookupOID tree (pathText (subid :: oid)) exact =
      (sibling subid tree).bind fun (_, children) =>
        if descend children oid = oid.length then some (subid :: oid, (-1 : Int)) else if exact then none
        else some (subid :: oid.take (descend children oid),
          ((pathText (subid :: oid)).length : Int) - (suffixText (oid.drop (descend children oid))).length) := by
  have parsed : (if pathText (subid :: oid) = ['0'] then some [0] else if pathText (subid :: oid) = ['1'] then some [1]
      else if pathText (subid :: oid) = ['2'] then some [2] else tnmOidFromString (pathText (subid :: oid))) =
        some (subid :: oid) := by
    cases oid with
    | nil => interval_cases subid <;> decide
    | cons next oid =>
      have special : ∀ digit : Char, digit ≠ '.' → pathText (subid :: next :: oid) ≠ [digit] :=
        fun _ other same => cons_ne_nil _ _ (pathText_single other same).1
      rw [if_neg (special '0' (by decide)), if_neg (special '1' (by decide)), if_neg (special '2' (by decide)),
        tnmOidFromString_pathText (forall_mem_cons.mpr ⟨by omega, bounds⟩), if_neg]
      rw [length_cons] at short ⊢
      omega
  rw [lookupOID, parsed]
  simp only [headD_cons, tail_cons]
  cases found : sibling subid tree with
  | none => rfl
  | some pair =>
    have left := skipSubid_pathText (cons_ne_nil subid (oid.take (descend pair.2 oid))) (oid.drop (descend pair.2 oid))
    rw [cons_append, take_append_drop, length_cons, length_take, min_eq_left (descend_le _ _)] at left
    simp only [Option.bind_some, left]

/-- The node and the identifier that leads to it, which is what `nodeOidPtr` is set to. -/
def tnmMibNodeFromOid (tree : MibTree) (oid : Oid) : Option Oid :=
  (sibling (oid.headD 0) tree).map fun (_, children) => oid.headD 0 :: oid.tail.take (descend children oid.tail)

structure LongestPrefix (tree : MibTree) (oid path : Oid) : Prop where
  isPrefix : path <+: oid
  node : (nodeAt tree path).isSome
  longest : ∀ other, other <+: oid → (nodeAt tree other).isSome → other.length ≤ path.length

/-- The offset that stands for the sub-identifiers left over: -1 for none, or their place in the text. -/
def Denotes (text : List Char) (offset : Int) (rest : Oid) : Prop :=
  if rest = [] then offset = -1 else 0 ≤ offset ∧ text.drop offset.toNat = suffixText rest

theorem sibling_of_nodeAt (isPrefix : path <+: subid :: oid) (node : (nodeAt tree path).isSome) :
    ∃ value below, sibling subid tree = some (value, below) ∧ path.length ≤ descend below oid + 1 := by
  cases path with
  | nil => cases node
  | cons =>
    obtain ⟨rfl, behind⟩ := cons_prefix_cons.mp isPrefix
    obtain ⟨⟨value, _⟩, found⟩ := Option.isSome_iff_exists.mp node
    obtain ⟨value, below, reached, deeper⟩ := nodeAt_cons found
    obtain ⟨_, rfl⟩ := behind
    refine ⟨value, below, reached, ?_⟩
    rw [deeper, length_cons]
    omega

theorem denotes_offset (subid : Nat) (oid : Oid) {steps : Nat} (inside : steps < oid.length) :
    Denotes (pathText (subid :: oid))
      ((pathText (subid :: oid)).length - (suffixText (oid.drop steps)).length) (oid.drop steps) := by
  have split : pathText (subid :: oid) = pathText (subid :: oid.take steps) ++ suffixText (oid.drop steps) := by
    rw [← pathText_append (cons_ne_nil _ _), cons_append, take_append_drop]
  have nonempty : oid.drop steps ≠ [] := fun empty => by
    have lengths := congrArg List.length empty
    rw [length_drop, length_nil] at lengths
    omega
  rw [Denotes, if_neg nonempty, split, length_append]
  refine ⟨by omega, ?_⟩
  rw [show ((pathText (subid :: oid.take steps)).length + (suffixText (oid.drop steps)).length : Nat) -
    ((suffixText (oid.drop steps)).length : Int) = ((pathText (subid :: oid.take steps)).length : Int) by omega,
      Int.toNat_natCast,
    drop_left]

/-- Both lookups return the node with the longest prefix of the identifier and leave exactly its rest, or both none. -/
def Located (tree : MibTree) (oid : Oid) : Prop :=
  (∃ path rest offset, tnmMibNodeFromOid tree oid = some path ∧
    lookupOID tree (pathText oid) false = some (path, offset) ∧ LongestPrefix tree oid path ∧
    oid = path ++ rest ∧ Denotes (pathText oid) offset rest) ∨
  (tnmMibNodeFromOid tree oid = none ∧ lookupOID tree (pathText oid) false = none ∧
    ∀ other, other <+: oid → nodeAt tree other = none)

theorem nodeAt_eq_none (missing : sibling subid tree = none) {other : Oid} (isPrefix : other <+: subid :: oid) :
    nodeAt tree other = none := by
  rw [← Option.not_isSome_iff_eq_none]
  intro node
  obtain ⟨_, _, reached, _⟩ := sibling_of_nodeAt isPrefix node
  cases missing.symm.trans reached

theorem located_arc (arc : subid ≤ 2) (bounds : ∀ other ∈ oid, other < 2 ^ 32)
    (short : oid.length < tnmOidMaxSize) : Located tree (subid :: oid) := by
  rw [Located, lookupOID_pathText tree false arc bounds short, tnmMibNodeFromOid]
  cases found : sibling subid tree with
  | none => exact .inr ⟨by simp [found], rfl, fun other isPrefix => nodeAt_eq_none found isPrefix⟩
  | some pair =>
    obtain ⟨_, children⟩ := pair
    have longest : LongestPrefix tree (subid :: oid) (subid :: oid.take (descend children oid)) := by
      refine ⟨cons_prefix_cons.mpr ⟨rfl, take_prefix _ _⟩, nodeAt_descend found, fun other isPrefix node => ?_⟩
      obtain ⟨_, _, reached, _⟩ := sibling_of_nodeAt isPrefix node
      cases found.symm.trans reached
      rwa [length_cons, length_take, min_eq_left (descend_le _ _)]
    refine .inl ⟨subid :: oid.take (descend children oid), oid.drop (descend children oid), ?_⟩
    rw [headD_cons, found]
    by_cases whole : descend children oid = oid.length
    · have all : oid.take (descend children oid) = oid := by rw [whole, take_length]
      have none : oid.drop (descend children oid) = [] := by rw [whole, drop_length]
      refine ⟨-1, rfl, ?_, longest, by simp, ?_⟩
      · exact (if_pos whole).trans (by rw [all])
      · rw [none, Denotes, if_pos rfl]
    · refine ⟨_, rfl, ?_, longest, by simp, denotes_offset subid oid (Nat.lt_of_le_of_ne (descend_le _ _) whole)⟩
      exact (if_neg whole).trans (if_neg Bool.false_ne_true)

-- A first sub-identifier above 2 is refused by `TnmOidFromString`; the binary lookup finds no root for it.
theorem located_beyond (beyond : 2 < subid) (missing : sibling subid tree = none)
    (bounds : ∀ other ∈ subid :: oid, other < 2 ^ 32) : Located tree (subid :: oid) := by
  refine .inr ⟨by simp [tnmMibNodeFromOid, missing], ?_, fun other isPrefix => nodeAt_eq_none missing isPrefix⟩
  have refused : tnmOidFromString (pathText (subid :: oid)) = none := by
    rw [tnmOidFromString_pathText bounds, if_pos (.inr (.inr beyond))]
  have special : ∀ digit : Char, digit ≠ '.' → digitsNumber false [digit] % 2 ^ 32 ≤ 2 →
      pathText (subid :: oid) ≠ [digit] := by
    intro digit other small same
    rw [← (pathText_single other same).2, digitsNumber_subidText (bounds subid mem_cons_self)] at small
    omega
  rw [lookupOID, if_neg (special '0' (by decide) (by decide)), if_neg (special '1' (by decide) (by decide)),
    if_neg (special '2' (by decide) (by decide)), refused]

theorem lookups_agree_iff (tree : MibTree) (roots : ∀ subid, 2 < subid → sibling subid tree = none) (oid : Oid)
    (bounds : ∀ subid ∈ oid, subid < 2 ^ 32) (short : oid.length ≤ tnmOidMaxSize) :
    Located tree oid ↔ oid ≠ [] ∨ sibling 0 tree = none := by
  cases oid with
  | nil =>
    constructor
    · rintro (⟨path, rest, offset, binary, -, -, split, -⟩ | ⟨binary, -, -⟩)
      · obtain ⟨rfl, -⟩ := append_eq_nil_iff.mp split.symm
        simp [tnmMibNodeFromOid] at binary
      · exact .inr (by simpa [tnmMibNodeFromOid] using binary)
    · rintro (filled | missing)
      · exact absurd rfl filled
      · refine .inr ⟨by simp [tnmMibNodeFromOid, missing], ?_, fun other isPrefix => ?_⟩
        · have empty : tnmOidFromString [] = some [] := by decide
          simp [lookupOID, pathText, empty, missing]
        · rw [prefix_nil.mp isPrefix, nodeAt]
  | cons subid oid =>
    refine ⟨fun _ => .inl (cons_ne_nil _ _), fun _ => ?_⟩
    rcases Nat.lt_or_ge 2 subid with beyond | arc
    · exact located_beyond beyond (roots subid beyond) bounds
    · exact located_arc arc (forall_mem_cons.mp bounds).2 short

/-- The nodes that `BuildTree` makes first, with `org` read from a MIB file. -/
def lookupTree : MibTree :=
  .node 0 ⟨"ccitt".toList, none⟩ .nil (.node 1 ⟨"iso".toList, none⟩ (.node 3 ⟨"org".toList, none⟩ .nil .nil)
    (.node 2 ⟨"joint-iso-ccitt".toList, none⟩ .nil .nil))

theorem lookupTree_roots (subid : Nat) (beyond : 2 < subid) : sibling subid lookupTree = none := by
  have others : subid ≠ 0 ∧ subid ≠ 1 ∧ subid ≠ 2 := by omega
  simp [lookupTree, sibling, others, Ne.symm]

theorem lookups_agree_example : Located lookupTree [1, 3, 6] :=
  (lookups_agree_iff lookupTree lookupTree_roots [1, 3, 6] (by decide) (by decide)).mpr (by decide)

-- The first element of the empty identifier is read all the same; it is 0 after `TnmOidInit`.
theorem lookups_empty : tnmMibNodeFromOid lookupTree [] = some [0] ∧
    lookupOID lookupTree (pathText []) false = some ([0], -1) ∧ ∀ other, other <+: [] →
      nodeAt lookupTree other = none :=
  ⟨by decide, by decide, fun other isPrefix => by rw [prefix_nil.mp isPrefix, nodeAt]⟩

end Tnm.Mib
