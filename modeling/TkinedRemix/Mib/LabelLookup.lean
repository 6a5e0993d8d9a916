import TkinedRemix.Mib.NodeLookup

/-!
A label with a numeric suffix and the identifier it stands for. The suffix is resolved by its text, which begins
with a dot and so with a sub-identifier 0.
-/

namespace Tnm.Mib

open Lib List

def isDotted (char : Char) : Bool := char.isDigit || char == '.'

theorem suffixText_isDotted (oid : Oid) : ∀ char ∈ suffixText oid, isDotted char = true := by
  intro char member
  obtain ⟨subid, _, inside⟩ := mem_flatMap.mp member
  rcases mem_cons.mp inside with rfl | digit
  · decide
  · simp [isDotted, subidText_isDigit subid char digit]

theorem pathText_isDotted (oid : Oid) : ∀ char ∈ pathText oid, isDotted char = true := by
  cases oid with
  | nil => simp [pathText]
  | cons subid oid =>
    intro char member
    rcases mem_append.mp member with digit | later
    · simp [isDotted, subidText_isDigit subid char digit]
    · exact suffixText_isDotted oid char later

theorem isDotted_other {text : List Char} (dotted : ∀ char ∈ text, isDotted char = true) :
    'x' ∉ text ∧ ':' ∉ text ∧ '!' ∉ text := by
  refine ⟨fun member => ?_, fun member => ?_, fun member => ?_⟩ <;> exact absurd (dotted _ member) (by decide)

theorem startsHex_eq_false {text : List Char} (clean : 'x' ∉ text) : startsHex text = false := by
  rw [startsHex, beq_eq_false_iff_ne]
  intro front
  apply clean
  apply mem_of_mem_take (i := 2)
  rw [front]
  simp

theorem needsExpansion_eq_false {text : List Char} (noColon : ':' ∉ text) (noHex : 'x' ∉ text) :
    needsExpansion text = false := by
  induction text with
  | nil => rfl
  | cons char text ih =>
    rw [mem_cons, not_or] at noColon noHex
    have first : ¬ char = ':' := fun same => noColon.1 same.symm
    simp [needsExpansion, first, ih noColon.2 noHex.2, startsHex_eq_false noHex.2]

theorem needsExpansion_append {front : List Char} (noDot : '.' ∉ front) (noColon : ':' ∉ front) (text : List Char) :
    needsExpansion (front ++ text) = needsExpansion text := by
  induction front with
  | nil => rfl
  | cons char _ ih =>
    rw [mem_cons, not_or] at noDot noColon
    have dot : ¬ char = '.' := fun same => noDot.1 same.symm
    have colon : ¬ char = ':' := fun same => noColon.1 same.symm
    simp [needsExpansion, dot, colon, ih noDot.2 noColon.2]

theorem bne_of_notMem {text : List Char} {mark : Char} (absent : mark ∉ text) :
    ∀ char ∈ text, (char != mark) = true := by
  intro char member
  have other : char ≠ mark := fun same => absent (same ▸ member)
  simpa using other

theorem tnmOidFromString_suffixText {oid : Oid} (filled : oid ≠ []) (short : oid.length < tnmOidMaxSize)
    (bounds : ∀ subid ∈ oid, subid < 2 ^ 32) : tnmOidFromString (suffixText oid) = some (0 :: oid) := by
  have positive := length_pos_iff.mpr filled
  have written : [] ++ partsText (suffixParts oid) ≠ [] := by
    obtain ⟨_, _, rfl⟩ := exists_cons_of_ne_nil filled
    simp [partsText, suffixParts, OidPart.text]
  have converted := tnmOidFromString_parts written (by simp [AllDigits]) (suffixParts_valid oid)
  rw [suffixParts_word bounds, if_neg] at converted
  · rwa [suffixText_eq]
  · simp only [suffixParts, length_map]
    change ¬ (_ ∨ _ ∨ 0 > 2)
    omega

theorem skipComponent_suffixText (subid : Nat) (oid : Oid) :
    skipComponent (suffixText (subid :: oid)) = suffixText oid := by
  have passed : ∀ char ∈ subidText subid, (char != '.') = true := bne_of_notMem fun member =>
    absurd (subidText_isDigit subid '.' member) (by decide)
  rw [suffixText_cons, skipComponent, dropWhile_append_of_pos passed]
  cases oid with
  | nil => rfl
  | cons => rfl

theorem skipComponent_iterate (steps : Nat) (oid : Oid) :
    skipComponent^[steps] (suffixText oid) = suffixText (oid.drop steps) := by
  induction steps generalizing oid with
  | zero => rfl
  | succ _ ih =>
    rw [Function.iterate_succ_apply]
    cases oid with
    | nil =>
      have same := ih []
      rw [drop_nil] at same ⊢
      exact same
    | cons => rw [skipComponent_suffixText, ih, drop_succ_cons]

theorem suffixText_append (oid suffix : Oid) : suffixText (oid ++ suffix) = suffixText oid ++ suffixText suffix := by
  simp [suffixText]

/-- A label that cannot be taken for a module or a number. -/
structure PlainLabel (label : List Char) : Prop where
  first : ∃ char rest, label = char :: rest ∧ char.isUpper = false ∧ char.isDigit = false
  noDot : '.' ∉ label
  noColon : ':' ∉ label
  noMark : '!' ∉ label

theorem tnmMibFindNode_plain (mib : Tables) {name : List Char} (noModule : splitModule name = none)
    (noHex : needsExpansion name = false) (exact : Bool) :
    tnmMibFindNode mib name exact = lookupName mib [] name exact := by
  have same : (tnmHexToOid name).getD name = name := by
    simp [tnmHexToOid, noHex]
  rw [tnmMibFindNode, noModule]
  simp only [Option.getD_none, same, length_nil, Nat.zero_lt_succ, if_true]
  cases found : lookupName mib [] name exact with
  | none => rfl
  | some pair =>
    simp only
    split <;> rfl

theorem splitModule_eq_none {name : List Char} (noMark : '!' ∉ name) (noColon : ':' ∉ name)
    (first : (name.head?.any Char.isUpper && name.contains '.') = false) : splitModule name = none := by
  simp only [splitModule, noMark, dropWhile_eq_nil_iff.mpr (bne_of_notMem noColon), first]
  rfl

section

variable {mib : Tables} {label : List Char} {path suffix : Oid}

theorem labelName_plain (plain : PlainLabel label) (suffix : Oid) :
    splitModule (label ++ suffixText suffix) = none ∧ needsExpansion (label ++ suffixText suffix) = false ∧
      tnmIsOid (label ++ suffixText suffix) = false := by
  obtain ⟨noX, noColon, noMark⟩ := isDotted_other (suffixText_isDotted suffix)
  obtain ⟨char, _, shape, lower, noDigit⟩ := plain.first
  have colons : ':' ∉ label ++ suffixText suffix := by
    simp [plain.noColon, noColon]
  refine ⟨splitModule_eq_none (by simp [plain.noMark, noMark]) colons (by simp [shape, lower]), ?_, ?_⟩
  · rw [needsExpansion_append plain.noDot plain.noColon]
    exact needsExpansion_eq_false noColon noX
  · have noDot : char ≠ '.' := fun same => plain.noDot (by simp [shape, same])
    have noColon : char ≠ ':' := fun same => plain.noColon (by simp [shape, same])
    simp [tnmIsOid, shape, isOidFrom, noDot, noColon, noDigit]

theorem takeWhile_label (noDot : '.' ∉ label) (filled : suffix ≠ []) :
    (label ++ suffixText suffix).takeWhile (· != '.') = label ∧
      (label ++ suffixText suffix).dropWhile (· != '.') = suffixText suffix := by
  have passed := bne_of_notMem noDot
  cases suffix with
  | nil => exact absurd rfl filled
  | cons =>
    rw [suffixText_cons, takeWhile_append_of_pos passed, dropWhile_append_of_pos passed]
    simp

theorem drop_suffixText (front : List Char) (suffix : Oid) (steps : Nat) :
    (front ++ suffixText suffix).drop
        ((front ++ suffixText suffix).length - (suffixText (suffix.drop steps)).length) =
      suffixText (suffix.drop steps) := by
  have split : suffixText suffix = suffixText (suffix.take steps) ++ suffixText (suffix.drop steps) := by
    rw [← suffixText_append, take_append_drop]
  have place : (front ++ suffixText suffix).length - (suffixText (suffix.drop steps)).length =
      (front ++ suffixText (suffix.take steps)).length := by
    rw [split, length_append, length_append, length_append]
    omega
  rw [place, split, ← append_assoc, drop_left]

theorem suffixText_length_le (suffix : Oid) (steps : Nat) :
    (suffixText (suffix.drop steps)).length ≤ (suffixText suffix).length := by
  have split := congrArg length (suffixText_append (suffix.take steps) (suffix.drop steps))
  rw [take_append_drop, length_append] at split
  omega

-- The walk below the label's node is by 0 and the suffix, since the text that is converted begins with the dot.
theorem tnmMibFindNode_label (plain : PlainLabel label) (filled : suffix ≠ [])
    (bounds : ∀ subid ∈ suffix, subid < 2 ^ 32) (short : suffix.length < tnmOidMaxSize)
    (labelled : mib.nodeHashTable label = some (some path))
    (unlabelled : ∀ node, mib.nodeHashTable (label ++ suffixText suffix) ≠ some (some node)) :
    let steps := descend (childrenAt mib.mibTree path) (0 :: suffix)
    tnmMibFindNode mib (label ++ suffixText suffix) false = some (path ++ (0 :: suffix).take steps,
      (((label ++ suffixText suffix).length - (suffixText (suffix.drop steps)).length : Nat) : Int)) := by
  intro steps
  obtain ⟨noModule, noHex, noOid⟩ := labelName_plain plain suffix
  obtain ⟨isName, isOid⟩ := takeWhile_label plain.noDot filled
  obtain ⟨_, _, shape, _⟩ := plain.first
  have oidLike : tnmIsOid (suffixText suffix) = true := tnmIsOid_suffixText suffix
  have written : suffixText suffix ≠ [] := by
    cases suffix with
    | nil => exact absurd rfl filled
    | cons => simp [suffixText_cons]
  have named : label.length ≠ 0 := by simp [shape]
  have behind := suffixText_length_le suffix steps
  have byLabel : lookupLabelOID mib (label ++ suffixText suffix) false = some (path ++ (0 :: suffix).take steps,
      (((label ++ suffixText suffix).length - (suffixText (suffix.drop steps)).length : Nat) : Int)) := by
    rw [lookupLabelOID]
    simp only [isName, isOid, ne_eq, written, not_false_eq_true, oidLike, and_self, if_true, Bool.false_eq_true,
      if_false, labelled, named, tnmOidFromString_suffixText filled short bounds, Option.getD_some]
    rw [skipComponent_iterate]
    change some (path ++ (0 :: suffix).take steps, ((label ++ suffixText suffix).length : Int) -
      (suffixText (suffix.drop steps)).length) = _
    rw [Option.some.injEq, Prod.mk.injEq, length_append]
    exact ⟨rfl, by omega⟩
  rw [tnmMibFindNode_plain mib noModule noHex, lookupName, if_neg (by simp [noOid]), byLabel]
  split
  next node found => exact absurd found (unlabelled node)
  next => rfl

theorem tnmMibFindNode_path {node : MibNode} {children : MibTree}
    (reached : nodeAt mib.mibTree path = some (node, children))
    (bounds : ∀ subid ∈ path ++ suffix, subid < 2 ^ 32) (arc : (path ++ suffix).headD 0 ≤ 2)
    (short : (path ++ suffix).length ≤ tnmOidMaxSize) :
    let steps := descend children suffix
    tnmMibFindNode mib (pathText (path ++ suffix)) false = some (path ++ suffix.take steps,
      if steps = suffix.length then -1
      else ((pathText (path ++ suffix)).length : Int) - (suffixText (suffix.drop steps)).length) := by
  intro steps
  have dotted := pathText_isDotted (path ++ suffix)
  obtain ⟨noX, noColon, noMark⟩ := isDotted_other dotted
  have nonempty : path ≠ [] := by
    rintro rfl
    cases reached
  obtain ⟨subid, rest, rfl⟩ := exists_cons_of_ne_nil nonempty
  have first : (pathText (subid :: rest ++ suffix)).head?.any Char.isUpper = false := by
    obtain ⟨digit, _, _, shape⟩ := subidText_head subid (suffixText (rest ++ suffix))
    have upper : (digitChar digit).isUpper = false := by
      interval_cases digit <;> decide
    rw [cons_append, pathText, shape]
    simpa using upper
  obtain ⟨_, below, found, deeper⟩ := nodeAt_cons reached
  have restBounds : ∀ other ∈ rest ++ suffix, other < 2 ^ 32 := (forall_mem_cons.mp bounds).2
  have small : subid ≤ 2 := arc
  rw [tnmMibFindNode_plain mib (splitModule_eq_none noMark noColon (by rw [first]; rfl))
      (needsExpansion_eq_false noColon noX), lookupName, cons_append, if_pos (tnmIsOid_pathText subid (rest ++ suffix)),
    lookupOID_pathText mib.mibTree false small restBounds (by simpa using short), found, Option.bind_some]
  simp only [deeper, length_append, Nat.add_right_inj, Bool.false_eq_true, if_false]
  split
  next whole =>
    rw [show steps = suffix.length from whole, take_length]
    rfl
  next inside =>
    rw [take_append, take_of_length_le (Nat.le_add_right _ _), drop_append,
      drop_eq_nil_of_le (Nat.le_add_right _ _), Nat.add_sub_cancel_left]
    rfl

end

theorem take_cons_zero_iff (oid : Oid) {steps : Nat} (inside : steps ≤ oid.length) :
    (0 :: oid).take steps = oid.take steps ↔ ∀ subid ∈ oid.take steps, subid = 0 := by
  induction steps generalizing oid with
  | zero => simp
  | succ steps ih =>
    cases oid with
    | nil => simp at inside
    | cons subid oid =>
      rw [take_succ_cons, take_succ_cons, List.cons.injEq, forall_mem_cons, ← ih oid (by simpa using inside)]
      constructor
      · rintro ⟨rfl, same⟩
        exact ⟨rfl, same⟩
      · rintro ⟨rfl, same⟩
        exact ⟨rfl, same⟩

/-- The label with the suffix is the identifier of its node with the suffix, and both names find the same node and
leave the same rest. -/
def StandsFor (mib : Tables) (label : List Char) (path suffix : Oid) : Prop :=
  tnmMibGetOid mib (label ++ suffixText suffix) = some (some (pathText (path ++ suffix))) ∧
    ∃ node rest first second, tnmMibFindNode mib (label ++ suffixText suffix) false = some (node, first) ∧
      tnmMibFindNode mib (pathText (path ++ suffix)) false = some (node, second) ∧
      Denotes (label ++ suffixText suffix) first rest ∧ Denotes (pathText (path ++ suffix)) second rest

theorem tnmMibGetOid_found {mib : Tables} {label : List Char} {path suffix : Oid} (plain : PlainLabel label)
    {offset : Nat}
    (positive : 0 < offset)
    (found : tnmMibFindNode mib (label ++ suffixText suffix) false = some (path, (offset : Int))) :
    tnmMibGetOid mib (label ++ suffixText suffix) =
      let text := pathText path ++ (label ++ suffixText suffix).drop offset
      if text.length < tnmOidMaxSize * 8 then some (some text) else none := by
  obtain ⟨_, noHex, noOid⟩ := labelName_plain plain suffix
  have expanded : (tnmHexToOid (label ++ suffixText suffix)).getD (label ++ suffixText suffix) =
      label ++ suffixText suffix := by
    simp [tnmHexToOid, noHex]
  have isRest : ((offset : Nat) : Int) > 0 := by omega
  rw [tnmMibGetOid]
  simp only [expanded, found, noOid, Bool.false_eq_true, if_false, if_pos isRest, Int.toNat_natCast]

def internetTables (children : MibTree) : Tables where
  mibTree :=
    .node 1 ⟨"iso".toList, none⟩
      (.node 3 ⟨"org".toList, none⟩ (.node 6 ⟨"dod".toList, none⟩ children .nil) .nil) .nil
  nodeHashTable label :=
    if label = "org".toList then some (some [1, 3]) else if label = "dod".toList then some (some [1, 3, 6]) else none

end Tnm.Mib
