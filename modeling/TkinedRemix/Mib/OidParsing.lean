import TkinedRemix.Mib.NodeLookup

/-!
The strings that `TnmOidFromString` takes, and the older way over `TnmHexToOid` and `TnmStrToOid`.
-/

namespace Tnm.Mib

open List

structure Listed (first : List Char) (parts : List OidPart) : Prop where
  first : first ≠ [] ∧ AllDigits false first ∧ digitsNumber false first < 2 ^ 32
  parts : ∀ part ∈ parts, part.digits ≠ [] ∧ part.Valid ∧ part.number < 2 ^ 32

theorem pathText_eq (oid : Oid) : (dottedText oid).dropLast = pathText oid := by
  induction oid with
  | nil => rfl
  | cons _ oid ih =>
    rw [dottedText_dropLast, pathText]
    cases oid with
    | nil => rfl
    | cons => rw [if_neg (cons_ne_nil _ _), ih, pathText, suffixText_cons]

variable {text : List Char}

theorem tnmOidFromString_toString {oid : Oid} (short : oid.length ≤ tnmOidMaxSize)
    (bounds : ∀ subid ∈ oid, subid < 2 ^ 32) (written : tnmOidToString oid = some (String.ofList text)) :
    tnmOidFromString text = if oid = [] ∨ LegalOid oid then some oid else none := by
  obtain ⟨_, same⟩ := tnmOidToStr_eq_some.mp written
  rw [show text = pathText oid from (String.ofList_injective same).trans (pathText_eq oid)]
  cases oid with
  | nil => rfl
  | cons subid oid =>
    rw [tnmOidFromString_pathText bounds]
    rw [length_cons] at short
    by_cases legal : LegalOid (subid :: oid)
    · have parts : 2 ≤ oid.length + 1 ∧ subid ≤ 2 := legal
      rw [if_neg (by omega), if_pos (.inr legal)]
    · have parts : ¬ (2 ≤ oid.length + 1 ∧ subid ≤ 2) := legal
      rw [if_pos (by omega), if_neg (not_or.mpr ⟨cons_ne_nil _ _, legal⟩)]

theorem tnmOidFromString_list (text : List Char) : (text = [] → tnmOidFromString text = some []) ∧
    (∀ first parts, Listed first parts → text = first ++ partsText parts → tnmOidFromString text =
      if parts.length + 1 > tnmOidMaxSize ∨ parts.length = 0 ∨ digitsNumber false first > 2 then none
      else some (digitsNumber false first :: parts.map OidPart.number)) ∧
    ((tnmOidFromString text).isSome → text = [] ∨ ∃ first parts, text = first ++ partsText parts ∧
      AllDigits false first ∧ ∀ part ∈ parts, part.Loose) ∧
    (∀ oid, oid.length ≤ tnmOidMaxSize → (∀ subid ∈ oid, subid < 2 ^ 32) →
      tnmOidToString oid = some (String.ofList text) →
      tnmOidFromString text = if oid = [] ∨ LegalOid oid then some oid else none) := by
  refine ⟨?_, ?_, ?_, fun oid short bounds written => tnmOidFromString_toString short bounds written⟩
  · rintro rfl
    rfl
  · rintro _ parts listed rfl
    obtain ⟨nonempty, decimal, bound⟩ := listed.first
    have words : parts.map OidPart.word = parts.map OidPart.number :=
      map_congr_left fun part member => Nat.mod_eq_of_lt (listed.parts part member).2.2
    rw [tnmOidFromString_parts (by simp [nonempty]) decimal fun part member => (listed.parts part member).2.1,
      Nat.mod_eq_of_lt bound, words]
  · intro accepted
    by_cases empty : text = []
    · exact .inl empty
    · right
      rw [tnmOidFromString, if_neg empty] at accepted
      cases counted : countSeparators text ⟨false, 0⟩ with
      | none =>
        rw [counted] at accepted
        cases accepted
      | some =>
        obtain ⟨first, parts, rfl, plain, all⟩ := parts_of_text text
        obtain ⟨decimal, rest⟩ := (countSeparators_digits plain).mp counted
        exact ⟨first, parts, rfl, decimal, loose_of_countSeparators all rest⟩

theorem tnmOidFromString_restricted :
    tnmOidFromString "1".toList = none ∧ tnmOidFromString "3.1".toList = none ∧ tnmOidFromString [] = some [] := by
  decide

/-- What `TnmHexToOid` writes for a part: a colon is only looked at in front of a decimal digit. -/
def OidPart.expanded : OidPart → List Char
  | .dotted digits => '.' :: digits
  | .hexadecimal digits => '.' :: signedText (hexWord digits)
  | .colon digits => if digits.head?.any Char.isDigit then '.' :: signedText (hexWord digits) else ':' :: digits

/-- The outer `none` is a text that runs over the end of its buffer. -/
def olderOid (text : List Char) : Option (Option Oid) :=
  match tnmHexToOid text with
  | none => some (tnmStrToOid (String.ofList text))
  | some expanded => if expanded.length < tnmOidMaxSize * 8 then some (tnmStrToOid (String.ofList expanded)) else none

theorem expandHex_char {char : Char} (other : char ≠ '.' ∧ char ≠ ':') (fuel : Nat) (rest : List Char) :
    expandHex (fuel + 1) (char :: rest) = char :: expandHex fuel rest := by
  simp [expandHex, other.1, other.2]

variable {digits : List Char} {fuel : Nat}

theorem expandHex_digits (plain : NoSeparator digits) (rest : List Char)
    (enough : digits.length ≤ fuel) :
    expandHex fuel (digits ++ rest) = digits ++ expandHex (fuel - digits.length) rest := by
  induction digits generalizing fuel with
  | nil => rfl
  | cons _ _ ih =>
    obtain ⟨other, plain⟩ := forall_mem_cons.mp plain
    obtain ⟨fuel, rfl⟩ := Nat.exists_eq_succ_of_ne_zero (by simp at enough; omega : fuel ≠ 0)
    rw [cons_append, expandHex_char other, ih plain (by simpa using enough)]
    simp

theorem span_digits (all : AllDigits true digits) (parts : List OidPart) :
    (digits ++ partsText parts).takeWhile isHexDigit = digits ∧
      (digits ++ partsText parts).dropWhile isHexDigit = partsText parts := by
  have stops : (partsText parts).takeWhile isHexDigit = [] ∧ (partsText parts).dropWhile isHexDigit =
      partsText parts := by
    cases parts with
    | nil => exact ⟨rfl, rfl⟩
    | cons part => cases part <;> exact ⟨rfl, rfl⟩
  have all : ∀ char ∈ digits, isHexDigit char = true := all
  rw [takeWhile_append_of_pos all, dropWhile_append_of_pos all, stops.1, stops.2, append_nil]
  exact ⟨rfl, rfl⟩

variable {parts : List OidPart}

theorem expandHex_parts (loose : ∀ part ∈ parts, part.Loose) (enough : (partsText parts).length ≤ fuel) :
    expandHex fuel (partsText parts) = parts.flatMap OidPart.expanded := by
  induction parts generalizing fuel with
  | nil => cases fuel <;> rfl
  | cons part parts ih =>
    rw [forall_mem_cons] at loose
    obtain ⟨isLoose, loose⟩ := loose
    rw [partsText_cons, length_append] at enough
    obtain ⟨fuel, rfl⟩ :=
      Nat.exists_eq_succ_of_ne_zero (by cases part <;> simp [OidPart.text] at enough <;> omega : fuel ≠ 0)
    rw [partsText_cons, flatMap_cons]
    have all : AllDigits true part.digits := isLoose
    obtain ⟨taken, left⟩ := span_digits all parts
    cases part with
    | dotted digits =>
      simp only [OidPart.text, length_cons, OidPart.digits] at enough all
      have copied : (('.' == ':' && ((digits ++ partsText parts).head?.any Char.isDigit)) ||
          ('.' == '.' && startsHex (digits ++ partsText parts))) = false := by
        have decimal : startsHex digits = false := isLoose.plain.decimal rfl
        rw [startsHex_parts, decimal]
        rfl
      rw [OidPart.text, cons_append, expandHex, copied,
        expandHex_digits all.plain _ (by omega), ih loose (by omega)]
      rfl
    | hexadecimal digits =>
      simp only [OidPart.text, length_cons, OidPart.digits] at enough taken left
      have next := ih loose (by omega : (partsText parts).length ≤ fuel)
      rw [OidPart.text, cons_append, cons_append, cons_append, expandHex]
      simp only [if_neg (by decide : ¬ '.' = ':'), drop_succ_cons, drop_zero, taken, left, next]
      rfl
    | colon digits =>
      simp only [OidPart.text, length_cons, OidPart.digits] at enough all taken left
      have next := ih loose (by omega : (partsText parts).length ≤ fuel)
      have head : (digits ++ partsText parts).head?.any Char.isDigit = digits.head?.any Char.isDigit := by
        cases digits with
        | nil => cases parts with
          | nil => rfl
          | cons part => cases part <;> rfl
        | cons => rfl
      by_cases converts : digits.head?.any Char.isDigit = true
      · rw [OidPart.text, cons_append, expandHex, head, converts, OidPart.expanded, if_pos converts]
        simp only [beq_self_eq_true, Bool.and_true, Bool.true_or, if_true, taken, left, next]
      · have copied : ((':' == ':' && ((digits ++ partsText parts).head?.any Char.isDigit)) ||
            (':' == '.' && startsHex (digits ++ partsText parts))) = false := by
          rw [head, Bool.eq_false_of_not_eq_true converts]
          rfl
        rw [OidPart.text, cons_append, expandHex, copied, OidPart.expanded, if_neg converts,
          expandHex_digits all.plain _ (by omega), ih loose (by omega)]
        rfl

theorem expandHex_copies (plain : needsExpansion text = false) (enough : text.length ≤ fuel) :
    expandHex fuel text = text := by
  induction text generalizing fuel with
  | nil => cases fuel <;> rfl
  | cons _ _ ih =>
    obtain ⟨fuel, rfl⟩ := Nat.exists_eq_succ_of_ne_zero (by simp at enough; omega : fuel ≠ 0)
    rw [needsExpansion, Bool.or_eq_false_iff] at plain
    rw [expandHex, plain.1, if_neg Bool.false_ne_true, ih plain.2 (by simpa using enough)]

/-- The text that `TnmStrToOid` is given, where it fits into the buffer. -/
def HexFits (text : List Char) : Prop :=
  needsExpansion text = true → (expandHex text.length text).length < tnmOidMaxSize * 8

theorem olderOid_eq_some {oid : Option Oid} :
    olderOid text = some oid ↔ HexFits text ∧ tnmStrToOid (String.ofList (expandHex text.length text)) = oid := by
  rw [olderOid, tnmHexToOid, HexFits]
  by_cases expands : needsExpansion text = true
  · rw [if_pos expands]
    simp [expands]
  · rw [expandHex_copies (Bool.eq_false_of_not_eq_true expands) (le_rfl)]
    simp [expands]

theorem scanOid_foreign {char : Char} (member : char ∈ text) (noDigit : char.isDigit = false) (noDot : char ≠ '.')
    (done : Oid) (subid : Nat) : scanOid text done subid = none := by
  induction text generalizing done subid with
  | nil => cases member
  | cons _ _ ih =>
    rw [scanOid]
    rcases mem_cons.mp member with rfl | member
    · rw [noDigit, if_neg Bool.false_ne_true, if_neg fun both => noDot both.1]
    · rw [ih member, ih member]
      split
      next => rfl
      next => split <;> rfl

theorem scanOid_digits (decimal : AllDigits false digits) (rest : List Char) (done : Oid) (number : Nat) :
    scanOid (digits ++ rest) done (number % 2 ^ 32) =
      scanOid rest done (digits.foldl (takeDigit false) number % 2 ^ 32) := by
  induction digits generalizing number with
  | nil => rfl
  | cons char _ ih =>
    obtain ⟨valid, decimal⟩ := allDigits_cons.mp decimal
    have step : (10 * (number % 2 ^ 32) + (char.toNat - 48)) % 2 ^ 32 = takeDigit false number char % 2 ^ 32 :=
      @takeDigit_mod char false number
    rw [cons_append, scanOid, if_pos (show char.isDigit = true from valid), step, ih decimal, foldl_cons]

/-- What is written for the part is read back. -/
def OidPart.Convertible (part : OidPart) : Prop :=
  match part with
  | .dotted _ => True
  | .hexadecimal _ => part.word < 2 ^ 31
  | .colon digits => digits.head?.any Char.isDigit = true ∧ part.word < 2 ^ 31

instance (part : OidPart) : Decidable part.Convertible := by
  cases part <;> unfold OidPart.Convertible <;> infer_instance

theorem hexWord_eq (digits : List Char) : hexWord digits = digitsNumber true digits % 2 ^ 32 :=
  @foldl_takeDigit true digits 0

theorem signedText_read {word : Nat} (positive : word < 2 ^ 31) (rest : List Char) (done : Oid) :
    scanOid (signedText word ++ rest) done 0 = scanOid rest done word := by
  rw [signedText, if_pos positive, scanOid_subidText (by omega)]

variable {part : OidPart}

theorem expanded_read (valid : part.Valid) (convertible : part.Convertible) : ∃ digits, part.expanded = '.' :: digits ∧
      ∀ rest done, scanOid (digits ++ rest) done 0 = scanOid rest done part.word := by
  cases part with
  | dotted digits => exact ⟨digits, rfl, fun rest done => scanOid_digits valid rest done 0⟩
  | hexadecimal =>
    refine ⟨_, rfl, fun rest done => ?_⟩
    rw [hexWord_eq]
    exact signedText_read convertible rest done
  | colon =>
    refine ⟨_, if_pos convertible.1, fun rest done => ?_⟩
    rw [hexWord_eq]
    exact signedText_read convertible.2 rest done

theorem expanded_foreign (unconvertible : ¬ part.Convertible) :
    ∃ char ∈ part.expanded, char.isDigit = false ∧ char ≠ '.' := by
  have negative : ∀ digits, ¬ hexWord digits < 2 ^ 31 → '-' ∈ '.' :: signedText (hexWord digits) := by
    intro digits large
    rw [signedText, if_neg large]
    simp
  cases part with
  | dotted => exact absurd trivial unconvertible
  | hexadecimal digits =>
    refine ⟨'-', negative digits ?_, by decide, by decide⟩
    rw [hexWord_eq]
    exact unconvertible
  | colon digits =>
    rw [OidPart.expanded]
    split
    next decimal =>
      refine ⟨'-', negative digits ?_, by decide, by decide⟩
      rw [hexWord_eq]
      exact fun small => unconvertible ⟨decimal, small⟩
    next => exact ⟨':', mem_cons_self, by decide, by decide⟩

theorem scanOid_parts (valid : ∀ part ∈ parts, part.Valid) (convertible : ∀ part ∈ parts, part.Convertible)
    {done : Oid} (short : done.length < tnmOidMaxSize) (subid : Nat) :
    scanOid (parts.flatMap OidPart.expanded) done subid =
      if done.length + parts.length < tnmOidMaxSize then some (done ++ subid :: parts.map OidPart.word) else none := by
  induction parts generalizing done subid with
  | nil =>
    rw [length_nil, Nat.add_zero, if_pos short]
    rfl
  | cons _ parts ih =>
    rw [forall_mem_cons] at valid convertible
    obtain ⟨_, shape, read⟩ := expanded_read valid.1 convertible.1
    rw [flatMap_cons, shape, cons_append, scanOid, if_neg (by decide), length_cons]
    by_cases room : done.length < tnmOidMaxSize - 1
    · rw [if_pos ⟨rfl, room⟩, read, ih valid.2 convertible.2 (by rw [length_append]; simp; omega), length_append]
      simp only [length_singleton, append_assoc, singleton_append, map_cons,
        show done.length + 1 + parts.length = done.length + (parts.length + 1) by omega]
    · rw [if_neg fun both => room both.2, if_neg (by omega)]

/-- `TnmStrToOid` behind a leading dot. -/
def readOid (chars : List Char) : Option Oid :=
  if chars = [] then some []
  else
    match scanOid chars [] 0 with
    | some oid => if oid.length < 2 ∨ oid.headD 0 > 2 then none else some oid
    | none => none

theorem tnmStrToOid_dot (rest : List Char) : tnmStrToOid (String.ofList ('.' :: rest)) = readOid rest := by
  rw [tnmStrToOid, String.toList_ofList]
  rfl

theorem tnmStrToOid_noDot (noDot : text.head? ≠ some '.') : tnmStrToOid (String.ofList text) = readOid text := by
  rw [tnmStrToOid, String.toList_ofList]
  cases text with
  | nil => rfl
  | cons char =>
    have other : char ≠ '.' := fun same => noDot (by rw [same]; rfl)
    split
    next same => exact absurd (cons.inj same).1 other
    next => rfl

theorem readOid_parts {word : Nat} (read : ∀ rest done, scanOid (digits ++ rest) done 0 = scanOid rest done word)
    (valid : ∀ part ∈ parts, part.Valid) (convertible : ∀ part ∈ parts, part.Convertible)
    (filled : digits ++ parts.flatMap OidPart.expanded ≠ []) : readOid (digits ++ parts.flatMap OidPart.expanded) =
      if parts.length + 1 > tnmOidMaxSize ∨ parts.length = 0 ∨ word > 2 then none
      else some (word :: parts.map OidPart.word) := by
  rw [readOid, if_neg filled, read, scanOid_parts valid convertible (by decide)]
  simp only [length_nil, Nat.zero_add, nil_append]
  by_cases long : parts.length < tnmOidMaxSize
  · rw [if_pos long]
    simp only [length_cons, length_map, headD_cons]
    by_cases refused : parts.length = 0 ∨ word > 2
    · rw [if_pos (by omega), if_pos (.inr refused)]
    · rw [if_neg (by omega), if_neg (by omega)]
  · rw [if_neg long, if_pos (by omega)]

/-- The older way gives what the newer one gives. -/
def Agrees (first : List Char) (parts : List OidPart) : Prop :=
  if first = [] ∧ parts ≠ [] then tnmOidMaxSize ≤ parts.length ∧
    ((∃ part ∈ parts, ¬ part.Convertible) ∨ tnmOidMaxSize < parts.length ∨ (parts.map OidPart.word).headD 0 > 2)
  else (∀ part ∈ parts, part.Convertible) ∨ tnmOidMaxSize ≤ parts.length ∨ digitsNumber false first % 2 ^ 32 > 2

theorem unconvertible_fails {first : List Char} (unconvertible : ∃ part ∈ parts, ¬ part.Convertible) :
    tnmStrToOid (String.ofList (first ++ parts.flatMap OidPart.expanded)) = none := by
  obtain ⟨part, member, foreign⟩ := unconvertible
  obtain ⟨char, inside, noDigit, noDot⟩ := expanded_foreign foreign
  have found : char ∈ first ++ parts.flatMap OidPart.expanded :=
    mem_append_right _ (mem_flatMap.mpr ⟨part, member, inside⟩)
  have fails : ∀ chars : List Char, char ∈ chars → readOid chars = none := by
    intro _ member
    rw [readOid, if_neg (ne_nil_of_mem member), scanOid_foreign member noDigit noDot]
  generalize first ++ parts.flatMap OidPart.expanded = text at found
  by_cases dot : text.head? = some '.'
  · obtain ⟨rest, rfl⟩ : ∃ rest, text = '.' :: rest := by
      cases text with
      | nil => cases dot
      | cons _ rest => exact ⟨rest, by rw [Option.some.inj dot]⟩
    rw [tnmStrToOid_dot, fails rest ((mem_cons.mp found).resolve_left noDot)]
  · rw [tnmStrToOid_noDot dot, fails text found]

theorem ite_none_eq {α : Type} {condition : Prop} [Decidable condition] {value : α} :
    (none = if condition then none else some value) ↔ condition := by
  by_cases holds : condition <;> simp

theorem agrees_separator : Agrees [] (part :: parts) ↔ tnmOidMaxSize ≤ parts.length + 1 ∧
      ((∃ other ∈ part :: parts, ¬ other.Convertible) ∨ tnmOidMaxSize < parts.length + 1 ∨ part.word > 2) := by
  rfl

theorem agrees_of_separator (valid : ∀ other ∈ part :: parts, other.Valid) :
    tnmStrToOid (String.ofList ((part :: parts).flatMap OidPart.expanded)) =
      tnmOidFromString (partsText (part :: parts)) ↔
      Agrees [] (part :: parts) := by
  have filled : [] ++ partsText (part :: parts) ≠ [] := by cases part <;> simp [partsText, OidPart.text]
  have newer := tnmOidFromString_parts filled (by simp [AllDigits]) valid
  rw [nil_append] at newer
  have zero : digitsNumber false [] % 2 ^ 32 = 0 := rfl
  have size : tnmOidMaxSize = 128 := rfl
  rw [newer, agrees_separator, zero, length_cons]
  by_cases convertible : ∀ other ∈ part :: parts, other.Convertible
  · obtain ⟨digits, shape, read⟩ := expanded_read (valid part mem_cons_self) (convertible part mem_cons_self)
    have good : ¬ ∃ other ∈ part :: parts, ¬ other.Convertible := by
      rintro ⟨other, member, bad⟩
      exact bad (convertible other member)
    rw [flatMap_cons, shape, cons_append, tnmStrToOid_dot]
    by_cases empty : digits ++ parts.flatMap OidPart.expanded = []
    · have none : parts = [] := by
        obtain ⟨_, none⟩ := append_eq_nil_iff.mp empty
        cases parts with
        | nil => rfl
        | cons next =>
          obtain ⟨_, nextShape, _⟩ := expanded_read (valid next (by simp)) (convertible next (by simp))
          rw [flatMap_cons, nextShape] at none
          cases none
      rw [empty, none]
      refine iff_of_false ?_ fun long => absurd long.1 (by decide)
      intro same
      cases same
    · rw [readOid_parts read (fun other member => valid other (mem_cons_of_mem _ member))
        (fun other member => convertible other (mem_cons_of_mem _ member)) empty]
      by_cases long : tnmOidMaxSize ≤ parts.length + 1
      · have refused : parts.length + 1 + 1 > tnmOidMaxSize ∨ parts.length + 1 = 0 ∨ 0 > 2 := .inl (by omega)
        rw [if_pos refused, eq_comm, ite_none_eq]
        simp only [good, false_or]
        omega
      · refine iff_of_false ?_ fun both => long both.1
        have taken : ¬ (parts.length + 1 + 1 > tnmOidMaxSize ∨ parts.length + 1 = 0 ∨ 0 > 2) := by omega
        split
        next =>
          intro same
          cases same
        next =>
          intro same
          have lengths := congrArg List.length (Option.some.inj same)
          simp only [length_cons, length_map] at lengths
          omega
  · have bad : ∃ other ∈ part :: parts, ¬ other.Convertible := by
      obtain ⟨other, bad⟩ := not_forall.mp convertible
      exact ⟨other, Classical.not_imp.mp bad⟩
    have fails := @unconvertible_fails _ [] bad
    rw [nil_append] at fails
    rw [fails, ite_none_eq]
    simp only [bad, true_or, and_true]
    omega

theorem agrees_iff {first : List Char} (decimal : AllDigits false first) (valid : ∀ part ∈ parts, part.Valid) :
    tnmStrToOid (String.ofList (first ++ parts.flatMap OidPart.expanded)) =
      tnmOidFromString (first ++ partsText parts) ↔
      Agrees first parts := by
  cases first with
  | nil =>
    cases parts with
    | nil => exact iff_of_true (by decide) (by rw [Agrees]; exact .inl nofun)
    | cons => exact agrees_of_separator valid
  | cons char digits =>
    have started : ¬ (char :: digits = [] ∧ parts ≠ []) := fun both => cons_ne_nil _ _ both.1
    rw [tnmOidFromString_parts (by simp) decimal valid, Agrees, if_neg started]
    by_cases convertible : ∀ part ∈ parts, part.Convertible
    · refine iff_of_true ?_ (.inl convertible)
      have noDot : ((char :: digits) ++ parts.flatMap OidPart.expanded).head? ≠ some '.' :=
        fun same => (decimal.plain char mem_cons_self).1 (Option.some.inj same)
      rw [tnmStrToOid_noDot noDot,
        readOid_parts (fun rest done => scanOid_digits decimal rest done 0) valid convertible (by simp)]
      rfl
    · have bad : ∃ part ∈ parts, ¬ part.Convertible := by simpa using convertible
      have nonempty : 0 < parts.length := by
        obtain ⟨_, member, _⟩ := bad
        exact length_pos_of_mem member
      rw [unconvertible_fails bad, ite_none_eq]
      simp only [convertible, false_or]
      omega

theorem parts_of_isOid (accepted : tnmIsOid text = true) :
    ∃ first parts, text = first ++ partsText parts ∧ AllDigits false first ∧ ∀ part ∈ parts, part.Valid := by
  obtain ⟨first, parts, rfl, plain, all⟩ := parts_of_text text
  obtain ⟨decimal, rest⟩ := (isOidFrom_digits plain).mp accepted
  exact ⟨first, parts, rfl, decimal, (isOidFrom_parts all).mp rest⟩

theorem olderOid_agrees_iff (text : List Char) (accepted : tnmIsOid text = true) :
    olderOid text = some (tnmOidFromString text) ↔ HexFits text ∧ ∃ first parts, text = first ++ partsText parts ∧
      AllDigits false first ∧ (∀ part ∈ parts, part.Valid) ∧ Agrees first parts := by
  have expanded : ∀ first parts, text = first ++ partsText parts → AllDigits false first →
    (∀ part ∈ parts, part.Valid) →
      expandHex text.length text = first ++ parts.flatMap OidPart.expanded := by
    rintro first parts rfl decimal valid
    rw [expandHex_digits decimal.plain _ (by simp),
      expandHex_parts (fun part member => (valid part member).hex) (by simp)]
  rw [olderOid_eq_some, and_congr_right_iff]
  intro _
  constructor
  · intro same
    obtain ⟨first, parts, shape, decimal, valid⟩ := parts_of_isOid accepted
    refine ⟨first, parts, shape, decimal, valid, (agrees_iff decimal valid).mp ?_⟩
    rw [← expanded first parts shape decimal valid, ← shape]
    exact same
  · rintro ⟨first, parts, shape, decimal, valid, agrees⟩
    rw [expanded first parts shape decimal valid, (agrees_iff decimal valid).mpr agrees, ← shape]

theorem olderOid_agrees_example : olderOid "1.3.0x1F:2".toList = some (tnmOidFromString "1.3.0x1F:2".toList) := by
  refine (olderOid_agrees_iff "1.3.0x1F:2".toList (by decide)).mpr ⟨fun _ => by decide, ['1'],
    [.dotted ['3'], .hexadecimal ['1', 'F'], .colon ['2']], rfl,
    by simp [AllDigits, validDigit], ?_, ?_⟩
  · simp [OidPart.Valid, OidPart.isHex, OidPart.digits, AllDigits, validDigit, isHexDigit]
  · exact .inl (by decide)

theorem olderOid_differs :
    olderOid ".1.3".toList = some (some [1, 3]) ∧ tnmOidFromString ".1.3".toList = some [0, 1, 3] ∧
    olderOid "1:a".toList = some none ∧ tnmOidFromString "1:a".toList = some [1, 10] ∧
    olderOid "1.0x80000000".toList = some none ∧ tnmOidFromString "1.0x80000000".toList = some [1, 2147483648] := by
  decide

end Tnm.Mib
