import TkinedRemix.Mib.Lookup
import TkinedRemix.Snmp.OidText

/-!
Object identifiers as strings: a dot is followed by decimal digits, a colon or `.0x` by hexadecimal digits. The
scanners are followed from part to part.
-/

namespace Tnm.Mib

open Lib List

inductive OidPart where
  | dotted (digits : List Char)
  | hexadecimal (digits : List Char)
  | colon (digits : List Char)

namespace OidPart

def text : OidPart → List Char
  | .dotted digits => '.' :: digits
  | .hexadecimal digits => '.' :: '0' :: 'x' :: digits
  | .colon digits => ':' :: digits

def digits : OidPart → List Char
  | .dotted digits | .hexadecimal digits | .colon digits => digits

def isHex : OidPart → Bool
  | .dotted _ => false
  | .hexadecimal _ | .colon _ => true

end OidPart

def partsText (parts : List OidPart) : List Char := parts.flatMap OidPart.text

def validDigit (isHex : Bool) (char : Char) : Bool := if isHex then isHexDigit char else char.isDigit

def AllDigits (isHex : Bool) (digits : List Char) : Prop := ∀ char ∈ digits, validDigit isHex char = true

def OidPart.Valid (part : OidPart) : Prop := AllDigits part.isHex part.digits

def OidPart.Loose (part : OidPart) : Prop := AllDigits true part.digits

def NoSeparator (digits : List Char) : Prop := ∀ char ∈ digits, char ≠ '.' ∧ char ≠ ':'

/-- A dot is followed by `0x` only in a hexadecimal part. -/
structure OidPart.Plain (part : OidPart) : Prop where
  digits : NoSeparator part.digits
  decimal : part.isHex = false → startsHex part.digits = false

def takeDigit (isHex : Bool) (number : Nat) (char : Char) : Nat :=
  if isHex then number * 16 + hexDigit char else 10 * number + (char.toNat - 48)

def digitsNumber (isHex : Bool) (digits : List Char) : Nat := digits.foldl (takeDigit isHex) 0

def OidPart.number (part : OidPart) : Nat := digitsNumber part.isHex part.digits

def OidPart.word (part : OidPart) : Nat := part.number % 2 ^ 32

variable {digits : List Char}

theorem AllDigits.hex {isHex : Bool} (all : AllDigits isHex digits) : AllDigits true digits := by
  intro char member
  have valid := all char member
  cases isHex with
  | false => simp only [validDigit, isHexDigit, Bool.false_eq_true, if_false] at valid ⊢; simp [valid]
  | true => exact valid

theorem AllDigits.weaken (all : AllDigits false digits) (isHex : Bool) : AllDigits isHex digits := by
  cases isHex with
  | false => exact all
  | true => exact all.hex

theorem allDigits_cons {isHex : Bool} {char : Char} :
    AllDigits isHex (char :: digits) ↔ validDigit isHex char = true ∧ AllDigits isHex digits := forall_mem_cons

theorem AllDigits.plain {isHex : Bool} (all : AllDigits isHex digits) : NoSeparator digits := by
  intro char member
  have valid := all.hex char member
  constructor <;> rintro rfl <;> exact absurd valid (by decide)

theorem partsText_cons (part : OidPart) (parts : List OidPart) :
    partsText (part :: parts) = part.text ++ partsText parts := by
  simp [partsText]

theorem startsHex_parts (digits : List Char) (parts : List OidPart) :
    startsHex (digits ++ partsText parts) = startsHex digits := by
  match digits with
  | [] | [_] =>
    cases parts with
    | nil => rfl
    | cons part => cases part <;> simp [startsHex, partsText, OidPart.text]
  | _ :: _ :: _ => rfl

theorem OidPart.Loose.plain {part : OidPart} (loose : part.Loose) : part.Plain := by
  refine ⟨AllDigits.plain loose, fun _ => ?_⟩
  rw [startsHex, beq_eq_false_iff_ne]
  intro front
  have valid := loose 'x' (mem_of_mem_take (show 'x' ∈ part.digits.take 2 by rw [front]; simp))
  exact absurd valid (by decide)

theorem OidPart.Valid.plain {part : OidPart} (valid : part.Valid) : part.Plain :=
  OidPart.Loose.plain (AllDigits.hex valid)

theorem parts_of_text (text : List Char) : ∃ digits parts, text = digits ++ partsText parts ∧
    NoSeparator digits ∧ ∀ part ∈ parts, part.Plain := by
  induction text with
  | nil => exact ⟨[], [], rfl, nofun, nofun⟩
  | cons char _ ih =>
    obtain ⟨digits, parts, rfl, plain, all⟩ := ih
    -- a separator starts a part with the digits that follow
    have starts : ∀ part : OidPart, part.text = char :: digits → part.Plain → ∃ front others,
        char :: (digits ++ partsText parts) = front ++ partsText others ∧
        NoSeparator front ∧ ∀ part ∈ others, part.Plain := fun part shape isPlain =>
      ⟨[], part :: parts, by rw [partsText_cons, shape]; rfl, nofun, forall_mem_cons.mpr ⟨isPlain, all⟩⟩
    by_cases dot : char = '.'
    · subst dot
      by_cases hex : startsHex digits = true
      · have shape : '0' :: 'x' :: digits.drop 2 = digits :=
          (congrArg (· ++ digits.drop 2) (eq_of_beq hex)).symm.trans (take_append_drop 2 digits)
        exact starts (.hexadecimal (digits.drop 2)) (congrArg _ shape)
          ⟨fun char member => plain char (mem_of_mem_drop member), nofun⟩
      · exact starts (.dotted digits) rfl ⟨plain, fun _ => Bool.eq_false_of_not_eq_true hex⟩
    by_cases colon : char = ':'
    · subst colon
      exact starts (.colon digits) rfl ⟨plain, nofun⟩
    · exact ⟨char :: digits, parts, rfl, forall_mem_cons.mpr ⟨⟨dot, colon⟩, plain⟩, all⟩

section

variable {char : Char} {isHex : Bool} {rest : List Char}

theorem isOidFrom_char (other : char ≠ '.' ∧ char ≠ ':') :
    isOidFrom (char :: rest) ⟨isHex, 0⟩ = (validDigit isHex char && isOidFrom rest ⟨isHex, 0⟩) := by
  rw [isOidFrom, if_neg other.1, if_neg other.2]
  cases isHex <;> simp [validDigit]

theorem countSeparators_char (other : char ≠ '.' ∧ char ≠ ':') :
    countSeparators (char :: rest) ⟨isHex, 0⟩ =
      if validDigit isHex char then countSeparators rest ⟨isHex, 0⟩ else none := by
  rw [countSeparators, if_neg other.1, if_neg other.2]
  cases isHex <;> simp [validDigit] <;> split <;> simp_all

theorem convertSubids_char (other : char ≠ '.' ∧ char ≠ ':') (element : Nat) :
    convertSubids (char :: rest) ⟨isHex, 0⟩ element =
      convertSubids rest ⟨isHex, 0⟩ (takeDigit isHex element char % 2 ^ 32) := by
  rw [convertSubids, if_neg other.1, if_neg other.2]
  cases isHex <;> rfl

variable {digits : List Char}

theorem isOidFrom_digits (plain : NoSeparator digits) :
    isOidFrom (digits ++ rest) ⟨isHex, 0⟩ = true ↔ AllDigits isHex digits ∧ isOidFrom rest ⟨isHex, 0⟩ = true := by
  induction digits with
  | nil => simp [AllDigits]
  | cons _ _ ih =>
    obtain ⟨other, plain⟩ := forall_mem_cons.mp plain
    rw [cons_append, isOidFrom_char other, Bool.and_eq_true, ih plain, allDigits_cons, and_assoc]

theorem countSeparators_digits (plain : NoSeparator digits) {dots : Nat} :
    countSeparators (digits ++ rest) ⟨isHex, 0⟩ = some dots ↔
      AllDigits isHex digits ∧ countSeparators rest ⟨isHex, 0⟩ = some dots := by
  induction digits with
  | nil => simp [AllDigits]
  | cons _ _ ih =>
    obtain ⟨other, plain⟩ := forall_mem_cons.mp plain
    rw [cons_append, countSeparators_char other, ite_eq_iff, ih plain, allDigits_cons]
    simp [and_assoc]

theorem takeDigit_mod (number : Nat) :
    takeDigit isHex (number % 2 ^ 32) char % 2 ^ 32 = takeDigit isHex number char % 2 ^ 32 := by
  cases isHex <;> simp only [takeDigit, Bool.false_eq_true, if_false, if_true] <;> omega

theorem foldl_takeDigit (digits : List Char) (number : Nat) :
    digits.foldl (fun word char => takeDigit isHex word char % 2 ^ 32) (number % 2 ^ 32) =
      digits.foldl (takeDigit isHex) number % 2 ^ 32 := by
  induction digits generalizing number with
  | nil => rfl
  | cons _ _ ih => rw [foldl_cons, foldl_cons, takeDigit_mod, ih]

theorem convertSubids_digits (plain : NoSeparator digits) (number : Nat) :
    convertSubids (digits ++ rest) ⟨isHex, 0⟩ (number % 2 ^ 32) =
      convertSubids rest ⟨isHex, 0⟩ (digits.foldl (takeDigit isHex) number % 2 ^ 32) := by
  induction digits generalizing number with
  | nil => rfl
  | cons _ _ ih =>
    obtain ⟨other, plain⟩ := forall_mem_cons.mp plain
    rw [cons_append, convertSubids_char other, takeDigit_mod, ih plain, foldl_cons]

end

section

variable {isHex : Bool} {part : OidPart} {parts : List OidPart}

theorem isOidFrom_part (plain : part.Plain) :
    isOidFrom (part.text ++ partsText parts) ⟨isHex, 0⟩ =
      isOidFrom (part.digits ++ partsText parts) ⟨part.isHex, 0⟩ := by
  cases part with
  | dotted digits =>
    have decimal : startsHex (digits ++ partsText parts) = false := (startsHex_parts ..).trans (plain.decimal rfl)
    rw [OidPart.text, cons_append, isOidFrom, decimal]
    rfl
  | hexadecimal | colon => rfl

theorem convertSubids_part (plain : part.Plain) (element : Nat) :
    convertSubids (part.text ++ partsText parts) ⟨isHex, 0⟩ element =
      element :: convertSubids (part.digits ++ partsText parts) ⟨part.isHex, 0⟩ 0 := by
  cases part with
  | dotted digits =>
    have decimal : startsHex (digits ++ partsText parts) = false := (startsHex_parts ..).trans (plain.decimal rfl)
    rw [OidPart.text, cons_append, convertSubids, decimal]
    rfl
  | hexadecimal | colon => rfl

theorem countSeparators_part (plain : part.Plain) : countSeparators (part.text ++ partsText parts) ⟨isHex, 0⟩ =
      (countSeparators (part.digits ++ partsText parts) ⟨isHex || part.isHex, 0⟩).map (· + 1) := by
  cases part with
  | dotted digits =>
    have decimal : startsHex (digits ++ partsText parts) = false := (startsHex_parts ..).trans (plain.decimal rfl)
    rw [OidPart.text, cons_append, countSeparators, decimal,
      OidPart.isHex, Bool.or_false]
    rfl
  | hexadecimal | colon =>
    rw [OidPart.isHex, Bool.or_true]
    rfl

theorem isOidFrom_parts (plain : ∀ part ∈ parts, part.Plain) :
    isOidFrom (partsText parts) ⟨isHex, 0⟩ = true ↔ ∀ part ∈ parts, part.Valid := by
  induction parts generalizing isHex with
  | nil => exact iff_of_true rfl nofun
  | cons _ _ ih =>
    rw [forall_mem_cons] at plain ⊢
    rw [partsText_cons, isOidFrom_part plain.1, isOidFrom_digits plain.1.digits, ih plain.2]
    rfl

theorem convertSubids_parts (plain : ∀ part ∈ parts, part.Plain) (element : Nat) :
    convertSubids (partsText parts) ⟨isHex, 0⟩ element = element :: parts.map OidPart.word := by
  induction parts generalizing isHex element with
  | nil => rfl
  | cons part parts ih =>
    rw [forall_mem_cons] at plain
    have digits := @convertSubids_digits part.isHex (partsText parts) part.digits plain.1.digits 0
    rw [Nat.zero_mod] at digits
    rw [partsText_cons, convertSubids_part plain.1, digits, ih plain.2]
    rfl

theorem countSeparators_parts (valid : ∀ part ∈ parts, part.Valid) :
    countSeparators (partsText parts) ⟨isHex, 0⟩ = some parts.length := by
  induction parts generalizing isHex with
  | nil => rfl
  | cons part _ ih =>
    rw [forall_mem_cons] at valid
    have all : AllDigits (isHex || part.isHex) part.digits := by
      have whole : AllDigits part.isHex part.digits := valid.1
      cases hex : part.isHex with
      | false =>
        rw [hex] at whole
        exact whole.weaken _
      | true =>
        rw [hex] at whole
        rw [Bool.or_true]
        exact whole
    have plain := valid.1.plain
    rw [partsText_cons, countSeparators_part plain, (countSeparators_digits plain.digits).mpr ⟨all, ih valid.2⟩]
    rfl

theorem loose_of_countSeparators (plain : ∀ part ∈ parts, part.Plain) {dots : Nat}
    (counted : countSeparators (partsText parts) ⟨isHex, 0⟩ = some dots) : ∀ part ∈ parts, part.Loose := by
  induction parts generalizing isHex dots with
  | nil => exact nofun
  | cons part parts ih =>
    rw [forall_mem_cons] at plain
    rw [partsText_cons, countSeparators_part plain.1, Option.map_eq_some_iff] at counted
    obtain ⟨_, counted, _⟩ := counted
    obtain ⟨all, rest⟩ := (countSeparators_digits plain.1.digits).mp counted
    exact forall_mem_cons.mpr ⟨all.hex, ih plain.2 rest⟩

end

theorem tnmOidFromString_parts {first : List Char} {parts : List OidPart} (filled : first ++ partsText parts ≠ [])
    (decimal : AllDigits false first) (valid : ∀ part ∈ parts, part.Valid) :
    tnmOidFromString (first ++ partsText parts) =
      if parts.length + 1 > tnmOidMaxSize ∨ parts.length = 0 ∨ digitsNumber false first % 2 ^ 32 > 2 then none
      else some (digitsNumber false first % 2 ^ 32 :: parts.map OidPart.word) := by
  have converted : convertSubids (first ++ partsText parts) ⟨false, 0⟩ 0 =
      digitsNumber false first % 2 ^ 32 :: parts.map OidPart.word :=
    (convertSubids_digits decimal.plain 0).trans (convertSubids_parts (fun part member => (valid part member).plain) _)
  rw [tnmOidFromString, if_neg filled,
    (countSeparators_digits decimal.plain).mpr ⟨decimal, countSeparators_parts valid⟩]
  simp only [converted, length_cons, length_map, headD_cons]
  by_cases long : parts.length + 1 > tnmOidMaxSize
  · rw [if_pos long, if_pos (.inl long)]
  · rw [if_neg long]
    by_cases refused : parts.length = 0 ∨ digitsNumber false first % 2 ^ 32 > 2
    · rw [if_pos (by omega), if_pos (.inr refused)]
    · rw [if_neg (by omega), if_neg (not_or.mpr ⟨long, refused⟩)]

theorem decimalDigits_isDigit (count number : Nat) : ∀ char ∈ decimalDigits count number, char.isDigit = true := by
  induction count with
  | zero => simp [decimalDigits]
  | succ _ ih =>
    rw [decimalDigits, forall_mem_cons]
    exact ⟨digitChar_isDigit (Nat.mod_lt _ (by norm_num)), ih⟩

theorem subidText_isDigit (subid : Nat) : ∀ char ∈ subidText subid, char.isDigit = true := by
  rw [subidText]
  split
  next single =>
    rw [forall_mem_singleton]
    exact digitChar_isDigit single
  next =>
    intro char member
    rcases mem_append.mp member with front | last
    · exact decimalDigits_isDigit _ _ char front
    · rw [mem_singleton.mp last]
      exact digitChar_isDigit (Nat.mod_lt _ (by norm_num))

theorem subidText_ne_nil (subid : Nat) : subidText subid ≠ [] := by
  rw [subidText]
  split <;> simp

theorem subidText_allDigits (subid : Nat) : AllDigits false (subidText subid) := subidText_isDigit subid

theorem digitsNumber_subidText {subid : Nat} (bound : subid < 2 ^ 32) :
    digitsNumber false (subidText subid) % 2 ^ 32 = subid := by
  have takes : TakesDigits fun chars number =>
      chars.foldl (fun word char => takeDigit false word char % 2 ^ 32) (number % 2 ^ 32) := by
    intro _ single _ _
    simp only [foldl_cons, takeDigit_mod, Nat.mod_mod]
    rw [takeDigit, if_neg Bool.false_ne_true, digitChar_toNat single]
  have taken := takes.subidText bound []
  rw [append_nil, foldl_takeDigit] at taken
  exact taken.trans (Nat.mod_eq_of_lt bound)

def suffixParts (oid : Oid) : List OidPart := oid.map fun subid => .dotted (subidText subid)

theorem suffixText_eq (oid : Oid) : suffixText oid = partsText (suffixParts oid) := by
  rw [partsText, suffixParts, flatMap_map]
  rfl

theorem suffixParts_valid (oid : Oid) : ∀ part ∈ suffixParts oid, part.Valid := by
  intro _ member
  obtain ⟨subid, _, rfl⟩ := List.mem_map.mp member
  exact subidText_allDigits subid

theorem suffixParts_word {oid : Oid} (bounds : ∀ subid ∈ oid, subid < 2 ^ 32) :
    (suffixParts oid).map OidPart.word = oid := by
  rw [suffixParts, List.map_map]
  exact (map_congr_left fun subid member => digitsNumber_subidText (bounds subid member)).trans (List.map_id oid)

theorem tnmIsOid_suffixText (oid : Oid) : tnmIsOid (suffixText oid) = true := by
  rw [suffixText_eq]
  exact (isOidFrom_parts fun part member => (suffixParts_valid oid part member).plain).mpr (suffixParts_valid oid)

theorem tnmIsOid_pathText (subid : Nat) (oid : Oid) : tnmIsOid (pathText (subid :: oid)) = true :=
  (isOidFrom_digits (subidText_allDigits subid).plain).mpr ⟨subidText_allDigits subid, tnmIsOid_suffixText oid⟩

theorem tnmOidFromString_pathText {subid : Nat} {oid : Oid} (bounds : ∀ other ∈ subid :: oid, other < 2 ^ 32) :
    tnmOidFromString (pathText (subid :: oid)) =
      if oid.length + 1 > tnmOidMaxSize ∨ oid.length = 0 ∨ subid > 2 then none else some (subid :: oid) := by
  rw [forall_mem_cons] at bounds
  have filled : subidText subid ++ partsText (suffixParts oid) ≠ [] := by simp [subidText_ne_nil]
  rw [pathText, suffixText_eq, tnmOidFromString_parts filled (subidText_allDigits subid) (suffixParts_valid oid),
    suffixParts_word bounds.2, digitsNumber_subidText bounds.1, suffixParts, length_map]

end Tnm.Mib
