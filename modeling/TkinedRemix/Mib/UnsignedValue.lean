import TkinedRemix.Mib.IntegerHints
import TkinedRemix.Tcl.Braces

/-!
The unsigned numbers of `tnmObj.c`, over `strtoul` and `sscanf` of standard C with a `long` of 64 bits.
-/

namespace Tnm

open List Tcl

/-- The value of a digit, and 36 for any other character. -/
def digitValue (char : Char) : Nat :=
  if char.isDigit then char.toNat - 48 else if char.isAlpha then char.toLower.toNat - 87 else 36

/-- The number at the start of a text, and the text behind it. -/
def readBase (base : Nat) (text : List Char) : Option (Nat × List Char) :=
  let digits := text.takeWhile (digitValue · < base)
  if digits = [] then none
  else some (digits.foldl (base * · + digitValue ·) 0, text.dropWhile (digitValue · < base))

/-- Base 0 is the notation of C. -/
def readLiteral : List Char → Option (Nat × List Char)
  | '0' :: char :: text =>
    if char.toLower = 'x' then (readBase 16 text).or (some (0, char :: text)) else readBase 8 ('0' :: char :: text)
  | text => readBase 10 text

def skipSpace (text : List Char) : List Char := text.dropWhile isBlank

def unsign : List Char → List Char
  | '+' :: text => text
  | '-' :: text => text
  | text => text

def negative (text : List Char) : Bool := (skipSpace text).head? = some '-'

def setUnsigned32FromAny (text : List Char) : Option Nat :=
  if negative text then none
  else
    match readLiteral (unsign (skipSpace text)) with
    -- `end` is `p`, which is `string` if no blank was skipped
    | none => if text.length = (skipSpace text).length ∨ skipSpace text ≠ [] then none else some 0
    | some (u, rest) => if u < 2 ^ 64 ∧ rest.all isBlank then some (u % 2 ^ 32) else none

/-- The outer `none` is a number too large for `sscanf`, where the standard defines nothing. -/
def setUnsigned64FromAny (text : List Char) : Option (Option Nat) :=
  if negative text then some none
  else
    match readBase 10 (unsign (skipSpace text)) with
    | none => some none
    | some (u, _) => if u < 2 ^ 64 then some (some u) else none

def updateStringOfUnsigned (u : Nat) : List Char := Nat.toDigits 10 u

/-- The integer a whole text denotes. -/
def denoted (read : List Char → Option (Nat × List Char)) (text : List Char) : Option Int :=
  (read (unsign (skipSpace text))).bind fun (u, rest) =>
    if rest.all isBlank then some (if negative text then -u else u) else none

def inRange (bits : Nat) (number : Option Int) : Option Nat :=
  number.bind fun n => if 0 ≤ n ∧ n < 2 ^ bits then some n.toNat else none

theorem inRange_negative (bits : Nat) (read : List Char → Option (Nat × List Char)) {text : List Char}
    (minus : negative text) : none = inRange bits (denoted read text) ↔ denoted read text ≠ some 0 := by
  have := Nat.two_pow_pos bits
  cases found : read (unsign (skipSpace text)) with
  | none => simp [denoted, found, inRange]
  | some number =>
    simp only [denoted, inRange]
    grind

theorem head_toDigits {n : Nat} (zero : (Nat.toDigits 10 n).head? = some '0') : n = 0 := by
  induction n using Nat.strongRecOn with
  | ind n ih =>
    rw [Nat.toDigits_eq_if (by decide)] at zero
    split at zero
    next small =>
      have value := Nat.toNat_digitChar_of_lt_ten small
      rw [Option.some.inj zero] at value
      exact (Nat.add_left_cancel value).symm
    next large =>
      rw [head?_append_of_ne_nil _ Nat.toDigits_ne_nil] at zero
      have := ih (n / 10) (by omega) zero
      omega

theorem readBase_toDigits (n : Nat) : readBase 10 (Nat.toDigits 10 n) = some (n, []) := by
  have digit := Mib.isDigit_toDigits n
  have single : ∀ char ∈ Nat.toDigits 10 n, decide (digitValue char < 10) := by
    intro char mem
    have : char.toNat ≤ 57 := (Char.isDigit_iff_toNat.mp (digit char mem)).2
    simp only [digitValue, digit char mem, if_true, decide_eq_true_eq]
    omega
  have value : (Nat.toDigits 10 n).foldl (10 * · + digitValue ·) 0 = Nat.ofDigitChars 10 (Nat.toDigits 10 n) 0 :=
    foldl_ext _ _ 0 fun n char mem => by simp [digitValue, digit char mem]
  rw [readBase, takeWhile_eq_self_iff.mpr single, dropWhile_eq_nil_iff.mpr single, if_neg Nat.toDigits_ne_nil, value,
    Nat.ofDigitChars_ten_toDigits]

theorem readLiteral_toDigits (n : Nat) : readLiteral (Nat.toDigits 10 n) = some (n, []) := by
  rw [← readBase_toDigits n]
  unfold readLiteral
  split
  next text =>
    cases head_toDigits (n := n) (by rw [text]; rfl)
    cases text
  · rfl

theorem toDigits_plain (n : Nat) :
    unsign (skipSpace (Nat.toDigits 10 n)) = Nat.toDigits 10 n ∧ negative (Nat.toDigits 10 n) = false := by
  cases text : Nat.toDigits 10 n with
  | nil => exact absurd text Nat.toDigits_ne_nil
  | cons char rest =>
    have digit := Mib.isDigit_toDigits n char (by simp [text])
    have other {char'} (foreign : char'.isDigit = false) : char ≠ char' := by
      rintro rfl
      simp_all
    simp [skipSpace, isBlank, negative, unsign, other]

/-- Exactly these texts are converted to the number in range that they denote in C, or as a decimal for 64 bits. -/
theorem unsigned_conversions_iff (text : List Char) :
    (setUnsigned32FromAny text = inRange 32 (denoted readLiteral text) ↔
      (negative text → denoted readLiteral text ≠ some 0) ∧
        (¬negative text → (skipSpace text = [] → text = []) ∧
          ∀ n, denoted readLiteral text = some n → n < 2 ^ 32 ∨ 2 ^ 64 ≤ n)) ∧
    (setUnsigned64FromAny text = some (inRange 64 (denoted (readBase 10) text)) ↔
      (negative text → denoted (readBase 10) text ≠ some 0) ∧
        (¬negative text → ∀ u rest, readBase 10 (unsign (skipSpace text)) = some (u, rest) →
          u < 2 ^ 64 ∧ rest.all isBlank)) ∧
    (∀ n < 2 ^ 32, setUnsigned32FromAny (updateStringOfUnsigned n) = some n) ∧
      ∀ n < 2 ^ 64, setUnsigned64FromAny (updateStringOfUnsigned n) = some (some n) := by
  refine ⟨?_, ?_, fun n bound => ?_, fun n bound => ?_⟩
  · cases minus : negative text with
    | true => simp [setUnsigned32FromAny, minus, inRange_negative]
    | false =>
      cases read : readLiteral (unsign (skipSpace text)) with
      | none =>
        simp only [setUnsigned32FromAny, denoted, inRange]
        grind
      | some number =>
        have filled : skipSpace text ≠ [] := fun empty => by
          rw [empty] at read
          cases read
        simp only [setUnsigned32FromAny, denoted, inRange]
        grind
  · cases minus : negative text with
    | true => simp [setUnsigned64FromAny, minus, inRange_negative]
    | false =>
      cases read : readBase 10 (unsign (skipSpace text)) with
      | none => simp [setUnsigned64FromAny, denoted, read, inRange]
      | some number =>
        simp only [setUnsigned64FromAny, denoted, inRange]
        grind
  · have ⟨plain, positive⟩ := toDigits_plain n
    simp [setUnsigned32FromAny, updateStringOfUnsigned, plain, positive, readLiteral_toDigits]
    omega
  · have ⟨plain, positive⟩ := toDigits_plain n
    simpa [setUnsigned64FromAny, updateStringOfUnsigned, plain, positive, readBase_toDigits] using bound

theorem unsigned_unfaithful :
    setUnsigned32FromAny [' '] = some 0 ∧ setUnsigned32FromAny "4294967296".toList = some 0 ∧
      setUnsigned64FromAny "12a".toList = some (some 12) := by
  decide

end Tnm
