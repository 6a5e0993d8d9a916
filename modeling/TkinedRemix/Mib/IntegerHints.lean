import Mathlib

/-!
Display hints of integers, `FormatIntTC` and `ScanIntTC` of `tnmMibUtil.c`. What C leaves undefined has no
result, and NULL is an inner `none`.
-/

namespace Tnm.Mib

open List

/-- The character is added before `'0'` is taken away. -/
def appendDigit (limit value : Nat) (char : Char) : Option Nat :=
  if 10 * value + char.toNat < limit then some (10 * value + (char.toNat - 48)) else none

/-- The decimal places of a hint, -1 without a digit, and what stands behind them. -/
def hintPlaces (fmt : List Char) : Option (Int × List Char) :=
  if fmt.head?.any Char.isDigit then
    ((fmt.takeWhile Char.isDigit).foldlM (appendDigit (2 ^ 31)) 0).map fun dpt : Nat =>
      (↑dpt, fmt.dropWhile Char.isDigit)
  else some (-1, fmt)

def splitSign : List Char → Bool × List Char
  | '-' :: rest => (true, rest)
  | text => (false, text)

def signText (sign : Bool) : List Char := if sign then ['-'] else []

def signed (sign : Bool) (value : Nat) : Int := if sign then -value else value

def digitOf (char : Char) : Nat :=
  if char.isDigit then char.toNat - 48
  else if 'a' ≤ char ∧ char ≤ 'f' then char.toNat - 87
  else if 'A' ≤ char ∧ char ≤ 'F' then char.toNat - 55 else 16

/-- What `sscanf` skips in front of the digits of `%lx` and `%lo`. -/
def skipFront (base : Nat) (text : List Char) : Bool × List Char :=
  let text := text.dropWhile (· ∈ [' ', '\t', '\n', '\x0b', '\x0c', '\r'])
  let (sign, text) := if text.head? = some '+' then (false, text.tail) else splitSign text
  let marked := text.head? = some '0' ∧ (text.tail.head? = some 'x' ∨ text.tail.head? = some 'X')
  (sign, if base = 16 ∧ marked then text.drop 2 else text)

/-- `sscanf` with `%lx` or `%lo` into a `long`. A number too large for the type is `ULONG_MAX`. -/
def sscanf (base : Nat) (text : List Char) : Option Int :=
  let (sign, text) := skipFront base text
  let digits := text.takeWhile (digitOf · < base)
  let value := digits.foldl (fun value char => base * value + digitOf char) 0
  if digits = [] then none else some (if value < 2 ^ 64 then (signed sign value).bmod (2 ^ 64) else -1)

/-- The object has the string `val`. The bits for `b` are tested with a shift of an `int` by 63. -/
def formatIntTC (val : List Char) (value : Int) : List Char → Option (Option (List Char))
  | ['d'] => some none
  | 'd' :: '-' :: fmt => do
    let (dpt, rest) ← hintPlaces fmt
    if rest ≠ [] then return none
    let (sign, s) := splitSign val
    if s.length ≤ dpt then
      return some (signText sign ++ '0' :: '.' :: (replicate (dpt.toNat - s.length) '0' ++ s))
    else if dpt < 0 then none
    else return some (signText sign ++ (s.take (s.length - dpt.toNat) ++ '.' :: s.drop (s.length - dpt.toNat)))
  | ['x'] => some (some (signText (value < 0) ++ Nat.toDigits 16 value.natAbs))
  | ['o'] => some (some (signText (value < 0) ++ Nat.toDigits 8 value.natAbs))
  | ['b'] => none
  | _ => some none

/-- The digits around the first point, how many stand behind it, -1 without a point, and the rest. -/
def splitDecimal (string : List Char) : List Char × Int × List Char :=
  match string.dropWhile Char.isDigit with
  | '.' :: rest => (string.takeWhile Char.isDigit ++ rest.takeWhile Char.isDigit,
      (rest.takeWhile Char.isDigit).length, rest.dropWhile Char.isDigit)
  | rest => (string.takeWhile Char.isDigit, -1, rest)

def scanIntTC (string : List Char) : List Char → Option (Option Int)
  | ['d'] => some none
  | 'd' :: '-' :: fmt => do
    let (dpt, rest) ← hintPlaces fmt
    if rest ≠ [] then return none
    let (sign, string) := splitSign string
    let (digits, frac, rest) := splitDecimal string
    let value ← digits.foldlM (appendDigit (2 ^ 63)) 0
    if rest ≠ [] then return none
    let value := 10 ^ (dpt - frac).toNat * value
    if value < 2 ^ 63 then return some (signed sign (value / 10 ^ (frac - dpt).toNat)) else none
  | ['x'] => some (sscanf 16 string)
  | ['o'] => some (sscanf 8 string)
  | ['b'] => do
    let (sign, string) := splitSign string
    let value ← (string.takeWhile fun char => char = '0' ∨ char = '1').foldlM
      (fun value char => if 2 * value < 2 ^ 63 then some (2 * value + (char.toNat - 48)) else none) 0
    return some (signed sign value)
  | _ => some none

/-- `d-N` with the number of its leading zeros. -/
def pointHint (zeros places : Nat) : List Char := 'd' :: '-' :: (replicate zeros '0' ++ Nat.toDigits 10 places)

structure DecimalText where
  whole : List Char
  fraction : Option (List Char)
  digits : ∀ char ∈ whole ++ fraction.getD [], char.isDigit = true

namespace DecimalText

variable (decimal : DecimalText)

def text : List Char := decimal.whole ++ decimal.fraction.elim [] ('.' :: ·)

def value : Nat := Nat.ofDigitChars 10 (decimal.whole ++ decimal.fraction.getD []) 0

def frac : Int := decimal.fraction.elim (-1) fun fraction => fraction.length

end DecimalText

theorem le_shifted (value places : Nat) : value ≤ 10 ^ places * value :=
  Nat.le_mul_of_pos_left value (Nat.pow_pos (by decide))

section

theorem digitOf_digitChar {digit : Nat} (small : digit < 16) :
    digitOf digit.digitChar = digit ∧
      digit.digitChar ∉ [' ', '\t', '\n', '\x0b', '\x0c', '\r', '+', '-', 'x', 'X'] := by
  interval_cases digit <;> decide

variable {base number : Nat}

theorem toDigits_digitOf (binary : 1 < base) (small : base ≤ 16) :
    (Nat.toDigits base number).foldl (fun value char => base * value + digitOf char) 0 = number ∧
      ∀ char ∈ Nat.toDigits base number, digitOf char < base ∧
        char ∉ [' ', '\t', '\n', '\x0b', '\x0c', '\r', '+', '-', 'x', 'X'] := by
  induction number using Nat.strongRecOn with
  | ind number ih =>
    rcases Nat.lt_or_ge number base with single | longer
    · obtain ⟨value, plain⟩ := digitOf_digitChar (single.trans_le small)
      rw [Nat.toDigits_of_lt_base single]
      refine ⟨by simp [value], fun char member => ?_⟩
      rw [mem_singleton.mp member, value]
      exact ⟨single, plain⟩
    · have last : number % base < base := Nat.mod_lt _ (by omega)
      obtain ⟨value, plain⟩ := digitOf_digitChar (last.trans_le small)
      obtain ⟨front, digits⟩ := ih (number / base) (Nat.div_lt_self (by omega) binary)
      rw [Nat.toDigits_of_base_le binary longer]
      refine ⟨?_, fun char member => ?_⟩
      · rw [foldl_append, front, foldl_cons, foldl_nil, value, Nat.div_add_mod]
      · rcases mem_append.mp member with before | own
        · exact digits char before
        · rw [mem_singleton.mp own, value]
          exact ⟨last, plain⟩

theorem sscanf_toDigits (sign : Bool) (known : base = 8 ∨ base = 16) (fits : number < 2 ^ 63) :
    sscanf base (signText sign ++ Nat.toDigits base number) = some (signed sign number) := by
  obtain ⟨value, digits⟩ := @toDigits_digitOf base number (by omega) (by omega)
  have filled : Nat.toDigits base number ≠ [] := Nat.toDigits_ne_nil
  generalize Nat.toDigits base number = text at *
  obtain ⟨first, rest, rfl⟩ := exists_cons_of_ne_nil filled
  have plain := (digits first mem_cons_self).2
  have second : ∀ char ∈ rest, char ≠ 'x' ∧ char ≠ 'X' := by
    intro char member
    have other := (digits char (mem_cons_of_mem _ member)).2
    simp only [mem_cons, not_or] at other
    exact ⟨other.2.2.2.2.2.2.2.2.1, other.2.2.2.2.2.2.2.2.2.1⟩
  have front : skipFront base (signText sign ++ first :: rest) = (sign, first :: rest) := by
    have unmarked : rest.head? ≠ some 'x' ∧ rest.head? ≠ some 'X' :=
      ⟨fun found => (second 'x' (mem_of_head? found)).1 rfl, fun found => (second 'X' (mem_of_head? found)).2 rfl⟩
    simp only [mem_cons, not_or] at plain
    cases sign with
    | true => simp [skipFront, signText, splitSign, unmarked]
    | false =>
      have stays : splitSign (first :: rest) = (false, first :: rest) := by
        simp [splitSign, plain]
      simp [skipFront, signText, plain, stays, unmarked]
  have all : (first :: rest).takeWhile (digitOf · < base) = first :: rest :=
    takeWhile_eq_self_iff.mpr fun char member => by simpa using (digits char member).1
  rw [sscanf, front]
  simp only [all, value, if_neg filled, if_pos (show number < 2 ^ 64 by omega)]
  rw [Int.bmod_eq_of_le] <;> unfold signed <;> split <;> omega

end

theorem foldlM_appendDigit {digits : List Char} {limit value : Nat} (valid : ∀ char ∈ digits, char.isDigit = true)
    (start : value + 48 < limit) : digits.foldlM (appendDigit limit) value =
      if Nat.ofDigitChars 10 digits value + 48 < limit then some (Nat.ofDigitChars 10 digits value) else none := by
  induction digits generalizing value with
  | nil => simp [start]
  | cons char rest ih =>
    obtain ⟨isDigit, valid⟩ := forall_mem_cons.mp valid
    have digit : 48 ≤ char.toNat := by
      simp only [Char.isDigit, Bool.and_eq_true, decide_eq_true_eq] at isDigit
      exact isDigit.1
    rw [foldlM_cons, appendDigit, Nat.ofDigitChars_cons, show '0'.toNat = 48 from rfl]
    by_cases fits : 10 * value + char.toNat < limit
    · rw [if_pos fits]
      exact ih valid (by omega)
    · have grows := @Nat.ofDigitChars_eq_ofDigitChars_zero rest (10 * value + (char.toNat - 48))
      have larger := le_shifted (10 * value + (char.toNat - 48)) rest.length
      rw [if_neg fits, if_neg (by omega)]
      rfl

theorem isDigit_zeros (zeros : Nat) {text : List Char} (valid : ∀ char ∈ text, char.isDigit = true) :
    ∀ char ∈ replicate zeros '0' ++ text, char.isDigit = true := by
  refine forall_mem_append.mpr ⟨fun char member => ?_, valid⟩
  rw [eq_of_mem_replicate member]
  rfl

theorem isDigit_toDigits (number : Nat) : ∀ char ∈ Nat.toDigits 10 number, char.isDigit = true :=
  fun _ => Nat.isDigit_of_mem_toDigits (by decide) (by decide)

theorem hintPlaces_eq (zeros places : Nat) : hintPlaces (replicate zeros '0' ++ Nat.toDigits 10 places) =
    if places + 48 < 2 ^ 31 then some ((places : Int), []) else none := by
  have valid := isDigit_zeros zeros (isDigit_toDigits places)
  have head : (replicate zeros '0' ++ Nat.toDigits 10 places).head?.any Char.isDigit = true := by
    cases text : replicate zeros '0' ++ Nat.toDigits 10 places with
    | nil => exact absurd (append_eq_nil_iff.mp text).2 Nat.toDigits_ne_nil
    | cons first => exact valid first (by simp [text])
  rw [hintPlaces, if_pos head, takeWhile_eq_self_iff.mpr valid, dropWhile_eq_nil_iff.mpr valid,
    foldlM_appendDigit valid (by decide), Nat.ofDigitChars_append, Nat.ofDigitChars_replicate_zero, Nat.mul_zero,
    Nat.ofDigitChars_ten_toDigits]
  split <;> rfl

section

variable (sign : Bool) (decimal : DecimalText)

theorem splitDecimal_eq :
    splitDecimal decimal.text = (decimal.whole ++ decimal.fraction.getD [], decimal.frac, []) := by
  obtain ⟨whole, fraction, digits⟩ := decimal
  obtain ⟨front, back⟩ := forall_mem_append.mp digits
  cases fraction with
  | none =>
    simp [splitDecimal, DecimalText.text, DecimalText.frac, takeWhile_eq_self_iff.mpr front,
      dropWhile_eq_nil_iff.mpr front]
  | some fraction =>
    rw [Option.getD_some] at back
    simp [splitDecimal, DecimalText.text, DecimalText.frac, takeWhile_append_of_pos front,
      dropWhile_append_of_pos front, takeWhile_eq_self_iff.mpr back, dropWhile_eq_nil_iff.mpr back]

theorem splitSign_eq : splitSign (signText sign ++ decimal.text) = (sign, decimal.text) := by
  cases sign with
  | true => rfl
  | false =>
    obtain ⟨whole, fraction, digits⟩ := decimal
    cases whole with
    | nil => cases fraction <;> rfl
    | cons first =>
      unfold splitSign
      split
      next text => exact absurd (digits first (by simp)) (by rw [(cons.inj text).1]; decide)
      next => rfl

variable (zeros places : Nat)

theorem scanIntTC_eq (few : decimal.frac ≤ places) :
    scanIntTC (signText sign ++ decimal.text) (pointHint zeros places) =
      if places + 48 < 2 ^ 31 ∧ decimal.value + 48 < 2 ^ 63 ∧
        10 ^ (places - decimal.frac).toNat * decimal.value < 2 ^ 63 then
        some (some (signed sign (10 ^ (places - decimal.frac).toNat * decimal.value))) else none := by
  have whole : (decimal.frac - places).toNat = 0 := by omega
  have read : (decimal.whole ++ decimal.fraction.getD []).foldlM (appendDigit (2 ^ 63)) 0 =
      if decimal.value + 48 < 2 ^ 63 then some decimal.value else none :=
    foldlM_appendDigit decimal.digits (by decide)
  simp only [pointHint, scanIntTC, hintPlaces_eq, splitSign_eq, splitDecimal_eq, read]
  by_cases hint : places + 48 < 2 ^ 31
  · by_cases small : decimal.value + 48 < 2 ^ 63
    · rw [if_pos hint, if_pos small]
      change (if 10 ^ (places - decimal.frac).toNat * decimal.value < 2 ^ 63 then some (some (signed sign
        (10 ^ (places - decimal.frac).toNat * decimal.value / 10 ^ (decimal.frac - places).toNat))) else none) = _
      rw [whole, Nat.pow_zero, Nat.div_one]
      exact if_congr ⟨fun fits => ⟨hint, small, fits⟩, fun all => all.2.2⟩ rfl rfl
    · rw [if_pos hint, if_neg small, if_neg fun all : _ ∧ _ ∧ _ => small all.2.1]
      rfl
  · rw [if_neg hint, if_neg fun all : _ ∧ _ ∧ _ => hint all.1]
    rfl

end

theorem signed_natAbs (value : Int) : signed (value < 0) value.natAbs = value := by
  rw [signed]
  split
  next negative => have := of_decide_eq_true negative; omega
  next positive => have := of_decide_eq_false (eq_false_of_ne_true positive); omega

/-- The string of an integer. -/
def decimalText (value : Int) : List Char := signText (value < 0) ++ Nat.toDigits 10 value.natAbs

inductive IntHint where
  | decimal
  | point (zeros places : Nat)
  | hexadecimal
  | octal

def IntHint.text : IntHint → List Char
  | .decimal => ['d']
  | .point zeros places => pointHint zeros places
  | .hexadecimal => ['x']
  | .octal => ['o']

/-- Without a conversion the object stays as it is. -/
def RoundTrips (hint : IntHint) (value : Int) : Prop :=
  match formatIntTC (decimalText value) value hint.text with
  | none => False
  | some none => scanIntTC (decimalText value) hint.text = some none
  | some (some shown) => scanIntTC shown hint.text = some (some value)

theorem formatIntTC_eq (value : Int) (zeros places : Nat) :
    if places + 48 < 2 ^ 31 then ∃ shown : DecimalText, shown.frac = places ∧ shown.value = value.natAbs ∧
      formatIntTC (decimalText value) value (pointHint zeros places) = some (some (signText (value < 0) ++ shown.text))
    else formatIntTC (decimalText value) value (pointHint zeros places) = none := by
  have digits := isDigit_toDigits value.natAbs
  have number : Nat.ofDigitChars 10 (Nat.toDigits 10 value.natAbs) 0 = value.natAbs := Nat.ofDigitChars_ten_toDigits
  have sign := splitSign_eq (value < 0) ⟨Nat.toDigits 10 value.natAbs, none, by simpa using digits⟩
  simp only [DecimalText.text, Option.elim_none, append_nil] at sign
  simp only [decimalText, pointHint, formatIntTC, hintPlaces_eq, sign]
  generalize Nat.toDigits 10 value.natAbs = text at *
  split
  next fits =>
    simp only [Option.bind_eq_bind, Option.bind_some, ne_eq, not_true_eq_false, if_false,
      Int.ofNat_le]
    split
    next long =>
      refine ⟨⟨['0'], some (replicate (places - text.length) '0' ++ text), isDigit_zeros (_ + 1) digits⟩, ?_, ?_, rfl⟩
      · simp only [DecimalText.frac, Option.elim_some, length_append, length_replicate, Nat.sub_add_cancel long]
      · simp [DecimalText.value, Nat.ofDigitChars_append, number,
          Nat.ofDigitChars_cons]
    next short =>
      refine ⟨⟨text.take (text.length - places), some (text.drop (text.length - places)), by simpa using digits⟩,
        ?_, ?_, ?_⟩
      · simp [DecimalText.frac]
        omega
      · simpa [DecimalText.value] using number
      · rfl
  next => rfl

theorem formatIntTC_roundTrips_iff (hint : IntHint) (value : BitVec 32) :
    RoundTrips hint value.toInt ↔ ∀ zeros places, hint = .point zeros places → places + 48 < 2 ^ 31 := by
  have upper := value.toInt_lt
  have lower := value.le_toInt
  have read : ∀ base, base = 8 ∨ base = 16 →
      sscanf base (signText (value.toInt < 0) ++ Nat.toDigits base value.toInt.natAbs) = some value.toInt := by
    intro base known
    rw [sscanf_toDigits _ known (by omega), signed_natAbs]
  cases hint with
  | decimal => simp [RoundTrips, IntHint.text, formatIntTC, scanIntTC]
  | hexadecimal => simpa [RoundTrips, IntHint.text, formatIntTC, scanIntTC] using read 16 (.inr rfl)
  | octal => simpa [RoundTrips, IntHint.text, formatIntTC, scanIntTC] using read 8 (.inl rfl)
  | point zeros places =>
    have shown := formatIntTC_eq value.toInt zeros places
    simp only [RoundTrips, IntHint.text]
    split at shown
    next fits =>
      obtain ⟨shown, frac, number, formatted⟩ := shown
      have scanned := scanIntTC_eq (value.toInt < 0) shown zeros places (by omega)
      rw [frac, number, Int.sub_self, Int.toNat_zero, Nat.pow_zero, Nat.one_mul,
        if_pos ⟨fits, by omega, by omega⟩] at scanned
      rw [formatted]
      refine iff_of_true (scanned.trans ?_) (by rintro _ _ ⟨rfl, rfl⟩; exact fits)
      rw [signed_natAbs]
    next large =>
      rw [shown]
      simpa using large

theorem formatIntTC_overflows : formatIntTC ['7'] 7 (pointHint 0 2147483648) = none := formatIntTC_eq 7 0 2147483648

theorem signed_inj {sign : Bool} {one other : Nat} : signed sign one = signed sign other ↔ one = other := by
  unfold signed
  split <;> omega

/-- A hint with as many places as there are fraction digits, or more. -/
theorem scanIntTC_scales_iff (zeros more : Nat) (sign : Option Bool) (decimal : DecimalText) :
    scanIntTC (sign.elim [] (fun minus => [if minus then '-' else '+']) ++ decimal.text)
        (pointHint zeros ((decimal.fraction.getD []).length + more)) =
      some (some (signed (sign = some true) (10 ^ more * decimal.value))) ↔
    (decimal.fraction.getD []).length + more + 48 < 2 ^ 31 ∧ sign ≠ some false ∧ decimal.value + 48 < 2 ^ 63 ∧
      (decimal.value = 0 ∨ decimal.fraction.isSome = true ∧ 10 ^ more * decimal.value < 2 ^ 63) := by
  by_cases plus : sign = some false
  · subst plus
    simp only [pointHint, scanIntTC, hintPlaces_eq]
    split <;> simp [splitSign, splitDecimal]
  have text : sign.elim [] (fun minus => [if minus then '-' else '+']) = signText (sign = some true) := by
    rcases sign with _ | _ | _ <;> simp_all [signText]
  cases points : decimal.fraction with
  | none =>
    have frac : decimal.frac = -1 := by simp [DecimalText.frac, points]
    have larger := le_shifted decimal.value more
    rw [Option.getD_none, length_nil, Nat.zero_add, text, scanIntTC_eq _ decimal zeros more (by omega), frac,
      show ((more : Int) - -1).toNat = more + 1 by omega, Nat.pow_succ 10, Nat.mul_right_comm]
    simp only [ite_eq_iff, Option.some.injEq, signed_inj, reduceCtorEq, and_false, or_false, Option.isSome_none,
      false_and]
    constructor
    · rintro ⟨⟨hint, small, _⟩, same⟩
      exact ⟨hint, plus, small, by omega⟩
    · rintro ⟨hint, _, small, zero⟩
      exact ⟨⟨hint, small, by simp [zero]⟩, by simp [zero]⟩
  | some fraction =>
    have frac : decimal.frac = fraction.length := by simp [DecimalText.frac, points]
    rw [Option.getD_some, text, scanIntTC_eq _ decimal zeros _ (by omega), frac,
      show (((fraction.length + more : Nat) : Int) - fraction.length).toNat = more by omega]
    simp only [ite_eq_iff, reduceCtorEq, and_false, or_false, and_true, Option.isSome_some, true_and]
    constructor
    · rintro ⟨hint, small, fits⟩
      exact ⟨hint, plus, small, .inr fits⟩
    · rintro ⟨hint, _, small, zero | fits⟩
      · exact ⟨hint, small, by simp [zero]⟩
      · exact ⟨hint, small, fits⟩

theorem scanIntTC_noPoint : scanIntTC ['5'] ['d', '-', '2'] = some (some 5000) := rfl

end Tnm.Mib
