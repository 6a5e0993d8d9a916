import TkinedRemix.Snmp.PduEncode

/-!
The text of object identifiers and octet strings can be read back, if it fits the static buffer.
-/

namespace Tnm

open Lib List

variable {digit : Nat}

theorem digitChar_isDigit (single : digit < 10) : (digitChar digit).isDigit = true := by
  interval_cases digit <;> decide

theorem digitChar_toNat (single : digit < 10) : (digitChar digit).toNat - 48 = digit := by
  interval_cases digit <;> decide

theorem scanOid_digit (single : digit < 10) (rest : List Char) (done : Oid) (subid : Nat) :
    scanOid (digitChar digit :: rest) done subid = scanOid rest done ((10 * subid + digit) % 2 ^ 32) := by
  rw [scanOid, if_pos (digitChar_isDigit single), digitChar_toNat single]

def TakesDigits {β : Type} (scan : List Char → Nat → β) : Prop :=
  ∀ digit < 10, ∀ rest number, scan (digitChar digit :: rest) number = scan rest ((10 * number + digit) % 2 ^ 32)

theorem TakesDigits.decimalDigits {β : Type} {scan : List Char → Nat → β} (takes : TakesDigits scan) (count : Nat) :
    ∀ (number start : Nat) (rest : List Char), start < 2 ^ 32 → scan (decimalDigits count number ++ rest) start =
      scan rest ((start * 10 ^ count + number % 10 ^ count) % 2 ^ 32) := by
  induction count with
  | zero =>
    intro number start rest small
    rw [Tnm.decimalDigits, nil_append, Nat.pow_zero, Nat.mod_one, Nat.mul_one, Nat.add_zero,
      Nat.mod_eq_of_lt small]
  | succ count ih =>
    intro number _ _ _
    have digits : number % 10 ^ (count + 1) =
        number / 10 ^ count % 10 * 10 ^ count + number % 10 ^ count := by
      rw [Nat.pow_succ, Nat.mod_mul]
      ring
    rw [Tnm.decimalDigits, cons_append, takes _ (Nat.mod_lt _ (by norm_num)),
      ih _ _ _ (Nat.mod_lt _ (by norm_num)), digits]
    rw [Nat.add_mod, Nat.mod_mul_mod, ← Nat.add_mod]
    ring_nf

theorem lt_decimalLength {fuel number : Nat} (bound : number < 10 ^ fuel) :
    number < 10 ^ decimalLength fuel number := by
  induction fuel generalizing number with
  | zero => simpa [decimalLength] using bound
  | succ fuel ih =>
    rw [decimalLength]
    split
    next zero =>
      simp [zero]
    · have smaller : number / 10 < 10 ^ fuel := by
        rw [Nat.div_lt_iff_lt_mul (by norm_num)]
        exact bound
      have below := ih smaller
      omega

theorem TakesDigits.subidText {β : Type} {scan : List Char → Nat → β} (takes : TakesDigits scan) {subid : Nat}
    (bound : subid < 2 ^ 32) (rest : List Char) : scan (subidText subid ++ rest) 0 = scan rest subid := by
  rw [Tnm.subidText]
  split
  next single =>
    rw [singleton_append, takes _ single]
    congr 1
    omega
  · have below : subid / 10 < 10 ^ decimalLength 10 (subid / 10) := lt_decimalLength (by omega)
    rw [append_assoc, takes.decimalDigits _ _ _ _ (by norm_num),
      Nat.mod_eq_of_lt below, singleton_append, takes _ (Nat.mod_lt _ (by norm_num))]
    congr 1
    omega

theorem scanOid_subidText {subid : Nat} (bound : subid < 2 ^ 32) (rest : List Char) (done : Oid) :
    scanOid (subidText subid ++ rest) done 0 = scanOid rest done subid := by
  have takes : TakesDigits fun chars subid => scanOid chars done subid :=
    fun digit single rest number => scanOid_digit single rest done number
  exact takes.subidText bound rest

theorem subidText_head (subid : Nat) (rest : List Char) :
    ∃ digit others, digit < 10 ∧ subidText subid ++ rest = digitChar digit :: others := by
  rw [subidText]
  split
  next single =>
    exact ⟨subid, rest, single, rfl⟩
  · cases decimalLength 10 (subid / 10) with
    | zero => exact ⟨subid % 10, rest, Nat.mod_lt _ (by norm_num), rfl⟩
    | succ => exact ⟨_, _, Nat.mod_lt _ (by norm_num), rfl⟩

theorem dottedText_dropLast (subid : Nat) (rest : Oid) : (dottedText (subid :: rest)).dropLast =
      subidText subid ++ if rest = [] then [] else '.' :: (dottedText rest).dropLast := by
  cases rest with
  | nil =>
    rw [dottedText, map_singleton, flatten_singleton, dropLast_concat, if_pos rfl,
      append_nil]
  | cons next others =>
    have nonempty : dottedText (next :: others) ≠ [] := by simp [dottedText]
    have split : dottedText (subid :: next :: others) =
        (subidText subid ++ ['.']) ++ dottedText (next :: others) := rfl
    rw [split, dropLast_append_of_ne_nil nonempty]
    simp

theorem scanOid_dottedText (rest : Oid) : ∀ (subid : Nat) (done : Oid),
    (∀ other ∈ subid :: rest, other < 2 ^ 32) → (done ++ subid :: rest).length ≤ tnmOidMaxSize →
    scanOid (dottedText (subid :: rest)).dropLast done 0 = some (done ++ subid :: rest) := by
  induction rest with
  | nil =>
    intro subid done bounds _
    rw [dottedText_dropLast, if_pos rfl, scanOid_subidText (bounds subid (by simp)), scanOid]
  | cons next _ ih =>
    intro subid done bounds short
    have room : done.length < tnmOidMaxSize - 1 := by
      simp only [length_append, length_cons] at short
      omega
    rw [dottedText_dropLast, if_neg (by simp), scanOid_subidText (bounds subid (by simp)), scanOid,
      if_neg (by decide), if_pos ⟨rfl, room⟩, ih next (done ++ [subid])]
    · simp
    · intro other member
      exact bounds other (mem_cons_of_mem subid member)
    · simpa using short

variable {oid : Oid} {text : String}

theorem tnmOidToStr_eq_some : tnmOidToStr oid = some text ↔
      (dottedText oid).length ≤ tnmOidMaxSize * 8 ∧ text = String.ofList (dottedText oid).dropLast := by
  rw [tnmOidToStr]
  split
  next fits =>
    simp [fits, eq_comm]
  next tooLong =>
    simp [tooLong]

theorem tnmStrToOid_undotted {char : Char} (others : List Char) (undotted : char ≠ '.')
    (scanned : scanOid (char :: others) [] 0 = some oid) :
    tnmStrToOid (String.ofList (char :: others)) = if oid.length < 2 ∨ oid.headD 0 > 2 then none else some oid := by
  unfold tnmStrToOid
  extract_lets chars
  have unchanged : chars = char :: others := by
    simp only [chars, String.toList_ofList]
    split
    next same =>
      exact absurd (cons.inj same).1 undotted
    · rfl
  rw [unchanged, if_neg (by simp), scanned]

theorem tnmStrToOid_tnmOidToStr (filled : oid ≠ []) (short : oid.length ≤ tnmOidMaxSize)
    (bounds : ∀ subid ∈ oid, subid < 2 ^ 32) (written : tnmOidToStr oid = some text) :
    tnmStrToOid text = if oid.length < 2 ∨ oid.headD 0 > 2 then none else some oid := by
  obtain ⟨_, rfl⟩ := tnmOidToStr_eq_some.mp written
  obtain ⟨first, rest, rfl⟩ := exists_cons_of_ne_nil filled
  obtain ⟨digit, others, _, shape⟩ := subidText_head first (if rest = [] then [] else '.' :: (dottedText rest).dropLast)
  rw [← dottedText_dropLast] at shape
  have undotted : digitChar digit ≠ '.' := by
    interval_cases digit <;> decide
  have scanned := scanOid_dottedText rest first [] bounds (by simpa using short)
  rw [shape] at scanned ⊢
  exact tnmStrToOid_undotted others undotted scanned

theorem tnmStrToOid_legal (legal : LegalOid oid) (short : oid.length ≤ tnmOidMaxSize)
    (bounds : ∀ subid ∈ oid, subid < 2 ^ 32) (written : tnmOidToStr oid = some text) : tnmStrToOid text = some oid := by
  obtain ⟨_, _⟩ := legal
  have filled : oid ≠ [] := ne_nil_of_length_pos (by omega)
  rw [tnmStrToOid_tnmOidToStr filled short bounds written, if_neg (by omega)]

theorem scanOid_bounds (chars : List Char) : ∀ (done : Oid) (subid : Nat) (oid : Oid),
    (∀ other ∈ done ++ [subid], other < 2 ^ 32) → done.length < tnmOidMaxSize →
    scanOid chars done subid = some oid → oid.length ≤ tnmOidMaxSize ∧ ∀ other ∈ oid, other < 2 ^ 32 := by
  induction chars with
  | nil =>
    intro done subid oid bounds short found
    cases found
    exact ⟨by simpa using short, bounds⟩
  | cons _ _ ih =>
    intro done subid oid bounds short found
    rw [scanOid] at found
    split_ifs at found
    · refine ih done _ oid (forall_mem_append.mpr ⟨(forall_mem_append.mp bounds).1, ?_⟩) short found
      exact forall_mem_singleton.mpr (Nat.mod_lt _ (by norm_num))
    · refine ih (done ++ [subid]) 0 oid (forall_mem_append.mpr ⟨bounds, by simp⟩) ?_ found
      rw [length_append, length_singleton]
      omega

theorem tnmStrToOid_bounds (found : tnmStrToOid text = some oid) :
    oid.length ≤ tnmOidMaxSize ∧ ∀ subid ∈ oid, subid < 2 ^ 32 := by
  unfold tnmStrToOid at found
  extract_lets chars at found
  split at found
  · cases found
    exact ⟨by decide, by simp⟩
  · split at found
    next scanned =>
      split at found
      · cases found
      · cases found
        exact scanOid_bounds _ [] 0 _ (by simp) (by decide) scanned
    · cases found

theorem hexChar_spec (single : digit < 16) : isHexDigit (hexChar digit) = true ∧ hexDigit (hexChar digit) = digit := by
  interval_cases digit <;> decide

theorem hexPair_spec (octet : UInt8) :
    UInt8.ofNat (hexDigit (hexChar (octet.toNat / 16)) * 16 + hexDigit (hexChar (octet.toNat % 16))) = octet := by
  have below := octet.toNat_lt
  rw [(hexChar_spec (by omega)).2, (hexChar_spec (by omega)).2]
  apply UInt8.toNat_inj.mp
  simp only [UInt8.toNat_ofNat']
  omega

theorem scanHex_hexText (octets : Octets) : scanHex (hexText octets) = some octets := by
  induction octets with
  | nil => rfl
  | cons octet others ih =>
    have below := octet.toNat_lt
    have high := (hexChar_spec (show octet.toNat / 16 < 16 by omega)).1
    have low := (hexChar_spec (show octet.toNat % 16 < 16 by omega)).1
    cases others with
    | nil => simp only [hexText, scanHex, high, low, hexPair_spec, Bool.and_self, if_true, Option.map_some]
    | cons next rest =>
      have shape : hexText (octet :: next :: rest) = hexChar (octet.toNat / 16) ::
          hexChar (octet.toNat % 16) :: ':' :: hexText (next :: rest) := rfl
      rw [shape, scanHex]
      simp only [high, low, hexPair_spec, ih, Bool.and_self, if_true, Option.map_some]

theorem tnmHexDec_tnmHexEnc (octets : Octets) : tnmHexDec (tnmHexEnc octets) = some octets := by
  rw [tnmHexDec, tnmHexEnc, String.toList_ofList, scanHex_hexText]

def upperDigit (char : Char) : Bool := char.isDigit || ('A' ≤ char && char ≤ 'F')

/-- Pairs of upper-case digits, separated by colons. -/
def ColonPairs : List Char → Prop
  | [] => True
  | [high, low] => upperDigit high ∧ upperDigit low
  | high :: low :: next :: rest => upperDigit high ∧ upperDigit low ∧ next = ':' ∧ rest ≠ [] ∧ ColonPairs rest
  | _ => False

theorem hexChar_of_upperDigit {char : Char} (upper : upperDigit char) : ∃ digit < 16, hexChar digit = char := by
  have inside : 48 ≤ char.toNat ∧ char.toNat ≤ 57 ∨ 65 ≤ char.toNat ∧ char.toNat ≤ 70 := by
    simpa [upperDigit, Char.isDigit, Char.le_def, UInt32.le_iff_toNat_le] using upper
  rw [← Char.ofNat_toNat char]
  generalize char.toNat = code at inside
  rcases inside with ⟨_, _⟩ | ⟨_, _⟩ <;> interval_cases code <;> decide

theorem hexText_pair {high low : Char} (upperHigh : upperDigit high) (upperLow : upperDigit low) :
    ∃ octet : UInt8, hexText [octet] = [high, low] := by
  obtain ⟨first, _, rfl⟩ := hexChar_of_upperDigit upperHigh
  obtain ⟨second, _, rfl⟩ := hexChar_of_upperDigit upperLow
  refine ⟨.ofNat (first * 16 + second), ?_⟩
  have value : (UInt8.ofNat (first * 16 + second)).toNat = first * 16 + second := by
    rw [UInt8.toNat_ofNat']
    omega
  rw [hexText, value, show (first * 16 + second) / 16 = first by omega,
    show (first * 16 + second) % 16 = second by omega]

theorem ColonPairs.encoded {text : List Char} (pairs : ColonPairs text) : ∃ octets, hexText octets = text := by
  fun_induction ColonPairs text with
  | case1 => exact ⟨[], rfl⟩
  | case2 =>
    obtain ⟨octet, pair⟩ := hexText_pair pairs.1 pairs.2
    exact ⟨[octet], pair⟩
  | case3 high low next rest ih =>
    obtain ⟨upperHigh, upperLow, rfl, more, later⟩ := pairs
    obtain ⟨octet, pair⟩ := hexText_pair upperHigh upperLow
    obtain ⟨octets, rfl⟩ := ih later
    refine ⟨octet :: octets, ?_⟩
    rw [hexText, cons.injEq, cons.injEq] at pair
    rw [hexText, pair.1, pair.2.1]
    rintro rfl
    exact more rfl
  | case4 => exact pairs.elim

/-- The decoder is the inverse of the encoder on all octet strings and on all texts in the encoder's form. -/
theorem tnmHexEnc_inverse : (∀ octets, tnmHexDec (tnmHexEnc octets) = some octets) ∧
    ∀ text octets, ColonPairs text.toList → tnmHexDec text = some octets → tnmHexEnc octets = text := by
  refine ⟨tnmHexDec_tnmHexEnc, fun text octets pairs decoded => ?_⟩
  obtain ⟨original, written⟩ := pairs.encoded
  rw [tnmHexDec, ← written, scanHex_hexText] at decoded
  cases decoded
  rw [tnmHexEnc, written, String.ofList_toList]

end Tnm
