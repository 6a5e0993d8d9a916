import TkinedRemix.Snmp.BerEncode

/-!
Integers. `TnmBerEncInt` writes a number of type int in as few octets as it needs, also under unsigned tags; the
decoders decide by the number of octets whether a number fits.
-/

namespace Tnm

open Lib List

def signedOctet (octet : UInt8) : Int := if octet.toNat < 0x80 then octet.toNat else octet.toNat - 256

def twosComplement : Octets → Int
  | [] => 0
  | first :: others => signedOctet first * 256 ^ others.length + bigEndian others

def Redundant (first second : UInt8) : Prop :=
  (first.toNat = 0 ∧ second.toNat < 0x80) ∨ (first.toNat = 0xff ∧ 0x80 ≤ second.toNat)

instance (first second : UInt8) : Decidable (Redundant first second) := by
  unfold Redundant
  infer_instance

def Shortest : Octets → Prop
  | [] => False
  | [_] => True
  | first :: second :: _ => ¬ Redundant first second

def shorten : Octets → Octets
  | first :: second :: others =>
    if Redundant first second then shorten (second :: others) else first :: second :: others
  | octets => octets

theorem twosComplement_start (content : Octets) :
    twosComplement content = intStart asn1Integer content * 256 ^ content.length + bigEndian content := by
  cases content with
  | nil => rfl
  | cons first others =>
    rw [twosComplement, bigEndian_cons, length_cons, signedOctet]
    by_cases positive : first.toNat < 0x80
    · have start : intStart asn1Integer (first :: others) = 0 := by simp [intStart, positive]
      rw [if_pos positive, start]
      push_cast
      ring
    · have start : intStart asn1Integer (first :: others) = -1 := by simp [intStart, Nat.le_of_not_lt positive]
      rw [if_neg positive, start]
      push_cast
      ring

variable {content : Octets}

theorem twosComplement_nonneg (positive : (content.headD 0).toNat < 0x80) :
    twosComplement content = bigEndian content := by
  cases content with
  | nil => rfl
  | cons =>
    rw [headD_cons] at positive
    rw [twosComplement, bigEndian_cons, signedOctet, if_pos positive]
    rfl

theorem bigEndian_below (octets : Octets) : (bigEndian octets : Int) < 256 ^ octets.length := by
  exact_mod_cast bigEndian_lt octets

variable {first : UInt8}

theorem twosComplement_neg (others : Octets) (negative : 0x80 ≤ first.toNat) :
    twosComplement (first :: others) < 0 := by
  have below := bigEndian_below others
  have octet := first.toNat_lt
  have signed : signedOctet first ≤ -1 := by
    rw [signedOctet]
    omega
  rw [twosComplement]
  nlinarith

theorem twosComplement_redundant {second : UInt8} (others : Octets) (redundant : Redundant first second) :
    twosComplement (first :: second :: others) = twosComplement (second :: others) := by
  rw [twosComplement, twosComplement, bigEndian_cons, length_cons, signedOctet, signedOctet]
  rcases redundant with ⟨zero, positive⟩ | ⟨ones, _⟩
  · rw [zero, if_pos positive]
    push_cast
    ring
  · rw [ones, if_neg (by decide), if_neg (by omega)]
    push_cast
    ring

theorem twosComplement_shorten (content : Octets) : twosComplement (shorten content) = twosComplement content := by
  induction content using shorten.induct with
  | case1 _ _ others redundant ih =>
    rw [shorten, if_pos redundant, ih, twosComplement_redundant others redundant]
  | case2 _ _ _ needed => rw [shorten, if_neg needed]
  | case3 content single => rw [shorten.eq_2 content single]

theorem shortest_shorten (nonempty : content ≠ []) : Shortest (shorten content) := by
  induction content using shorten.induct with
  | case1 _ _ _ redundant ih =>
    rw [shorten, if_pos redundant]
    exact ih (by simp)
  | case2 _ _ _ needed =>
    rw [shorten, if_neg needed]
    exact needed
  | case3 content single =>
    match content, single with
    | [], _ => exact absurd rfl nonempty
    | [_], _ => trivial
    | first :: second :: others, single => exact absurd rfl (single first second others)

/-- The numbers that `count + 1` octets hold. -/
def SignedRange (count : Nat) (number : Int) : Prop := -128 * 256 ^ count ≤ number ∧ number < 128 * 256 ^ count

theorem SignedRange.mono {count more : Nat} (le : count ≤ more) {number : Int} (range : SignedRange count number) :
    SignedRange more number := by
  have powers : (256 : Int) ^ count ≤ 256 ^ more := pow_le_pow_right₀ (by norm_num) le
  exact ⟨by linarith [range.1], by linarith [range.2]⟩

theorem twosComplement_range (first : UInt8) (others : Octets) :
    SignedRange others.length (twosComplement (first :: others)) := by
  have below := bigEndian_below others
  have octet := first.toNat_lt
  have signed : -128 ≤ signedOctet first ∧ signedOctet first ≤ 127 := by
    rw [signedOctet]
    split <;> omega
  rw [twosComplement]
  constructor
  · nlinarith [signed.1]
  · nlinarith [signed.2]

theorem shortest_large {second : UInt8} (others : Octets) (needed : ¬ Redundant first second) :
    ¬ SignedRange others.length (twosComplement (first :: second :: others)) := by
  rintro ⟨lower, upper⟩
  have below := bigEndian_below others
  have octet := first.toNat_lt
  have next := second.toNat_lt
  rw [twosComplement, bigEndian_cons, length_cons] at lower upper
  push_cast at lower upper
  rw [pow_succ] at lower upper
  -- the two leading octets alone already leave the range
  have leading : signedOctet first * 256 + second.toNat < -128 ∨ 128 ≤ signedOctet first * 256 + second.toNat := by
    rw [Redundant] at needed
    rw [signedOctet]
    split <;> omega
  rcases leading with _ | _ <;> nlinarith

theorem signedRange_iff (nonempty : content ≠ []) (count : Nat) :
    SignedRange count (twosComplement content) ↔ (shorten content).length ≤ count + 1 := by
  have shortest := shortest_shorten nonempty
  rw [← twosComplement_shorten]
  match shape : shorten content, shortest with
  | [single], _ =>
    constructor
    · simp
    · intro _
      exact (twosComplement_range single []).mono (Nat.zero_le count)
  | first :: second :: others, needed =>
    simp only [length_cons]
    constructor
    · intro range
      by_contra long
      exact shortest_large others needed (range.mono (by omega))
    · intro short
      exact (twosComplement_range first (second :: others)).mono (by simpa using short)

def numberOf (tag : UInt8) (value : Int) : Int := if tag = asn1Integer then value else value % 2 ^ 32

theorem twosComplement_intOctets {value : Int} (lower : -2 ^ 31 ≤ value) (upper : value < 2 ^ 31) :
    twosComplement (intOctets value) = value := by
  rw [twosComplement_start, intOctets_sum lower upper]

theorem shortest_intOctets (value : Int) : Shortest (intOctets value) := by
  obtain ⟨bits, isBits⟩ : ∃ bits, (value % 2 ^ 32).toNat = bits := ⟨_, rfl⟩
  have bound : bits < 2 ^ 32 := by omega
  rw [intOctets_eq, isBits]
  rcases keptOctets bits bound with ⟨_, octets⟩ | ⟨_, _, octets⟩ | ⟨_, _, octets⟩ | ⟨_, octets⟩
  · rw [octets]
    trivial
  all_goals
    rw [octets]
    simp only [Shortest, Redundant, UInt8.toNat_ofNat']
    omega

theorem intContent_nonneg (tag : UInt8) {value : Int} (nonneg : 0 ≤ value) (upper : value < 2 ^ 31) :
    IntContent tag (intOctets value) value := by
  refine ⟨intFits_intOctets value, ?_⟩
  have same := twosComplement_intOctets (by omega) upper
  have nonempty := (intOctets_length value).1
  rw [intOf_eq]
  cases octets : intOctets value with
  | nil =>
    rw [octets] at nonempty
    cases nonempty
  | cons first others =>
    rw [octets] at same
    have positive : first.toNat < 0x80 := by
      by_contra negative
      have below := twosComplement_neg others (Nat.le_of_not_lt negative)
      omega
    have start : intStart tag (first :: others) = 0 := by simp [intStart, positive]
    have plain : twosComplement (first :: others) = bigEndian (first :: others) := twosComplement_nonneg positive
    rw [start, Int.zero_mul, Int.zero_add, ← plain, same, toInt32_of_range (by omega) upper]

theorem int_writes (size : Nat) (tag : UInt8) (value : Int) : Appends size (tnmBerEncInt size tag value)
      (fun octets => octets = tag :: UInt8.ofNat (intOctets value).length :: intOctets value) := by
  refine Appends.mono (octetString_writes size tag (intOctets value)) ?_
  rintro _ _ rfl
  have short := (intOctets_length value).2
  rw [encodedLength, if_pos (by omega)]
  rfl

theorem encInt_room {size : Nat} (tag : UInt8) (value : Int) {out : Octets} (room : out.length + 6 ≤ size) :
    ∃ out', tnmBerEncInt size tag value out = some out' := by
  have short := (intOctets_length value).2
  exact encOctetString_short tag (by omega) (by omega)

/-- A successful encoding is the BER encoding of the number, and it is decoded to the same value. -/
def EncodesInt (tag : UInt8) (value : Int) : Prop :=
  ∀ size out out', out.length ≤ size → tnmBerEncInt size tag value out = some out' →
    ∃ content, out' = out ++ tag :: UInt8.ofNat content.length :: content ∧
      Shortest content ∧ twosComplement content = numberOf tag value ∧
      ∀ rest pos, tnmBerDecInt tag ⟨tag :: UInt8.ofNat content.length :: content ++ rest, pos⟩ =
        (some value, ⟨rest, pos + (2 + content.length)⟩)

theorem tnmBerEncInt_exact_iff {tag : UInt8} (known : tag = asn1Integer ∨ unsignedTag tag) {value : Int}
    (lower : -2 ^ 31 ≤ value) (upper : value < 2 ^ 31) : (EncodesInt tag value ↔ tag = asn1Integer ∨ 0 ≤ value) ∧
      ∀ size out, out.length + 6 ≤ size → ∃ out', tnmBerEncInt size tag value out = some out' := by
  have number := twosComplement_intOctets lower upper
  refine ⟨⟨?_, ?_⟩, fun size out room => encInt_room tag value room⟩
  · intro encodes
    by_contra negative
    obtain ⟨notInteger, _⟩ := not_or.mp negative
    obtain ⟨out', found⟩ := encInt_room tag value (Nat.le_refl (([] : Octets).length + 6))
    obtain ⟨_, shape, rfl, _⟩ := int_writes 6 tag value [] out' (by simp) found
    obtain ⟨content, same, _, holds, _⟩ := encodes 6 [] out' (by simp) found
    rw [shape] at same
    simp only [nil_append, List.cons.injEq, true_and] at same
    rw [← same.2, numberOf, if_neg notInteger] at holds
    omega
  · intro covered size out out' fits found
    obtain ⟨_, rfl, rfl, _⟩ := int_writes size tag value out out' fits found
    refine ⟨intOctets value, rfl, shortest_intOctets value, ?_, ?_⟩
    · rw [number, numberOf]
      rcases covered with integer | nonneg
      · rw [if_pos integer]
      · split
        · rfl
        · omega
    · intro rest pos
      have content : IntContent tag (intOctets value) value := by
        rcases covered with rfl | nonneg
        · exact intContent_intOctets lower upper
        · exact intContent_nonneg tag nonneg upper
      have short := (intOctets_length value).2
      have format :
          intFormat tag pos (tag :: ([UInt8.ofNat (intOctets value).length] ++ intOctets value)) rest value false := by
        refine ⟨_, _, rfl, .inl ⟨?_, rfl⟩, content⟩
        have definite := definiteLength_encodedLength (show (intOctets value).length < 65536 by omega)
        rwa [encodedLength, if_pos (by omega)] at definite
      have read := (tnmBerDecInt_reads tag).complete format
      rw [show pos + (2 + (intOctets value).length) =
        pos + (tag :: ([UInt8.ofNat (intOctets value).length] ++ intOctets value)).length by simp; omega]
      exact read

/-- The largest Gauge32 below 2^31. -/
theorem tnmBerEncInt_exact_gauge :
    EncodesInt asn1Gauge32 2147483647 ∧ tnmBerEncInt 6 asn1Gauge32 2147483647 [] =
      some [0x42, 4, 0x7f, 0xff, 0xff, 0xff] :=
  ⟨((tnmBerEncInt_exact_iff (.inr (.inr (.inl rfl))) (by decide) (by decide)).1).mpr (.inr (by decide)),
    by decide⟩

/-- 4294967295 is encoded as one octet and decoded as 255. -/
theorem tnmBerEncInt_counter : tnmBerEncInt 6 asn1Counter32 (-1) [] = some [0x41, 1, 0xff] ∧
      tnmBerDecInt asn1Counter32 ⟨[0x41, 1, 0xff], 0⟩ = (some 255, ⟨[], 3⟩) ∧ numberOf asn1Counter32 (-1) = 4294967295 ∧
      ¬ EncodesInt asn1Counter32 (-1) := by
  refine ⟨by decide, by decide, by decide, ?_⟩
  intro encodes
  obtain ⟨content, same, _, _, decoded⟩ := encodes 6 [] [0x41, 1, 0xff] (by decide) (by decide)
  obtain rfl : [0xff] = content := by
    simp only [nil_append, List.cons.injEq] at same
    exact same.2.2
  exact absurd (decoded [] 0) (by decide)

/-- The definite length forms of BER, for lengths of any size. -/
def BerLength (octets : Octets) (length : Nat) : Prop :=
  (∃ octet : UInt8, octets = [octet] ∧ octet.toNat < 0x80 ∧ length = octet.toNat) ∨
    ∃ (first : UInt8) (rest : Octets), octets = first :: rest ∧ rest ≠ [] ∧
      first.toNat = 0x80 + rest.length ∧ length = bigEndian rest

theorem definiteLength_iff {octets : Octets} {length : Nat} :
    DefiniteLength octets length ↔ BerLength octets length ∧ length < 2 ^ 31 := by
  constructor
  · rintro (⟨octet, shape, short, rfl⟩ | ⟨first, rest, shape, nonempty, count, rfl, small⟩)
    · exact ⟨.inl ⟨octet, shape, short, rfl⟩, by omega⟩
    · exact ⟨.inr ⟨first, rest, shape, nonempty, count, rfl⟩, small⟩
  · rintro ⟨short | ⟨first, rest, shape, nonempty, count, rfl⟩, small⟩
    · exact .inl short
    · exact .inr ⟨first, rest, shape, nonempty, count, rfl, small⟩

theorem berLength_unique {first second rest rest' : Octets} {length length' : Nat} (one : BerLength first length)
    (other : DefiniteLength second length') (same : first ++ rest = second ++ rest') :
    first = second ∧ length = length' := by
  rcases one with ⟨_, rfl, _, rfl⟩ | ⟨_, _, rfl, _, _, rfl⟩ <;>
    rcases other with ⟨_, rfl, _, rfl⟩ | ⟨_, _, rfl, _, _, rfl, _⟩ <;>
    simp only [cons_append, List.cons.injEq] at same <;> obtain ⟨rfl, tails⟩ := same
  · exact ⟨rfl, rfl⟩
  · omega
  · omega
  · obtain ⟨rfl, _⟩ := append_inj tails (by omega)
    exact ⟨rfl, rfl⟩

theorem decode_element_iff {α : Type} {tag : UInt8} {accepts : Octets → α → Prop} {read : BerReader α}
    (reads : Reads read (primitiveFormat tag accepts)) {lengthOctets rest : Octets} {pos : Nat}
    (declared : BerLength lengthOctets content.length) (value : α) :
    (read ⟨tag :: (lengthOctets ++ content) ++ rest, pos⟩).1 = some value ↔
      content.length < 2 ^ 31 ∧ accepts content value := by
  constructor
  · intro success
    have found : read ⟨tag :: (lengthOctets ++ content) ++ rest, pos⟩ = (some value, _) := Prod.ext success rfl
    obtain ⟨_, _, split, _, _, _, rfl, format, accepted⟩ := reads.sound found
    simp only [cons_append, List.cons.injEq, true_and, append_assoc] at split
    rcases format with ⟨definite, _⟩ | ⟨rfl, _⟩
    · obtain ⟨rfl, same⟩ := berLength_unique declared definite split
      obtain ⟨rfl, _⟩ := append_inj (append_cancel_left split) same
      exact ⟨(definiteLength_iff.mp definite).2, accepted⟩
    · -- the octet 0x80 is no definite length
      exfalso
      rcases declared with ⟨_, rfl, short, _⟩ | ⟨_, octets, rfl, nonempty, count, _⟩
      · simp only [cons_append, List.cons.injEq] at split
        rw [split.1] at short
        exact absurd short (by decide)
      · simp only [cons_append, List.cons.injEq] at split
        rw [split.1] at count
        have none : octets.length = 0 := by
          have known : (0x80 : UInt8).toNat = 0x80 := rfl
          omega
        exact nonempty (length_eq_zero_iff.mp none)
  · rintro ⟨small, accepted⟩
    rw [reads.complete ⟨lengthOctets, content, rfl, .inl ⟨definiteLength_iff.mpr ⟨declared, small⟩, rfl⟩, accepted⟩]

/-- An outcome is a success exactly for the numbers that a type has, and returns the number. -/
def DecodesNumber {α : Type} (outcome : Option α × Cursor UInt8) (representable : Int → Prop) (number : α → Int)
    (encoded : Int) : Prop :=
  ((∃ value, outcome.1 = some value) ↔ representable encoded) ∧ ∀ value, outcome.1 = some value → number value = encoded

theorem decodesNumber_iff {α : Type} {outcome : Option α × Cursor UInt8} {representable : Int → Prop} {number : α → Int}
    {encoded : Int} {fits : Prop} {result : α} (accepts : ∀ value, outcome.1 = some value ↔ fits ∧ value = result) :
    DecodesNumber outcome representable number encoded ↔
      (fits ↔ representable encoded) ∧ (fits → number result = encoded) := by
  have succeeds : (∃ value, outcome.1 = some value) ↔ fits := by
    simp only [accepts]
    exact ⟨fun ⟨_, holds, _⟩ => holds, fun holds => ⟨result, holds, rfl⟩⟩
  rw [DecodesNumber, succeeds]
  simp only [accepts]
  refine and_congr_right fun _ => ⟨fun right holds => right result ⟨holds, rfl⟩, ?_⟩
  rintro right _ ⟨holds, rfl⟩
  exact right holds

def Signed32 (number : Int) : Prop := -2 ^ 31 ≤ number ∧ number < 2 ^ 31

def Unsigned32 (number : Int) : Prop := 0 ≤ number ∧ number < 2 ^ 32

def Unsigned64 (number : Int) : Prop := 0 ≤ number ∧ number < 2 ^ 64

def Representable (tag : UInt8) : Int → Prop := if tag = asn1Integer then Signed32 else Unsigned32

/-- At most `count` octets, apart from one zero octet in front. -/
def UnsignedFits (count : Nat) (content : Octets) : Prop :=
  content.length ≤ count ∨ (content.length = count + 1 ∧ content.headD 0 = 0)

theorem twosComplement_nonneg_iff (nonempty : content ≠ []) :
    0 ≤ twosComplement content ↔ (content.headD 0).toNat < 0x80 := by
  constructor
  · intro _
    match content, nonempty with
    | first :: others, _ =>
      by_contra negative
      have below := twosComplement_neg others (Nat.le_of_not_lt negative)
      rw [headD_cons] at below
      omega
  · intro positive
    rw [twosComplement_nonneg positive]
    omega

theorem shorten_length_le (content : Octets) : (shorten content).length ≤ content.length := by
  induction content using shorten.induct with
  | case1 _ _ _ redundant ih =>
    rw [shorten, if_pos redundant]
    exact Nat.le_succ_of_le ih
  | case2 _ _ _ needed => rw [shorten, if_neg needed]
  | case3 content single => rw [shorten.eq_2 content single]

theorem unsigned_of_fits {count : Nat} (nonempty : content ≠ []) (fits : UnsignedFits count content)
    (positive : (content.headD 0).toNat < 0x80) :
    0 ≤ twosComplement content ∧ twosComplement content < 256 ^ count := by
  refine ⟨(twosComplement_nonneg_iff nonempty).mpr positive, ?_⟩
  rcases fits with short | ⟨long, zero⟩
  · rw [twosComplement_nonneg positive]
    have below := bigEndian_below content
    have powers : (256 : Int) ^ content.length ≤ 256 ^ count := pow_le_pow_right₀ (by norm_num) short
    linarith
  · match content, nonempty with
    | first :: others, _ =>
      have below := bigEndian_below others
      rw [headD_cons] at zero
      rw [length_cons, Nat.add_right_cancel_iff] at long
      rw [← long, twosComplement, zero]
      simpa [signedOctet] using below

theorem unsignedFits_of_range {count : Nat} (short : content.length ≤ count + 1) (nonneg : 0 ≤ twosComplement content)
    (below : twosComplement content < 256 ^ count) : UnsignedFits count content := by
  by_cases shorter : content.length ≤ count
  · exact .inl shorter
  · have exact : content.length = count + 1 := by omega
    refine .inr ⟨exact, ?_⟩
    match content, exact with
    | first :: others, exact =>
      rw [length_cons, Nat.add_right_cancel_iff] at exact
      have small := bigEndian_below others
      rw [exact] at small
      rw [twosComplement, exact] at nonneg below
      have lower : -1 < signedOctet first := by
        nlinarith
      have upper : signedOctet first < 1 := by
        nlinarith
      apply UInt8.toNat_inj.mp
      change first.toNat = 0
      have octet := first.toNat_lt
      rw [signedOctet] at lower upper
      split at lower <;> split at upper <;> omega

theorem unsignedRange_iff (nonempty : content ≠ []) (count : Nat) :
    (0 ≤ twosComplement content ∧ twosComplement content < 256 ^ count) ↔
      (content.headD 0).toNat < 0x80 ∧ UnsignedFits count (shorten content) := by
  have shortNonempty : shorten content ≠ [] := by
    intro empty
    have shortest := shortest_shorten nonempty
    rw [empty] at shortest
    exact shortest
  rw [← twosComplement_nonneg_iff nonempty]
  constructor
  · rintro ⟨nonneg, below⟩
    have short := (signedRange_iff nonempty count).mp ⟨by linarith, by linarith⟩
    refine ⟨nonneg, ?_⟩
    rw [← twosComplement_shorten] at nonneg below
    exact unsignedFits_of_range short nonneg below
  · rintro ⟨nonneg, fits⟩
    rw [← twosComplement_shorten] at nonneg ⊢
    exact unsigned_of_fits shortNonempty fits ((twosComplement_nonneg_iff shortNonempty).mp nonneg)

theorem unsigned_decodes_iff {count : Nat} {fits : Prop} {value : Int} (nonempty : content ≠ [])
    (short : fits → content.length ≤ count + 1) (isValue : value = bigEndian content % 256 ^ count) :
    ((fits ↔ 0 ≤ twosComplement content ∧ twosComplement content < 256 ^ count) ∧
        (fits → value = twosComplement content)) ↔
      (fits → UnsignedFits count content ∧ (content.headD 0).toNat < 0x80) ∧
        (¬ fits → 0x80 ≤ (content.headD 0).toNat ∨ ¬ UnsignedFits count (shorten content)) := by
  have range := unsignedRange_iff nonempty count
  constructor
  · rintro ⟨same, _⟩
    constructor
    · intro fits
      obtain ⟨nonneg, below⟩ := same.mp fits
      exact ⟨unsignedFits_of_range (short fits) nonneg below, (range.mp ⟨nonneg, below⟩).1⟩
    · intro unfit
      by_contra neither
      obtain ⟨positive, fits⟩ := not_or.mp neither
      exact unfit (same.mpr (range.mpr ⟨by omega, not_not.mp fits⟩))
  · rintro ⟨fitting, padded⟩
    have inRange := fun holds => unsigned_of_fits nonempty (fitting holds).1 (fitting holds).2
    refine ⟨⟨inRange, ?_⟩, ?_⟩
    · intro inside
      by_contra unfit
      obtain ⟨positive, small⟩ := range.mp inside
      rcases padded unfit with negative | large
      · exact absurd positive (Nat.not_lt.mpr negative)
      · exact large small
    · intro holds
      obtain ⟨nonneg, below⟩ := inRange holds
      rw [isValue, ← twosComplement_nonneg (fitting holds).2]
      exact Int.emod_eq_of_lt nonneg below

/-- Where `TnmBerDecInt` is right. -/
def IntExact (tag : UInt8) (content : Octets) : Prop :=
  if tag = asn1Integer then
    (content.length = 5 → content.headD 0 = 0 → (content.getD 1 0).toNat < 0x80) ∧
      (¬ IntFits content → 4 < (shorten content).length)
  else
    (content.length ≤ 4 → (content.headD 0).toNat < 0x80) ∧
      (¬ IntFits content → 0x80 ≤ (content.headD 0).toNat ∨ ¬ UnsignedFits 4 (shorten content))

def Unsigned64Exact (content : Octets) : Prop :=
  (content.length ≤ 8 → (content.headD 0).toNat < 0x80) ∧ (content.length = 9 → content.headD 0 = 0) ∧
    (9 < content.length → 0x80 ≤ (content.headD 0).toNat ∨ ¬ UnsignedFits 8 (shorten content))

theorem signed32_iff (nonempty : content ≠ []) : Signed32 (twosComplement content) ↔ (shorten content).length ≤ 4 := by
  rw [← signedRange_iff nonempty 3, Signed32, SignedRange]
  norm_num

theorem shorten_five (five : content.length = 5) (zero : content.headD 0 = 0) :
    (shorten content).length ≤ 4 ↔ (content.getD 1 0).toNat < 0x80 := by
  match content, five with
  | [first, second, third, fourth, fifth], _ =>
    subst zero
    by_cases positive : second.toNat < 0x80
    · have redundant : Redundant 0 second := .inl ⟨rfl, positive⟩
      rw [shorten, if_pos redundant]
      have shorter := shorten_length_le [second, third, fourth, fifth]
      exact iff_of_true (by omega) positive
    · have needed : ¬ Redundant 0 second := by
        rintro (⟨_, negative⟩ | ⟨ones, _⟩)
        · exact positive negative
        · exact absurd ones (by decide)
      rw [shorten, if_neg needed]
      exact iff_of_false (by simp) positive

theorem integer_exact_iff (nonempty : content ≠ []) : ((IntFits content ↔ Signed32 (twosComplement content)) ∧
      (IntFits content → intOf asn1Integer content = twosComplement content)) ↔ IntExact asn1Integer content := by
  have value : intOf asn1Integer content = toInt32 (twosComplement content) := by
    rw [intOf_eq, ← twosComplement_start]
  rw [signed32_iff nonempty, value]
  constructor
  · rintro ⟨same, _⟩
    refine ⟨?_, ?_⟩
    · intro five zero
      exact (shorten_five five zero).mp (same.mp (.inr ⟨five, zero⟩))
    · intro unfit
      exact Nat.lt_of_not_le fun short => unfit (same.mpr short)
  · rintro ⟨fives, longer⟩
    have fitting : IntFits content → (shorten content).length ≤ 4 := by
      rintro (short | ⟨five, zero⟩)
      · exact Nat.le_trans (shorten_length_le content) short
      · exact (shorten_five five zero).mpr (fives five zero)
    refine ⟨⟨fitting, ?_⟩, ?_⟩
    · intro _
      by_contra unfit
      have long := longer unfit
      omega
    · intro fits
      obtain ⟨lower, upper⟩ := (signed32_iff nonempty).mpr (fitting fits)
      exact toInt32_of_range lower upper

theorem unsigned_exact_iff {tag : UInt8} (notInteger : tag ≠ asn1Integer) (nonempty : content ≠ []) :
    ((IntFits content ↔ Unsigned32 (twosComplement content)) ∧
      (IntFits content → intOf tag content % 2 ^ 32 = twosComplement content)) ↔ IntExact tag content := by
  have value : intOf tag content % 2 ^ 32 = bigEndian content % 256 ^ 4 := by
    have start : intStart tag content = 0 := by simp [intStart, notInteger]
    rw [intOf_eq, start, Int.zero_mul, Int.zero_add]
    exact Int.bmod_emod
  have short : IntFits content → content.length ≤ 5 := by
    rintro (_ | ⟨_, _⟩) <;> omega
  refine (unsigned_decodes_iff nonempty short value).trans ?_
  rw [IntExact, if_neg notInteger]
  refine and_congr_left fun _ => ⟨fun fitting short => (fitting (.inl short)).2, ?_⟩
  rintro positive (short | ⟨five, zero⟩)
  · exact ⟨.inl short, positive short⟩
  · exact ⟨.inr ⟨five, zero⟩, by rw [zero]; decide⟩

theorem unsigned64_exact_iff (nonempty : content ≠ []) : ((content.length ≤ 9 ↔ Unsigned64 (twosComplement content)) ∧
      (content.length ≤ 9 → ((bigEndian content % 2 ^ 64 : Nat) : Int) = twosComplement content)) ↔
        Unsigned64Exact content := by
  refine (@unsigned_decodes_iff _ 8 _ _ nonempty id (by push_cast; rfl)).trans ?_
  rw [Unsigned64Exact, ← and_assoc, Nat.not_le]
  refine and_congr_left fun _ => ?_
  constructor
  · intro fitting
    refine ⟨fun short => (fitting (by omega)).2, fun nine => ?_⟩
    rcases (fitting (by omega)).1 with short | ⟨_, zero⟩
    · omega
    · exact zero
  · rintro ⟨positive, nine⟩ short
    by_cases exact : content.length = 9
    · exact ⟨.inr ⟨exact, nine exact⟩, by rw [nine exact]; decide⟩
    · exact ⟨.inl (by omega), positive (by omega)⟩

theorem tnmBerDec_exact_iff {lengthOctets content : Octets} (nonempty : content ≠ [])
    (declared : BerLength lengthOctets content.length) (rest : Octets) (pos : Nat) :
    (∀ tag, tag = asn1Integer ∨ unsignedTag tag →
      (DecodesNumber (tnmBerDecInt tag ⟨tag :: (lengthOctets ++ content) ++ rest, pos⟩) (Representable tag)
        (numberOf tag)
        (twosComplement content) ↔ IntExact tag content)) ∧
    (DecodesNumber (tnmBerDecUnsigned64 ⟨asn1Counter64 :: (lengthOctets ++ content) ++ rest, pos⟩) Unsigned64 Nat.cast
      (twosComplement content) ↔ Unsigned64Exact content) := by
  refine ⟨?_, ?_⟩
  · intro tag known
    have accepts : ∀ value, (tnmBerDecInt tag ⟨tag :: (lengthOctets ++ content) ++ rest, pos⟩).1 = some value ↔
        IntFits content ∧ value = intOf tag content := by
      intro value
      rw [decode_element_iff (tnmBerDecInt_reads tag) declared value]
      refine and_iff_right_iff_imp.mpr fun ⟨fits, _⟩ => ?_
      rcases fits with _ | ⟨_, _⟩ <;> omega
    rw [decodesNumber_iff accepts, Representable, numberOf]
    rcases known with rfl | unsigned
    · exact integer_exact_iff nonempty
    · have notInteger : tag ≠ asn1Integer := by
        rintro rfl
        rcases unsigned with isTag | isTag | isTag <;> cases isTag
      rw [if_neg notInteger, if_neg notInteger]
      exact unsigned_exact_iff notInteger nonempty
  · have accepts : ∀ value,
        (tnmBerDecUnsigned64 ⟨asn1Counter64 :: (lengthOctets ++ content) ++ rest, pos⟩).1 = some value ↔
        content.length ≤ 9 ∧ value = bigEndian content % 2 ^ 64 := by
      intro value
      rw [decode_element_iff tnmBerDecUnsigned64_reads declared value, Unsigned64Content, foldl_bigEndian]
      exact and_iff_right_iff_imp.mpr fun ⟨short, _⟩ => by omega
    rw [decodesNumber_iff accepts]
    exact unsigned64_exact_iff nonempty

theorem tnmBerDec_exact_short :
    DecodesNumber (tnmBerDecInt asn1Integer ⟨[0x02, 1, 0xff], 0⟩) (Representable asn1Integer) (numberOf asn1Integer)
      (-1) ∧
      DecodesNumber (tnmBerDecUnsigned64 ⟨[0x46, 2, 0x01, 0x00], 0⟩) Unsigned64 Nat.cast 256 := by
  have minusOne := (@tnmBerDec_exact_iff [1] [0xff] (by simp) (.inl ⟨1, rfl, by decide, rfl⟩) [] 0).1
    asn1Integer (.inl rfl)
  have large := (@tnmBerDec_exact_iff [2] [0x01, 0x00] (by simp) (.inl ⟨2, rfl, by decide, rfl⟩) [] 0).2
  refine ⟨minusOne.mpr ?_, large.mpr ?_⟩
  · exact ⟨fun five => by simp at five, fun unfit => absurd (.inl (by simp)) unfit⟩
  · exact ⟨fun _ => by decide, fun nine => by simp at nine, fun long => by simp at long⟩

/-- An INTEGER above 2^31 - 1, a negative Counter32 and a Counter64 of nine octets are accepted. -/
theorem tnmBerDec_wraps : (twosComplement [0, 0x80, 0, 0, 0] = 2147483648 ∧
      tnmBerDecInt asn1Integer ⟨[0x02, 5, 0, 0x80, 0, 0, 0], 0⟩ = (some (-2147483648), ⟨[], 7⟩) ∧
      ¬ DecodesNumber (tnmBerDecInt asn1Integer ⟨[0x02, 5, 0, 0x80, 0, 0, 0], 0⟩) (Representable asn1Integer)
        (numberOf asn1Integer) 2147483648) ∧
    (twosComplement [0xff] = -1 ∧ tnmBerDecInt asn1Counter32 ⟨[0x41, 1, 0xff], 0⟩ = (some 255, ⟨[], 3⟩) ∧
      ¬ DecodesNumber (tnmBerDecInt asn1Counter32 ⟨[0x41, 1, 0xff], 0⟩) (Representable asn1Counter32)
        (numberOf asn1Counter32) (-1)) ∧ twosComplement [1, 0, 0, 0, 0, 0, 0, 0, 5] = 2 ^ 64 + 5 ∧
      tnmBerDecUnsigned64 ⟨[0x46, 9, 1, 0, 0, 0, 0, 0, 0, 0, 5], 0⟩ = (some 5, ⟨[], 11⟩) ∧
      ¬ DecodesNumber (tnmBerDecUnsigned64 ⟨[0x46, 9, 1, 0, 0, 0, 0, 0, 0, 0, 5], 0⟩) Unsigned64 Nat.cast
        (2 ^ 64 + 5) := by
  refine ⟨⟨by decide +kernel, by decide +kernel, ?_⟩, ⟨by decide +kernel, by decide +kernel, ?_⟩, by decide +kernel,
    by decide +kernel, ?_⟩
  · intro right
    exact absurd (right.2 (-2147483648) (by decide +kernel)) (by decide)
  · intro right
    exact absurd (right.2 255 (by decide +kernel)) (by decide)
  · intro right
    exact absurd (right.2 5 (by decide +kernel)) (by decide)

end Tnm
