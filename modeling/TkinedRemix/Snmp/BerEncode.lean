import TkinedRemix.Snmp.BerTree

/-!
What the BER encoder appends to its buffer: if it succeeds, the buffer has grown by one BER tree.
-/

namespace Tnm

open Lib List Option

def Appends (size : Nat) (encode : Octets → Option Octets) (kind : Octets → Prop) : Prop :=
  ∀ out out', out.length ≤ size → encode out = some out' →
    ∃ octets, out' = out ++ octets ∧ kind octets ∧ out'.length ≤ size

variable {size : Nat} {kind : Octets → Prop}

theorem Appends.bind {first second : Octets → Option Octets} {later : Octets → Prop}
    (firstAppends : Appends size first kind) (secondAppends : Appends size second later) :
    Appends size (fun out => first out >>= second)
      (fun octets => ∃ front back, octets = front ++ back ∧ kind front ∧ later back) := by
  intro _ _ fits found
  obtain ⟨_, firstFound, secondFound⟩ := bind_eq_some_iff.mp found
  obtain ⟨front, rfl, ofKind, middleFits⟩ := firstAppends _ _ fits firstFound
  obtain ⟨back, rfl, ofLater, bounded⟩ := secondAppends _ _ middleFits secondFound
  exact ⟨front ++ back, by simp, ⟨front, back, rfl, ofKind, ofLater⟩, bounded⟩

theorem Appends.mono {encode : Octets → Option Octets} {kind' : Octets → Prop} (appends : Appends size encode kind)
    (weaker : ∀ octets, octets.length ≤ size → kind octets → kind' octets) : Appends size encode kind' := by
  intro _ _ fits found
  obtain ⟨octets, rfl, ofKind, bounded⟩ := appends _ _ fits found
  refine ⟨octets, rfl, weaker octets ?_ ofKind, bounded⟩
  rw [length_append] at bounded
  omega

variable {out out' : Octets}

theorem encByte_eq_some {byte : UInt8} :
    tnmBerEncByte size byte out = some out' ↔ out.length < size ∧ out' = out ++ [byte] := by
  rw [tnmBerEncByte]
  split
  next full =>
    simp only [reduceCtorEq, false_iff]
    omega
  next open_ =>
    simp only [Option.some.injEq]
    constructor
    · rintro rfl
      exact ⟨by omega, rfl⟩
    · rintro ⟨_, rfl⟩
      rfl

theorem encBytes_eq_some {bytes : Octets} : ∀ {out out' : Octets}, out.length ≤ size →
    tnmBerEncBytes size bytes out = some out' → out' = out ++ bytes ∧ out'.length ≤ size := by
  induction bytes with
  | nil =>
    intro out out' fits found
    cases found
    exact ⟨by simp, fits⟩
  | cons byte _ ih =>
    intro out _ _ found
    obtain ⟨_, first, second⟩ := bind_eq_some_iff.mp found
    obtain ⟨_, rfl⟩ := encByte_eq_some.mp first
    have advanced : (out ++ [byte]).length ≤ size := by
      rw [length_append, length_singleton]
      omega
    obtain ⟨rfl, bounded⟩ := ih advanced second
    exact ⟨by simp, bounded⟩

def encodedLength (length : Nat) : Octets :=
  if length < 0x80 then [UInt8.ofNat length]
  else UInt8.ofNat (0x80 + lengthOctetCount 4 length) :: longLengthOctets (lengthOctetCount 4 length) length

variable {length : Nat}

theorem lengthOctetCount_one (positive : 0 < length) (small : length < 256) : lengthOctetCount 4 length = 1 := by
  have zero : length / 256 = 0 := by omega
  simp [lengthOctetCount, zero]
  omega

theorem lengthOctetCount_two (large : 256 ≤ length) (small : length < 65536) : lengthOctetCount 4 length = 2 := by
  have nonzero : length / 256 ≠ 0 := by omega
  have zero : length / 256 / 256 = 0 := by omega
  have positive : length ≠ 0 := by omega
  simp [lengthOctetCount, nonzero, zero, positive]

theorem longLengthOctets_length (count length : Nat) : (longLengthOctets count length).length = count := by
  induction count with
  | zero => rfl
  | succ _ ih => rw [longLengthOctets, length_cons, ih]

theorem definiteLength_encodedLength (small : length < 65536) : DefiniteLength (encodedLength length) length := by
  rw [encodedLength]
  by_cases short : length < 0x80
  · rw [if_pos short]
    refine .inl ⟨UInt8.ofNat length, rfl, ?_, ?_⟩
    all_goals
      simp only [UInt8.toNat_ofNat']
      omega
  rw [if_neg short]
  by_cases one : length < 256
  · rw [lengthOctetCount_one (by omega) one]
    refine .inr ⟨_, _, rfl, by simp [longLengthOctets], rfl, ?_, by omega⟩
    simp [longLengthOctets, bigEndian]
    omega
  · rw [lengthOctetCount_two (by omega) small]
    refine .inr ⟨_, _, rfl, by simp [longLengthOctets], rfl, ?_, by omega⟩
    simp [longLengthOctets, bigEndian]
    omega

variable {tag : UInt8} {front content : Octets}

theorem encLength_eq_some (fits : (front ++ tag :: 0 :: content).length ≤ size)
    (found : tnmBerEncLength size (front.length + 1) content.length (front ++ tag :: 0 :: content) = some out') :
    out' = front ++ tag :: (encodedLength content.length ++ content) ∧ out'.length ≤ size := by
  rw [tnmBerEncLength] at found
  by_cases short : content.length < 0x80
  · cases (if_pos short).symm.trans found
    rw [encodedLength, if_pos short]
    have patched : (front ++ tag :: 0 :: content).set (front.length + 1) (UInt8.ofNat content.length) =
        front ++ tag :: ([UInt8.ofNat content.length] ++ content) := by
      simp
    rw [patched]
    exact ⟨rfl, by simpa using fits⟩
  · rw [if_neg short] at found
    simp only at found
    split at found
    · simp at found
    next room =>
      cases found
      rw [encodedLength, if_neg short]
      have before : (front ++ tag :: 0 :: content).take (front.length + 1) = front ++ [tag] := by
        simp [take_append]
      have behind : (front ++ tag :: 0 :: content).drop (front.length + 1 + 1) = content := by
        rw [show front ++ tag :: 0 :: content = (front ++ [tag, 0]) ++ content by simp]
        exact drop_left' (by simp)
      rw [before, behind]
      simp only [length_append, length_cons, longLengthOctets_length] at room ⊢
      simp
      omega

theorem seqStart_eq_some {token : Nat} : tnmBerEncSequenceStart size tag out = some (out', token) →
      out' = out ++ [tag, 0] ∧ token = out.length + 1 ∧ out'.length ≤ size := by
  intro found
  obtain ⟨_, firstFound, rest⟩ := bind_eq_some_iff.mp found
  obtain ⟨_, secondFound, last⟩ := bind_eq_some_iff.mp rest
  obtain ⟨_, rfl⟩ := encByte_eq_some.mp firstFound
  obtain ⟨_, rfl⟩ := encByte_eq_some.mp secondFound
  cases last
  refine ⟨by simp, by simp, ?_⟩
  rw [length_append, length_singleton]
  omega

theorem seqEnd_writes (fits : (front ++ [tag, 0] ++ content).length ≤ size)
    (found : tnmBerEncSequenceEnd size (front.length + 1) (front ++ [tag, 0] ++ content) = some out') :
    out' = front ++ tag :: (encodedLength content.length ++ content) ∧ out'.length ≤ size := by
  have shape : front ++ [tag, 0] ++ content = front ++ tag :: 0 :: content := by simp
  have measured : (front ++ [tag, 0] ++ content).length - (front.length + 1 + 1) = content.length := by
    simp only [length_append, length_cons, length_nil]
    omega
  rw [tnmBerEncSequenceEnd, measured, shape] at found
  rw [shape] at fits
  exact encLength_eq_some fits found

theorem tlv_encodedLength (tag : UInt8) (small : content.length < 65536) :
    Tlv tag content (tag :: (encodedLength content.length ++ content)) :=
  ⟨encodedLength content.length, definiteLength_encodedLength small, rfl⟩

theorem tlv_content_length {encoding : Octets} (tlv : Tlv tag content encoding) : content.length < encoding.length := by
  obtain ⟨_, _, rfl⟩ := tlv
  simp only [length_cons, length_append]
  omega

theorem seqEnd_eq_some (limit : size ≤ 65536) (fits : (front ++ [tag, 0] ++ content).length ≤ size)
    (found : tnmBerEncSequenceEnd size (front.length + 1) (front ++ [tag, 0] ++ content) = some out') :
    ∃ element, out' = front ++ element ∧ Tlv tag content element ∧ out'.length ≤ size := by
  obtain ⟨rfl, bounded⟩ := seqEnd_writes fits found
  have small : content.length < 65536 := by
    simp only [length_append, length_cons] at fits
    omega
  exact ⟨_, rfl, tlv_encodedLength tag small, bounded⟩

theorem element_appends (limit : size ≤ 65536) {body : Octets → Option Octets} (bodyAppends : Appends size body kind) :
    Appends size (fun out => do
        let (out, token) ← tnmBerEncSequenceStart size tag out
        let out ← body out
        tnmBerEncSequenceEnd size token out) (fun octets => ∃ content, kind content ∧ Tlv tag content octets) := by
  intro _ _ _ found
  obtain ⟨⟨_, _⟩, start, rest⟩ := bind_eq_some_iff.mp found
  obtain ⟨_, bodyFound, last⟩ := bind_eq_some_iff.mp rest
  obtain ⟨rfl, rfl, room⟩ := seqStart_eq_some start
  obtain ⟨content, rfl, ofKind, filledFits⟩ := bodyAppends _ _ room bodyFound
  obtain ⟨element, rfl, tlv, bounded⟩ := seqEnd_eq_some limit filledFits last
  exact ⟨element, rfl, ⟨content, ofKind, tlv⟩, bounded⟩

theorem octetString_writes (size : Nat) (tag : UInt8) (content : Octets) :
    Appends size (tnmBerEncOctetString size tag content)
      (fun octets => octets = tag :: (encodedLength content.length ++ content)) := by
  intro out _ _ found
  obtain ⟨_, firstFound, rest⟩ := bind_eq_some_iff.mp found
  obtain ⟨_, secondFound, rest⟩ := bind_eq_some_iff.mp rest
  obtain ⟨_, thirdFound, last⟩ := bind_eq_some_iff.mp rest
  obtain ⟨_, rfl⟩ := encByte_eq_some.mp firstFound
  obtain ⟨_, rfl⟩ := encByte_eq_some.mp secondFound
  have room : (out ++ [tag] ++ [0]).length ≤ size := by
    rw [length_append, length_singleton]
    omega
  obtain ⟨rfl, filled⟩ := encBytes_eq_some room thirdFound
  have shape : out ++ [tag] ++ [0] ++ content = out ++ tag :: 0 :: content := by simp
  rw [shape] at filled last
  rw [length_append] at last
  obtain ⟨rfl, bounded⟩ := encLength_eq_some filled last
  exact ⟨_, rfl, rfl, bounded⟩

theorem encByte_room (byte : UInt8) (room : out.length < size) :
    tnmBerEncByte size byte out = some (out ++ [byte]) := encByte_eq_some.mpr ⟨room, rfl⟩

theorem encBytes_room (bytes : Octets) : ∀ {out : Octets}, out.length + bytes.length ≤ size →
    tnmBerEncBytes size bytes out = some (out ++ bytes) := by
  induction bytes with
  | nil =>
    simp [tnmBerEncBytes]
  | cons byte _ ih =>
    intro _ room
    rw [length_cons] at room
    rw [tnmBerEncBytes, encByte_room byte (by omega), bind_eq_bind, bind_some, ih]
    · simp
    · simp only [length_append, length_singleton]
      omega

theorem encOctetString_room (tag : UInt8) (room : out.length + 2 + content.length ≤ size) :
    tnmBerEncOctetString size tag content out =
      tnmBerEncLength size (out ++ [tag]).length content.length (out ++ [tag] ++ [0] ++ content) := by
  have second : (out ++ [tag]).length < size := by
    rw [length_append, length_singleton]
    omega
  have third : (out ++ [tag] ++ [0]).length + content.length ≤ size := by
    simp only [length_append]
    omega
  rw [tnmBerEncOctetString, encByte_room tag (by omega), bind_eq_bind, bind_some, encByte_room 0 second,
    bind_some, encBytes_room content third, bind_some]

theorem encOctetString_short (tag : UInt8) (short : content.length < 0x80)
    (room : out.length + 2 + content.length ≤ size) :
    ∃ out', tnmBerEncOctetString size tag content out = some out' := by
  rw [encOctetString_room tag room, tnmBerEncLength, if_pos short]
  exact ⟨_, rfl⟩

theorem lengthOctetCount_le (fuel : Nat) : ∀ length, lengthOctetCount fuel length ≤ fuel := by
  induction fuel with
  | zero =>
    intro length
    exact Nat.le_refl 0
  | succ _ ih =>
    intro length
    have less := ih (length / 256)
    rw [lengthOctetCount]
    split <;> omega

theorem encOctetString_succeeds (tag : UInt8) (room : out.length + content.length + 6 < size) :
    ∃ out', tnmBerEncOctetString size tag content out = some out' := by
  have count := lengthOctetCount_le 4 content.length
  rw [encOctetString_room tag (by omega), tnmBerEncLength]
  split
  · exact ⟨_, rfl⟩
  · rw [if_neg]
    · exact ⟨_, rfl⟩
    · simp only [length_append, length_singleton]
      omega

theorem octetString_appends (limit : size ≤ 65536) (tag : UInt8) (content : Octets) :
    Appends size (tnmBerEncOctetString size tag content) (Tlv tag content) := by
  refine (octetString_writes size tag content).mono ?_
  rintro _ bounded rfl
  apply tlv_encodedLength
  simp only [length_cons, length_append] at bounded
  omega

theorem int_appends (limit : size ≤ 65536) (tag : UInt8) (value : Int) :
    Appends size (tnmBerEncInt size tag value) (Tlv tag (intOctets value)) :=
  octetString_appends limit tag (intOctets value)

theorem oid_appends (limit : size ≤ 65536) (oid : Oid) : Appends size (tnmBerEncOID size oid)
      (fun octets => (2 ≤ oid.length ∧ oid.headD 0 ≤ 2) ∧ Tlv asn1ObjectIdentifier (oidOctets oid) octets) := by
  intro out out' fits found
  rw [tnmBerEncOID] at found
  split at found
  · simp at found
  next legal =>
    obtain ⟨octets, rfl, tlv, bounded⟩ :=
      octetString_appends limit asn1ObjectIdentifier (oidOctets oid) out out' fits found
    exact ⟨octets, rfl, ⟨⟨by omega, by omega⟩, tlv⟩, bounded⟩

theorem null_appends (size : Nat) (tag : UInt8) : Appends size (tnmBerEncNull size tag) (Tlv tag []) := by
  intro _ _ _ found
  obtain ⟨_, firstFound, last⟩ := bind_eq_some_iff.mp found
  obtain ⟨_, rfl⟩ := encByte_eq_some.mp firstFound
  obtain ⟨_, rfl⟩ := encByte_eq_some.mp last
  refine ⟨[tag, 0], by simp, ⟨[0], .inl ⟨0, rfl, by decide, rfl⟩, rfl⟩, ?_⟩
  rw [length_append, length_singleton]
  omega

theorem foldl_toInt32 (content : Octets) (start : Int) :
    content.foldl (fun value byte => toInt32 (value * 256 + byte.toNat)) (toInt32 start) =
      toInt32 (start * 256 ^ content.length + bigEndian content) := by
  induction content generalizing start with
  | nil => simp [bigEndian]
  | cons byte _ ih =>
    have wrapped : toInt32 (toInt32 start * 256 + byte.toNat) = toInt32 (start * 256 + byte.toNat) := by
      rw [toInt32, toInt32, toInt32, ← Int.bmod_add_bmod, Int.bmod_mul_bmod, Int.bmod_add_bmod]
    rw [foldl_cons, wrapped, ih, bigEndian_cons, length_cons]
    congr 1
    push_cast
    ring

theorem intOf_eq (tag : UInt8) (content : Octets) :
    intOf tag content = toInt32 (intStart tag content * 256 ^ content.length + bigEndian content) := by
  have wrapped : intStart tag content = toInt32 (intStart tag content) := by
    rw [intStart]
    split <;> decide
  rw [intOf, wrapped, foldl_toInt32, ← wrapped]

theorem keptOctets (bits : Nat) (bound : bits < 2 ^ 32) : ((bits < 2 ^ 7 ∨ 2 ^ 32 - 2 ^ 7 ≤ bits) ∧
        leadingOctets (trimInt 4 bits).1 (trimInt 4 bits).2 = [UInt8.ofNat (bits % 256)]) ∨
      ((bits < 2 ^ 15 ∨ 2 ^ 32 - 2 ^ 15 ≤ bits) ∧ ¬ (bits < 2 ^ 7 ∨ 2 ^ 32 - 2 ^ 7 ≤ bits) ∧
        leadingOctets (trimInt 4 bits).1 (trimInt 4 bits).2 =
          [UInt8.ofNat (bits / 256 % 256), UInt8.ofNat (bits % 256)]) ∨
      ((bits < 2 ^ 23 ∨ 2 ^ 32 - 2 ^ 23 ≤ bits) ∧ ¬ (bits < 2 ^ 15 ∨ 2 ^ 32 - 2 ^ 15 ≤ bits) ∧
        leadingOctets (trimInt 4 bits).1 (trimInt 4 bits).2 =
          [UInt8.ofNat (bits / 65536 % 256), UInt8.ofNat (bits / 256 % 256), UInt8.ofNat (bits % 256)]) ∨
      (¬ (bits < 2 ^ 23 ∨ 2 ^ 32 - 2 ^ 23 ≤ bits) ∧ leadingOctets (trimInt 4 bits).1 (trimInt 4 bits).2 =
          [UInt8.ofNat (bits / 16777216), UInt8.ofNat (bits / 65536 % 256), UInt8.ofNat (bits / 256 % 256),
            UInt8.ofNat (bits % 256)]) := by
  simp only [trimInt]
  split_ifs with first second third
  · left
    refine ⟨by omega, ?_⟩
    simp only [leadingOctets, List.cons.injEq, and_true]
    exact congrArg UInt8.ofNat (by omega)
  · right; left
    refine ⟨by omega, by omega, ?_⟩
    simp only [leadingOctets, List.cons.injEq, and_true]
    exact ⟨congrArg UInt8.ofNat (by omega), congrArg UInt8.ofNat (by omega)⟩
  · right; right; left
    refine ⟨by omega, by omega, ?_⟩
    simp only [leadingOctets, List.cons.injEq, and_true]
    exact ⟨congrArg UInt8.ofNat (by omega), congrArg UInt8.ofNat (by omega), congrArg UInt8.ofNat (by omega)⟩
  · right; right; right
    refine ⟨first, ?_⟩
    simp only [leadingOctets, List.cons.injEq, and_true]
    exact ⟨by norm_num, congrArg UInt8.ofNat (by omega), congrArg UInt8.ofNat (by omega),
      congrArg UInt8.ofNat (by omega)⟩

variable {value : Int}

theorem toInt32_of_range (lower : -2 ^ 31 ≤ value) (upper : value < 2 ^ 31) : toInt32 value = value := by
  apply Int.bmod_eq_of_le
  · omega
  · omega

theorem intOctets_eq (value : Int) :
    intOctets value = leadingOctets (trimInt 4 (value % 2 ^ 32).toNat).1 (trimInt 4 (value % 2 ^ 32).toNat).2 :=
  rfl

theorem intOctets_length (value : Int) : 0 < (intOctets value).length ∧ (intOctets value).length ≤ 4 := by
  have kept := keptOctets (value % 2 ^ 32).toNat (by omega)
  rw [intOctets_eq]
  rcases kept with ⟨_, octets⟩ | ⟨_, _, octets⟩ | ⟨_, _, octets⟩ | ⟨_, octets⟩ <;> rw [octets] <;> simp

theorem intFits_intOctets (value : Int) : IntFits (intOctets value) := .inl (intOctets_length value).2

theorem intOctets_sum (lower : -2 ^ 31 ≤ value) (upper : value < 2 ^ 31) :
    intStart asn1Integer (intOctets value) * 256 ^ (intOctets value).length + bigEndian (intOctets value) = value := by
  obtain ⟨bits, isBits⟩ : ∃ bits, (value % 2 ^ 32).toNat = bits := ⟨_, rfl⟩
  have bound : bits < 2 ^ 32 := by omega
  have kept := keptOctets bits bound
  rw [intOctets_eq, isBits]
  rcases kept with ⟨_, octets⟩ | ⟨_, _, octets⟩ | ⟨_, _, octets⟩ | ⟨_, octets⟩
  all_goals
    rw [octets]
    simp only [intStart, bigEndian, headD_cons, length_cons, length_nil, foldl_cons,
      foldl_nil, UInt8.toNat_ofNat', beq_self_eq_true, Bool.true_and, decide_eq_true_eq]
    split_ifs <;> push_cast <;> omega

theorem intContent_intOctets (lower : -2 ^ 31 ≤ value) (upper : value < 2 ^ 31) :
    IntContent asn1Integer (intOctets value) value := by
  refine ⟨intFits_intOctets value, ?_⟩
  rw [intOf_eq, intOctets_sum lower upper, toInt32_of_range lower upper]

theorem lt_significantBits {bits subid : Nat} (bound : subid < 2 ^ bits) : subid < 2 ^ significantBits bits subid := by
  induction bits with
  | zero => simpa [significantBits] using bound
  | succ bits ih =>
    rw [significantBits]
    split
    · exact bound
    next clear =>
      apply ih
      rw [Nat.testBit_eq_decide_div_mod_eq, decide_eq_true_eq] at clear
      have quotient : subid / 2 ^ bits < 2 := by
        rw [Nat.div_lt_iff_lt_mul (by positivity), Nat.mul_comm]
        exact bound
      have zero : subid / 2 ^ bits = 0 := by
        generalize subid / 2 ^ bits = quotientValue at clear quotient
        omega
      exact (Nat.div_eq_zero_iff_lt (by positivity)).mp zero

theorem subidGroups_subid (groups subid : Nat) : Subid (subidGroups (groups + 1) subid) := by
  induction groups with
  | zero =>
    simp only [subidGroups, Subid, UInt8.toNat_ofNat']
    omega
  | succ groups ih =>
    have long : 0x7f < (UInt8.ofNat (subid / 128 ^ (groups + 1) % 128 + 128)).toNat := by
      simp only [UInt8.toNat_ofNat']
      omega
    exact (subid_cons_long long).mpr ih

theorem subidValue_subidGroups (groups subid start : Nat) : subidValue start (subidGroups groups subid) % 2 ^ 32 =
      (start * 128 ^ groups + subid % 128 ^ groups) % 2 ^ 32 := by
  induction groups generalizing start with
  | zero => simp [subidGroups, subidValue, Nat.mod_one]
  | succ groups ih =>
    have octet : ∀ number, (UInt8.ofNat (number % 128 + 128)).toNat % 128 = number % 128 := by
      simp only [UInt8.toNat_ofNat']
      omega
    cases groups with
    | zero =>
      simp only [subidGroups, subidValue, foldl_cons, foldl_nil, UInt8.toNat_ofNat', pow_one,
        zero_add]
      have small : subid % 128 % 2 ^ 8 % 128 = subid % 128 := by omega
      rw [small, Nat.mod_mod]
    | succ groups =>
      have digits : subid % 128 ^ (groups + 1 + 1) =
          subid / 128 ^ (groups + 1) % 128 * 128 ^ (groups + 1) + subid % 128 ^ (groups + 1) := by
        rw [Nat.pow_succ, Nat.mod_mul]
        ring
      rw [subidGroups, subidValue, foldl_cons, octet]
      change subidValue _ (subidGroups (groups + 1) subid) % 2 ^ 32 = _
      rw [ih, digits, Nat.add_mod, Nat.mod_mul_mod, ← Nat.add_mod]
      ring_nf

theorem subidValue_lt {octets : Octets} (nonempty : octets ≠ []) (start : Nat) : subidValue start octets < 2 ^ 32 := by
  obtain ⟨_, _, rfl⟩ := (eq_nil_or_concat' octets).resolve_left nonempty
  rw [subidValue, foldl_append]
  exact Nat.mod_lt _ (by norm_num)

theorem subidOctets_subid {subid : Nat} (bound : subid < 2 ^ 32) :
    Subid (subidOctets subid) ∧ subidValue 0 (subidOctets subid) = subid := by
  rw [subidOctets]
  split
  next short =>
    simp only [Subid, subidValue, foldl_cons, foldl_nil, UInt8.toNat_ofNat']
    omega
  next long =>
    have below := lt_significantBits bound
    obtain ⟨groups, isGroups⟩ : ∃ groups, (significantBits 32 subid + 6) / 7 = groups + 1 := by
      refine ⟨(significantBits 32 subid + 6) / 7 - 1, ?_⟩
      have nonzero : significantBits 32 subid ≠ 0 := by
        intro zero
        rw [zero] at below
        omega
      omega
    have fits : subid < 128 ^ (groups + 1) := by
      calc subid < 2 ^ significantBits 32 subid := below
        _ ≤ 2 ^ (7 * (groups + 1)) := Nat.pow_le_pow_right (by norm_num) (by omega)
        _ = 128 ^ (groups + 1) := by rw [Nat.pow_mul]
    have wellFormed := subidGroups_subid groups subid
    have value := subidValue_subidGroups (groups + 1) subid 0
    rw [isGroups]
    refine ⟨wellFormed, ?_⟩
    have nonempty : subidGroups (groups + 1) subid ≠ [] := by
      intro empty
      rw [empty] at wellFormed
      exact wellFormed
    rw [Nat.mod_eq_of_lt (subidValue_lt nonempty 0), Nat.zero_mul, Nat.zero_add, Nat.mod_eq_of_lt fits,
      Nat.mod_eq_of_lt bound] at value
    exact value

def repackOid : Oid → Oid
  | first :: second :: rest => splitFirst ((second + first * 40) % 2 ^ 32) ++ rest
  | oid => oid

theorem oidGroups_flatten (rest : Oid) : ∀ done : Oid, done ≠ [] → (∀ subid ∈ rest, subid < 2 ^ 32) →
    (done ++ rest).length ≤ tnmOidMaxSize →
      OidGroups ((rest.map subidOctets).flatten.length : Nat) done (rest.map subidOctets).flatten (done ++ rest) 0 := by
  induction rest with
  | nil =>
    intro done _ _ _
    rw [append_nil]
    exact .done (by simp)
  | cons subid _ ih =>
    intro done nonempty bounds short
    obtain ⟨wellFormed, value⟩ := subidOctets_subid (bounds subid (by simp))
    have positive := subid_length_pos wellFormed
    have grown : extendOid done (subidValue 0 (subidOctets subid)) = done ++ [subid] := by
      rw [value, extendOid, if_neg (by simpa using nonempty)]
    have later := ih (done ++ [subid]) (by simp) (fun other member => bounds other (by simp [member]))
      (by simpa using short)
    rw [map_cons, flatten_cons]
    refine .more ?_ wellFormed ?_ ?_
    · rw [length_append]
      omega
    · rw [grown]
      simp only [length_append, length_cons, length_nil] at short ⊢
      omega
    · rw [grown]
      simpa using later

theorem oidContent_oidOctets {oid : Oid} (long : 2 ≤ oid.length) (short : oid.length ≤ tnmOidMaxSize)
    (bounds : ∀ subid ∈ oid, subid < 2 ^ 32) : OidContent (oidOctets oid) (repackOid oid) := by
  match oid, long with
  | first :: second :: rest, _ =>
    have packedBound : (second + first * 40) % 2 ^ 32 < 2 ^ 32 := Nat.mod_lt _ (by norm_num)
    obtain ⟨wellFormed, value⟩ := subidOctets_subid packedBound
    have positive := subid_length_pos wellFormed
    have started : extendOid [] (subidValue 0 (subidOctets ((second + first * 40) % 2 ^ 32))) =
        splitFirst ((second + first * 40) % 2 ^ 32) := by
      rw [value]
      rfl
    have later := oidGroups_flatten rest (splitFirst ((second + first * 40) % 2 ^ 32)) (by simp [splitFirst])
      (fun subid member => bounds subid (by simp [member])) (by simpa [splitFirst] using short)
    refine ⟨?_, ?_⟩
    · intro empty
      rw [oidOctets, append_eq_nil_iff] at empty
      rw [empty.1] at positive
      exact Nat.lt_irrefl _ positive
    · rw [oidOctets, repackOid]
      refine .more ?_ wellFormed ?_ ?_
      · rw [length_append, Int.natCast_pos]
        exact Nat.add_pos_left positive _
      · rw [started]
        simp [splitFirst, tnmOidMaxSize]
      · rw [started]
        simpa using later

/-- The sum of the first two sub-identifiers neither wraps nor belongs to another first arc. -/
def Packs (oid : Oid) : Prop :=
  (oid.getD 0 0 < 2 → oid.getD 1 0 < 40) ∧ oid.getD 0 0 * 40 + oid.getD 1 0 < 2 ^ 32

theorem repackOid_eq_iff {oid : Oid} (long : 2 ≤ oid.length) (legal : oid.headD 0 ≤ 2)
    (bounds : ∀ subid ∈ oid, subid < 2 ^ 32) : repackOid oid = oid ↔ Packs oid := by
  match oid, long with
  | first :: second :: rest, _ =>
    simp only [repackOid, splitFirst, Packs, cons_append, nil_append, List.cons.injEq, and_true,
      getD_cons_zero, getD_cons_succ, headD_cons] at legal ⊢
    obtain rfl | rfl | rfl : first = 0 ∨ first = 1 ∨ first = 2 := by omega
    all_goals omega

end Tnm
