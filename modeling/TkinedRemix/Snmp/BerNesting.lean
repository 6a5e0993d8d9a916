import TkinedRemix.Snmp.BerStream

/-!
Nested sequences. Closing a sequence moves its content, but the open sequences around it stay where they are.
-/

namespace Tnm

open Lib List Option

inductive BerValue where
  | int (tag : UInt8) (value : Int)
  | unsigned64 (value : Nat)
  | oid (subids : Oid)
  | octetString (tag : UInt8) (octets : Octets)
  | null (tag : UInt8)

inductive BerItems where
  | done
  | value (value : BerValue) (rest : BerItems)
  | sequence (tag : UInt8) (inside rest : BerItems)

def BerValue.tag : BerValue → UInt8
  | .int tag _ => tag
  | .unsigned64 _ => asn1Counter64
  | .oid _ => asn1ObjectIdentifier
  | .octetString tag _ => tag
  | .null tag => tag

def BerValue.content : BerValue → Octets
  | .int _ value => intOctets value
  | .unsigned64 value => unsigned64Octets 128 value
  | .oid subids => oidOctets subids
  | .octetString _ octets => octets
  | .null _ => []

def BerValue.encode {size : Nat} (ber : BerStream size) : BerValue → Option (BerStream size)
  | .int tag value => ber.encContent tag (intOctets value)
  | .unsigned64 value => ber.encContent asn1Counter64 (unsigned64Octets 128 value)
  | .oid subids =>
    if subids.length < 2 ∨ subids.headD 0 > 2 then none else ber.encContent asn1ObjectIdentifier (oidOctets subids)
  | .octetString tag octets => ber.encContent tag octets
  | .null tag => do
      let ber ← ber.encByte tag
      ber.encByte 0

def encodeItems {size : Nat} : BerItems → BerStream size → Option (BerStream size)
  | .done, ber => some ber
  | .value value rest, ber => do
      let ber ← value.encode ber
      encodeItems rest ber
  | .sequence tag inside rest, ber => do
      let (ber, token) ← ber.encSequenceStart tag
      let ber ← encodeItems inside ber
      let ber ← ber.encSequenceEnd token
      encodeItems rest ber

def decodeItems : BerItems → BerReader Unit
  | .done => pure ()
  | .value _ rest => do
      let _ ← tnmBerDecAny
      decodeItems rest
  | .sequence tag inside rest => do
      let (token, length) ← tnmBerDecSequenceStart tag
      decodeItems inside
      tnmBerDecSequenceEnd token length
      decodeItems rest

def Nested : BerItems → Octets → Prop
  | .done, encoding => encoding = []
  | .value value rest, encoding =>
    ∃ front back, encoding = front ++ back ∧ Tlv value.tag value.content front ∧ Nested rest back
  | .sequence tag inside rest, encoding =>
    ∃ front back content, encoding = front ++ back ∧ Nested inside content ∧ Tlv tag content front ∧ Nested rest back

section

variable {size : Nat}

def Grown (ber after : BerStream size) (octets : Octets) : Prop := after.octets = ber.octets ++ octets

variable {ber after : BerStream size}

theorem Grown.current {octets : Octets} (grown : Grown ber after octets) :
    after.current = ber.current + octets.length := by
  rw [← after.octets_length, grown, length_append, ber.octets_length]

theorem Grown.trans {middle : BerStream size} {front back : Octets} (first : Grown ber middle front)
    (second : Grown middle after back) : Grown ber after (front ++ back) := by
  rw [Grown, second, first, append_assoc]

theorem encByte_grown {byte : UInt8} (found : ber.encByte byte = some after) : Grown ber after [byte] := by
  have written := ber.encByte_octets byte
  rw [found] at written
  exact (encByte_eq_some.mp written.symm).2

variable {tag : UInt8} {content : Octets}

theorem encLength_grown {started : BerStream size} (filled : Grown ber started (tag :: 0 :: content))
    (found : started.encLength (ber.current + 1) content.length = some after) :
    Grown ber after (tag :: (encodedLength content.length ++ content)) := by
  have grown := filled.current
  rw [length_cons, length_cons] at grown
  have written := BerStream.encLength_octets content.length (show ber.current + 1 < started.current by omega)
  rw [found, filled, ← ber.octets_length] at written
  have fits : (ber.octets ++ tag :: 0 :: content).length ≤ size := by
    rw [← filled, started.octets_length]
    exact started.inside
  exact (encLength_eq_some fits written.symm).1

theorem encBytes_grown {bytes : Octets} (found : ber.encBytes bytes = some after) : Grown ber after bytes := by
  have written := ber.encBytes_octets bytes
  rw [found] at written
  refine (encBytes_eq_some ?_ written.symm).1
  rw [ber.octets_length]
  exact ber.inside

theorem encContent_grown (found : ber.encContent tag content = some after) :
    Grown ber after (tag :: (encodedLength content.length ++ content)) := by
  obtain ⟨_, firstFound, rest⟩ := bind_eq_some_iff.mp found
  obtain ⟨_, secondFound, rest⟩ := bind_eq_some_iff.mp rest
  obtain ⟨_, thirdFound, last⟩ := bind_eq_some_iff.mp rest
  have filled := ((encByte_grown firstFound).trans (encByte_grown secondFound)).trans (encBytes_grown thirdFound)
  rw [(encByte_grown firstFound).current] at last
  exact encLength_grown filled last

theorem sequence_grown {started inner : BerStream size} {token : Nat}
    (start : ber.encSequenceStart tag = some (started, token)) (inside : Grown started inner content)
    (last : inner.encSequenceEnd token = some after) :
    Grown ber after (tag :: (encodedLength content.length ++ content)) := by
  obtain ⟨first, firstFound, rest⟩ := bind_eq_some_iff.mp start
  obtain ⟨_, secondFound, rest⟩ := bind_eq_some_iff.mp rest
  cases rest
  have opened := (encByte_grown firstFound).trans (encByte_grown secondFound)
  have filled := opened.trans inside
  have tokens := (encByte_grown firstFound).current
  have measured : inner.current - (first.current + 1) = content.length := by
    have grown := filled.current
    simp only [length_append, length_cons, length_nil] at grown tokens
    omega
  rw [BerStream.encSequenceEnd, measured, tokens] at last
  exact encLength_grown filled last

theorem value_grown {value : BerValue} (found : value.encode ber = some after) :
    Grown ber after (value.tag :: (encodedLength value.content.length ++ value.content)) := by
  cases value with
  | int | unsigned64 | octetString => exact encContent_grown found
  | oid =>
    rw [BerValue.encode] at found
    split at found
    · cases found
    · exact encContent_grown found
  | null =>
    obtain ⟨_, firstFound, last⟩ := bind_eq_some_iff.mp found
    exact (encByte_grown firstFound).trans (encByte_grown last)

def itemsOctets : BerItems → Octets
  | .done => []
  | .value value rest => value.tag :: (encodedLength value.content.length ++ value.content) ++ itemsOctets rest
  | .sequence tag inside rest =>
    tag :: (encodedLength (itemsOctets inside).length ++ itemsOctets inside) ++ itemsOctets rest

theorem encodeItems_grown (items : BerItems) : ∀ {ber after : BerStream size}, encodeItems items ber = some after →
    Grown ber after (itemsOctets items) := by
  induction items with
  | done =>
    intro ber after found
    cases found
    exact (append_nil _).symm
  | value _ _ ih =>
    intro ber after found
    obtain ⟨_, first, last⟩ := bind_eq_some_iff.mp found
    exact (value_grown first).trans (ih last)
  | sequence _ _ _ insideIh restIh =>
    intro _ _ found
    obtain ⟨⟨_, _⟩, start, found⟩ := bind_eq_some_iff.mp found
    obtain ⟨_, insideFound, found⟩ := bind_eq_some_iff.mp found
    obtain ⟨_, end_, last⟩ := bind_eq_some_iff.mp found
    exact (sequence_grown start (insideIh insideFound) end_).trans (restIh last)

end

theorem nested_itemsOctets (items : BerItems) (short : (itemsOctets items).length < 65536) :
    Nested items (itemsOctets items) := by
  induction items with
  | done => rfl
  | value value _ ih =>
    simp only [itemsOctets, length_append, length_cons] at short
    exact ⟨_, _, rfl, tlv_encodedLength value.tag (by omega), ih (by omega)⟩
  | sequence tag _ _ insideIh restIh =>
    simp only [itemsOctets, length_append, length_cons] at short
    exact ⟨_, _, _, rfl, insideIh (by omega), tlv_encodedLength tag (by omega), restIh (by omega)⟩

theorem decAny_tlv {tag : UInt8} {content element : Octets} (tlv : Tlv tag content element)
    (small : content.length ≤ 65535)
    (rest : Octets) (pos : Nat) :
    tnmBerDecAny ⟨element ++ rest, pos⟩ = (some element, ⟨rest, pos + element.length⟩) := by
  obtain ⟨lengthOctets, declared, rfl⟩ := tlv
  apply tnmBerDecAny_reads.complete
  exact ⟨rfl, tag, content, lengthOctets, content, rfl, .inl ⟨declared, rfl⟩, small, rfl⟩

theorem decSequence_tlv {tag : UInt8} {content element : Octets} (tlv : Tlv tag content element) {body : BerReader Unit}
    (inside : ∀ rest pos, body ⟨content ++ rest, pos⟩ = (some (), ⟨rest, pos + content.length⟩)) (next : BerReader Unit)
    (rest : Octets) (pos : Nat) : (do
      let (token, length) ← tnmBerDecSequenceStart tag
      body
      tnmBerDecSequenceEnd token length
      next : BerReader Unit) ⟨element ++ rest, pos⟩ = next ⟨rest, pos + element.length⟩ := by
  obtain ⟨lengthOctets, declared, rfl⟩ := tlv
  have opened : tnmBerDecSequenceStart tag ⟨tag :: lengthOctets ++ (content ++ rest), pos⟩ =
      (some (pos + (tag :: lengthOctets).length, content.length),
          ⟨content ++ rest, pos + (tag :: lengthOctets).length⟩) :=
    (tnmBerDecSequenceStart_reads tag).complete ⟨lengthOctets, rfl, .inl ⟨declared, rfl⟩, rfl⟩
  have closed : tnmBerDecSequenceEnd (pos + (tag :: lengthOctets).length) content.length
      ⟨rest, pos + (tag :: lengthOctets).length + content.length⟩ =
        (some (), ⟨rest, pos + (tag :: lengthOctets).length + content.length⟩) := by
    rw [tnmBerDecSequenceEnd, Reader.bind_apply]
    simp [Reader.position, Reader.check, Reader.pure_apply]
  have shape : tag :: (lengthOctets ++ content) ++ rest = tag :: lengthOctets ++ (content ++ rest) := by simp
  rw [shape, Reader.bind_apply, opened]
  simp only
  rw [Reader.bind_apply, inside]
  simp only
  rw [Reader.bind_apply, closed]
  simp only [length_cons, length_append]
  congr 2
  omega

theorem decodeItems_nested (items : BerItems) : ∀ {encoding : Octets}, Nested items encoding → encoding.length < 65536 →
    ∀ rest pos, decodeItems items ⟨encoding ++ rest, pos⟩ = (some (), ⟨rest, pos + encoding.length⟩) := by
  induction items with
  | done =>
    rintro encoding rfl _ rest pos
    rfl
  | value _ _ ih =>
    rintro _ ⟨_, back, rfl, tlv, nested⟩ short rest pos
    have shorter := tlv_content_length tlv
    rw [length_append] at short
    rw [decodeItems, Reader.bind_apply, append_assoc, decAny_tlv tlv (by omega)]
    simp only
    rw [ih nested (by omega), length_append, Nat.add_assoc]
  | sequence _ inside items insideIh restIh =>
    rintro _ ⟨_, back, _, rfl, insideNested, tlv, nested⟩ short rest pos
    have shorter := tlv_content_length tlv
    rw [length_append] at short
    rw [append_assoc]
    have inside := decSequence_tlv tlv (insideIh insideNested (by omega)) (decodeItems items) (back ++ rest) pos
    exact inside.trans (by rw [restIh nested (by omega), length_append, Nat.add_assoc])

theorem encodeItems_nested {size : Nat} (items : BerItems) {ber after : BerStream size}
    (encoded : encodeItems items ber = some after) (total : after.current - ber.current < 65536) :
    ∃ encoding, after.octets = ber.octets ++ encoding ∧ Nested items encoding ∧
      ∀ rest pos, decodeItems items ⟨encoding ++ rest, pos⟩ = (some (), ⟨rest, pos + encoding.length⟩) := by
  have grown := encodeItems_grown items encoded
  have moved := grown.current
  have nested := nested_itemsOctets items (by omega)
  exact ⟨itemsOctets items, grown, nested, decodeItems_nested items nested (by omega)⟩

def emptyStream : BerStream 200 := ⟨List.replicate 200 0, 0, rfl, Nat.zero_le _⟩

def twiceNested : BerItems :=
  .sequence asn1Sequence
    (.sequence asn1Sequence (.value (.octetString asn1OctetString (List.replicate 126 7)) .done)
      (.value (.null asn1Null) .done))
    .done

theorem encodeItems_nested_twice : ∃ after, encodeItems twiceNested emptyStream = some after ∧
      after.octets.take 8 = [0x30, 0x81, 0x85, 0x30, 0x81, 0x80, 0x04, 0x7e] ∧
      ∃ encoding, after.octets = encoding ∧ Nested twiceNested encoding ∧
        ∀ rest pos, decodeItems twiceNested ⟨encoding ++ rest, pos⟩ = (some (), ⟨rest, pos + encoding.length⟩) := by
  have shown : (encodeItems twiceNested emptyStream).map (fun after => after.octets.take 8) =
      some [0x30, 0x81, 0x85, 0x30, 0x81, 0x80, 0x04, 0x7e] := by decide +kernel
  obtain ⟨after, encoded, leading⟩ := map_eq_some_iff.mp shown
  have inside := after.inside
  have total : after.current - emptyStream.current < 65536 := by omega
  exact ⟨after, encoded, leading, encodeItems_nested twiceNested encoded total⟩

end Tnm
