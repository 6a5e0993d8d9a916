import TkinedRemix.Snmp.OidBounds

/-!
What the decoders leave behind on any octets: they stay inside the buffer, and one that succeeds has moved over
one element, apart from three forms.
-/

namespace Tnm

open Lib List

def BerElement (octets : Octets) : Prop :=
  ∃ tag lengthOctets content, octets = tag :: (lengthOctets ++ content) ∧ BerLength lengthOctets content.length

theorem berElement_length {tag : UInt8} {lengthOctets content : Octets} {len : Nat}
    (definite : DefiniteLength lengthOctets len)
    (element : BerElement (tag :: (lengthOctets ++ content))) : content.length = len := by
  obtain ⟨_, _, _, shape, declared⟩ := element
  have same := (cons.inj shape).2.symm
  obtain ⟨rfl, rfl⟩ := berLength_unique declared definite same
  rw [append_cancel_left same]

theorem not_berElement_indefinite (tag : UInt8) : ¬ BerElement [tag, 0x80] := by
  rintro ⟨_, _, _, shape, declared⟩
  obtain ⟨_, shape⟩ := cons.inj shape
  rcases declared with ⟨_, rfl, short, _⟩ | ⟨_, _, rfl, nonempty, _⟩
  · obtain ⟨rfl, _⟩ := cons.inj shape
    exact absurd short (by decide)
  · obtain ⟨rfl, rest⟩ := cons.inj shape
    exact nonempty (append_eq_nil_iff.mp rest.symm).1

section

variable {ber : Buffer UInt8} {α : Type} {place : Place}

def KeepsBounds (run : Pointer ber α) (place : Place) : Prop :=
  ber.Inside (run place).2 ∧ ∃ new, (run place).2.reads = place.reads ++ new ∧
    ∀ address ∈ new, ber.start ≤ address ∧ address < ber.stop

variable {run : Pointer ber α} {read : BerReader α}

theorem keepsBounds (follows : Follows run read) (inside : ber.Inside place) : KeepsBounds run place := by
  obtain ⟨new, shape, bounds⟩ := (follows.moves place inside).reads
  exact ⟨follows.stays inside, new, shape, fun address member =>
    ⟨Nat.le_trans inside.1 (bounds address member).1, (bounds address member).2⟩⟩

def ConsumesElement (run : Pointer ber α) (place : Place) : Prop :=
  ∀ value last, run place = (some value, last) →
    ∃ element, BerElement element ∧ ber.ahead place = element ++ ber.ahead last

variable {rest : Octets} {deviates : Bool}

theorem consumed_element {format : BerFormat α} (follows : Follows run read) (reads : Reads read format)
    {consumed : Octets} {value : α} (inside : ber.Inside place) (split : ber.ahead place = consumed ++ rest)
    (matched : format (place.current - ber.start) consumed rest value deviates) (consumes : ConsumesElement run place) :
    BerElement consumed := by
  obtain ⟨success, left⟩ := follows.complete reads inside split matched
  obtain ⟨_, _, shape⟩ := consumes value _ (Prod.ext success rfl)
  rw [left, split] at shape
  rwa [append_cancel_right shape]

def Indefinite (data : Octets) : Prop := ∃ tag rest, data = tag :: 0x80 :: rest

variable {tag : UInt8}

theorem definite_of_format {pos len : Nat} {data lengthOctets content left : Octets}
    (notIndefinite : ¬ Indefinite data) (shape : data = tag :: (lengthOctets ++ content) ++ left)
    (format : lengthFormat pos lengthOctets rest len deviates) : DefiniteLength lengthOctets len := by
  rcases format with ⟨definite, _⟩ | ⟨rfl, _⟩
  · exact definite
  · exact absurd ⟨tag, content ++ left, shape⟩ notIndefinite

theorem element_of_format {pos : Nat} {data lengthOctets content left : Octets} (notIndefinite : ¬ Indefinite data)
    (shape : data = tag :: (lengthOctets ++ content) ++ left)
    (format : lengthFormat pos lengthOctets rest content.length deviates) :
    ∃ element, BerElement element ∧ data = element ++ left :=
  ⟨_, ⟨tag, lengthOctets, content, rfl, (definiteLength_iff.mp (definite_of_format notIndefinite shape format)).1⟩,
    shape⟩

theorem primitive_element {accepts : Octets → α → Prop} (follows : Follows run read)
    (reads : Reads read (primitiveFormat tag accepts)) (inside : ber.Inside place)
    (notIndefinite : ¬ Indefinite (ber.ahead place)) : ConsumesElement run place := by
  intro _ _ outcome
  obtain ⟨_, _, shape, _, _, _, _, rfl, format, _⟩ := follows.sound reads inside outcome
  exact element_of_format notIndefinite shape format

theorem decAny_element_iff (inside : ber.Inside place) :
    ConsumesElement (TnmBer.decAny : Pointer ber Octets) place ↔ ¬ Indefinite (ber.ahead place) := by
  constructor
  · rintro consumes ⟨tag, rest, shape⟩
    have matched : anyFormat (place.current - ber.start) [tag, 0x80] rest [tag, 0x80] true :=
      ⟨rfl, tag, [], [0x80], [], rfl, .inr ⟨rfl, rfl, rfl⟩, by decide, rfl⟩
    exact not_berElement_indefinite tag
      (consumed_element TnmBer.decAny_follows tnmBerDecAny_reads inside shape matched consumes)
  · intro notIndefinite _ _ outcome
    obtain ⟨_, _, shape, _, _, _, _, _, _, _, rfl, format, _⟩ :=
      TnmBer.decAny_follows.sound tnmBerDecAny_reads inside outcome
    exact element_of_format notIndefinite shape format

/-- An element with the tag of a NULL declares no content. -/
def NullEmpty (tag : UInt8) (data : Octets) : Prop :=
  ∀ lengthOctets body len, data = tag :: (lengthOctets ++ body) → DefiniteLength lengthOctets len → len = 0

theorem decNull_element_iff (tag : UInt8) (inside : ber.Inside place) (notIndefinite : ¬ Indefinite (ber.ahead place)) :
    ConsumesElement (TnmBer.decNull tag : Pointer ber Unit) place ↔ NullEmpty tag (ber.ahead place) := by
  constructor
  · intro consumes lengthOctets body len shape definite
    have matched : nullFormat tag (place.current - ber.start) (tag :: lengthOctets) body ()
        (false || decide (len ≠ 0)) :=
      ⟨lengthOctets, len, false, rfl, .inl ⟨definite, rfl⟩, rfl⟩
    have element :=
      consumed_element (TnmBer.decNull_follows tag) (tnmBerDecNull_reads tag) inside shape matched consumes
    rw [← append_nil lengthOctets] at element
    exact (berElement_length definite element).symm
  · intro empty _ last outcome
    obtain ⟨_, _, shape, _, _, lengthOctets, len, _, rfl, format, _⟩ :=
      (TnmBer.decNull_follows tag).sound (tnmBerDecNull_reads tag) inside outcome
    have whole : ber.ahead place = tag :: (lengthOctets ++ []) ++ ber.ahead last := by rw [shape, append_nil]
    rw [empty lengthOctets _ len shape (definite_of_format notIndefinite whole format)] at format
    exact element_of_format notIndefinite whole format

/-- Where the decoder accepts an identifier, the last declared octet ends a sub-identifier. -/
def OidWhole (data : Octets) : Prop :=
  ∀ lengthOctets body len, data = asn1ObjectIdentifier :: (lengthOctets ++ body) → DefiniteLength lengthOctets len →
    0 < len →
    TnmBer.Room 1 len body → (∃ octet ∈ body.drop (len - 1), isLast octet = true) →
      isLast (body.getD (len - 1) 0) = true

theorem decOID_consumed {oid : Oid} {last : Place} (inside : ber.Inside place)
    (outcome : (TnmBer.decOID : Pointer ber Oid) place = (some oid, last)) :
    ∃ lengthOctets groups len, DefiniteLength lengthOctets len ∧ len ≤ groups.length ∧
      ber.ahead place = asn1ObjectIdentifier :: (lengthOctets ++ groups) ++ ber.ahead last ∧
      last.current = place.current + (lengthOctets.length + 1) + groups.length := by
  obtain ⟨_, _, shape, moved, _, lengthOctets, groups, len, left, _, rfl, format, nonzero, matched, _⟩ :=
    TnmBer.decOID_follows.sound tnmBerDecOID_reads inside outcome
  rcases format with ⟨definite, _⟩ | ⟨_, zero, _⟩
  · refine ⟨lengthOctets, groups, len, definite, ?_, shape, ?_⟩
    · have left := oidGroups_left matched
      omega
    · rw [moved, length_cons, length_append]
      omega
  · exact absurd zero nonzero

theorem decOID_element_iff (inside : ber.Inside place) :
    ConsumesElement (TnmBer.decOID : Pointer ber Oid) place ↔ OidWhole (ber.ahead place) := by
  rcases TnmBer.decOID_cases inside with
    ⟨lengthOctets, len, moved, definite, positive, shape, start, quiet, movedInside, outcome⟩ | ⟨refused, fails, _⟩
  · obtain ⟨_, success, reaches⟩ :=
      TnmBer.decOidLoop_outcome len len [] moved positive (le_rfl) (by decide) movedInside
    -- what an accepted identifier has read, behind the same length
    have read : ∀ oid last, (TnmBer.decOID : Pointer ber Oid) place = (some oid, last) →
        ∃ groups, ber.ahead place = asn1ObjectIdentifier :: (lengthOctets ++ groups) ++ ber.ahead last ∧
          len ≤ groups.length ∧
          (TnmBer.Room 1 len (ber.ahead moved) → (groups.length ≤ len ↔ TnmBer.EndsInside len (ber.ahead moved))) := by
      intro oid last found
      obtain ⟨other, groups, otherLen, otherDefinite, runs, split, _⟩ := decOID_consumed inside found
      rw [cons_append, append_assoc] at split
      obtain ⟨rfl, _, rfl⟩ := declared_unique definite (definiteLength_iff.mp otherDefinite).1 (split.symm.trans shape)
      refine ⟨groups, by rw [split, cons_append, append_assoc], runs, ?_⟩
      intro room
      have final : last = _ := congrArg Prod.snd (found.symm.trans outcome)
      rw [← reaches room, ← final]
      omega
    constructor
    · intro consumes _ body _ otherShape otherDefinite _ room ends
      obtain ⟨rfl, rfl, rfl⟩ :=
        declared_unique definite (definiteLength_iff.mp otherDefinite).1 (otherShape.symm.trans shape)
      obtain ⟨result, found⟩ := Option.isSome_iff_exists.mp (success.mpr ⟨room, ends⟩)
      rw [found] at outcome
      obtain ⟨groups, split, runs, inLength⟩ := read result.1 _ outcome
      obtain ⟨_, isElement, same⟩ := consumes result.1 _ outcome
      rw [append_cancel_right (same.symm.trans split)] at isElement
      have length := berElement_length definite isElement
      exact ((ends_iff positive ((inLength room).mp (Nat.le_of_eq length))).mp ends).2
    · intro whole oid last found
      obtain ⟨groups, split, runs, inLength⟩ := read oid last found
      have accepted : ((TnmBer.decOidLoop len len [] : Pointer ber _) moved).1.isSome := by
        have some := congrArg (Option.isSome ∘ Prod.fst) (found.symm.trans outcome)
        simpa using some.symm
      obtain ⟨room, ends⟩ := success.mp accepted
      have short := whole lengthOctets _ len shape definite positive room ends
      have length := (inLength room).mpr fun _ => short
      have declared := (definiteLength_iff.mp definite).1
      rw [Nat.le_antisymm runs length] at declared
      exact ⟨_, ⟨_, lengthOctets, groups, rfl, declared⟩, split⟩
  · refine iff_of_true ?_ ?_
    · intro _ _ outcome
      rw [outcome] at fails
      cases fails
    · intro lengthOctets body len shape definite positive
      obtain ⟨declared, _⟩ := definiteLength_iff.mp definite
      have large := (refused lengthOctets body len shape declared).1 positive
      omega

def sequenceOf (tag : UInt8) (body : Pointer ber α) : Pointer ber α := do
  let (token, length) ← TnmBer.decSequenceStart tag
  let value ← body
  TnmBer.decSequenceEnd token length
  pure value

theorem sequence_element (tag : UInt8) {body : Pointer ber α} (follows : Follows body read)
    (inside : ber.Inside place) (notIndefinite : ¬ Indefinite (ber.ahead place)) :
    ConsumesElement (sequenceOf tag body) place := by
  intro _ last outcome
  obtain ⟨⟨token, length⟩, first, started, outcome⟩ := Pointer.bind_eq_some outcome
  obtain ⟨_, _, between, outcome⟩ := Pointer.bind_eq_some outcome
  obtain ⟨_, _, ended, finished⟩ := Pointer.bind_eq_some outcome
  cases finished
  obtain ⟨_, _, ⟨⟩, checked⟩ := Pointer.bind_eq_some ended
  obtain ⟨atEnd, rfl⟩ := Pointer.check_eq_some checked
  obtain ⟨_, _, shape, _, firstInside, lengthOctets, rfl, format, isToken⟩ :=
    (TnmBer.decSequenceStart_follows tag).sound (tnmBerDecSequenceStart_reads tag) inside started
  have moves := follows.moves first firstInside
  rw [between] at moves
  have content := ahead_moved ber moves.forward moves.inside
  have whole : ber.ahead place =
      tag :: (lengthOctets ++ ber.slice first.current (last.current - first.current)) ++ ber.ahead last := by
    rw [shape, content, cons_append, cons_append, append_assoc]
  -- the end of the sequence was found at the declared length
  have ends : last.current - ber.start = token + length := by simpa using atEnd
  have lower := inside.1
  have declared : (ber.slice first.current (last.current - first.current)).length = length := by
    rw [slice_length]
    omega
  rw [← declared] at format
  exact element_of_format notIndefinite whole format

theorem decodeVarBind_advances {varBind : TypedBind} {moved : Place} (inside : ber.Inside place)
    (outcome : (TnmBer.decodeVarBind : Pointer ber TypedBind) place = (some varBind, moved)) :
    place.current < moved.current := by
  obtain ⟨consumed, _, _, _, _, matched⟩ := TnmBer.decodeVarBind_follows.sound decodeVarBind_reads inside outcome
  have nonempty : consumed ≠ [] := by
    rintro rfl
    exact varBindFormat_moves _ _ _ _ matched
  have positive := length_pos_of_ne_nil nonempty
  omega

end

/-- What is asked of the decoders at a place, with the tags that are expected there. -/
structure DecodersConform (ber : Buffer UInt8) (tag nullTag : UInt8) (place : Place) : Prop where
  bytes : KeepsBounds (TnmBer.decByte : Pointer ber _) place ∧ KeepsBounds (TnmBer.decPeek : Pointer ber _) place ∧
    KeepsBounds (TnmBer.decLength : Pointer ber _) place
  sequences : KeepsBounds (TnmBer.decSequenceStart tag : Pointer ber _) place ∧
    ∀ token length, KeepsBounds (TnmBer.decSequenceEnd token length : Pointer ber _) place
  values : KeepsBounds (TnmBer.decInt tag : Pointer ber _) place ∧
    KeepsBounds (TnmBer.decUnsigned64 : Pointer ber _) place ∧
    KeepsBounds (TnmBer.decOctetString tag : Pointer ber _) place ∧ KeepsBounds (TnmBer.decOID : Pointer ber _) place ∧
    KeepsBounds (TnmBer.decNull nullTag : Pointer ber _) place ∧ KeepsBounds (TnmBer.decAny : Pointer ber _) place
  elements : ConsumesElement (TnmBer.decInt tag : Pointer ber _) place ∧
    ConsumesElement (TnmBer.decUnsigned64 : Pointer ber _) place ∧
    ConsumesElement (TnmBer.decOctetString tag : Pointer ber _) place ∧
    ConsumesElement (TnmBer.decOID : Pointer ber _) place ∧
      ConsumesElement (TnmBer.decNull nullTag : Pointer ber _) place ∧
    ConsumesElement (TnmBer.decAny : Pointer ber _) place
  nested : ∀ {α : Type} (body : Pointer ber α) (read : BerReader α), Follows body read →
    ConsumesElement (sequenceOf tag body) place
  progress : ∀ varBind moved, (TnmBer.decodeVarBind : Pointer ber _) place = (some varBind, moved) →
    place.current < moved.current
  ends : ∀ fuel, ber.stop - place.current < fuel →
    ((TnmBer.decodeVarBind : Pointer ber TypedBind).whileOpen fuel place).isSome

theorem decoders_conform_iff (ber : Buffer UInt8) (tag nullTag : UInt8) (place : Place) (inside : ber.Inside place) :
    DecodersConform ber tag nullTag place ↔
      ¬ Indefinite (ber.ahead place) ∧ NullEmpty nullTag (ber.ahead place) ∧ OidWhole (ber.ahead place) := by
  constructor
  · intro conform
    obtain ⟨_, _, _, oid, null, any⟩ := conform.elements
    have notIndefinite := (decAny_element_iff inside).mp any
    exact ⟨notIndefinite, (decNull_element_iff nullTag inside notIndefinite).mp null,
      (decOID_element_iff inside).mp oid⟩
  · rintro ⟨notIndefinite, empty, whole⟩
    refine ⟨⟨?_, ?_, ?_⟩, ⟨?_, ?_⟩, ⟨?_, ?_, ?_, ?_, ?_, ?_⟩, ⟨?_, ?_, ?_, ?_, ?_, ?_⟩, ?_, ?_, ?_⟩
    · exact keepsBounds Follows.item inside
    · exact keepsBounds Follows.peek inside
    · exact keepsBounds TnmBer.decLength_follows inside
    · exact keepsBounds (TnmBer.decSequenceStart_follows tag) inside
    · exact fun token length => keepsBounds (TnmBer.decSequenceEnd_follows token length) inside
    · exact keepsBounds (TnmBer.decInt_follows tag) inside
    · exact keepsBounds TnmBer.decUnsigned64_follows inside
    · exact keepsBounds (TnmBer.decOctetString_follows tag) inside
    · exact keepsBounds TnmBer.decOID_follows inside
    · exact keepsBounds (TnmBer.decNull_follows nullTag) inside
    · exact keepsBounds TnmBer.decAny_follows inside
    · exact primitive_element (TnmBer.decInt_follows tag) (tnmBerDecInt_reads tag) inside notIndefinite
    · exact primitive_element TnmBer.decUnsigned64_follows tnmBerDecUnsigned64_reads inside notIndefinite
    · exact primitive_element (TnmBer.decOctetString_follows tag) (tnmBerDecOctetString_reads tag) inside notIndefinite
    · exact (decOID_element_iff inside).mpr whole
    · exact (decNull_element_iff nullTag inside notIndefinite).mpr empty
    · exact (decAny_element_iff inside).mpr notIndefinite
    · exact fun body read follows => sequence_element tag follows inside notIndefinite
    · exact fun varBind moved outcome => decodeVarBind_advances inside outcome
    · rintro (_ | rounds) _
      · omega
      obtain ⟨_, _, loops, _⟩ := TnmBer.decodeVarBind_follows.whileOpen
        (fun place value moved inside outcome => decodeVarBind_advances inside outcome) rounds place inside (by omega)
      rw [loops]
      rfl

theorem decoders_conform_integer :
    DecodersConform (packetBuffer [0x02, 0x01, 0x05]) asn1Integer asn1Null ⟨0, [], []⟩ := by
  refine (decoders_conform_iff _ _ _ _ (by constructor <;> decide)).mpr ⟨?_, ?_, ?_⟩
  · rintro ⟨tag, rest, shape⟩
    exact absurd (cons.inj (cons.inj shape).2).1 (by decide)
  · intro lengthOctets body len shape
    exact absurd (cons.inj shape).1 (by decide)
  · intro lengthOctets body _ shape
    exact absurd (cons.inj shape).1 (by decide)

/-- The mark of the indefinite form, a NULL with a length, and an identifier that runs over its length. -/
theorem decoders_misread :
    ¬ ConsumesElement (TnmBer.decOctetString asn1OctetString : Pointer (packetBuffer [0x04, 0x80, 0x00, 0x00]) _)
      ⟨0, [], []⟩ ∧
    ¬ ConsumesElement (TnmBer.decNull asn1Null : Pointer (packetBuffer [0x05, 0x02, 0x00, 0x00]) _) ⟨0, [], []⟩ ∧
    ¬ ConsumesElement (TnmBer.decOID : Pointer (packetBuffer [0x06, 0x01, 0x81, 0x01]) _) ⟨0, [], []⟩ := by
  refine ⟨fun consumes => ?_, fun consumes => ?_, fun consumes => ?_⟩
  · have matched : octetStringFormat asn1OctetString 0 [0x04, 0x80] [0x00, 0x00] [] true :=
      ⟨[0x80], [], rfl, .inr ⟨rfl, rfl, rfl⟩, by decide, rfl⟩
    exact not_berElement_indefinite 0x04
      (consumed_element (TnmBer.decOctetString_follows _) (tnmBerDecOctetString_reads _)
      (by constructor <;> decide) rfl matched consumes)
  · have notIndefinite : ¬ Indefinite ((packetBuffer [0x05, 0x02, 0x00, 0x00]).ahead ⟨0, [], []⟩) := by
      rintro ⟨tag, rest, shape⟩
      exact absurd (cons.inj (cons.inj shape).2).1 (by decide)
    have empty := (decNull_element_iff asn1Null (by constructor <;> decide) notIndefinite).mp consumes
    exact absurd (empty [0x02] [0x00, 0x00] 2 rfl (.inl ⟨0x02, rfl, by decide, rfl⟩)) (by decide)
  · have whole := (decOID_element_iff (by constructor <;> decide)).mp consumes
    have short := whole [0x01] [0x81, 0x01] 1 rfl (.inl ⟨0x01, rfl, by decide, rfl⟩) (by decide)
      (by rw [TnmBer.Room]; decide) ⟨0x01, by decide, by decide⟩
    exact absurd short (by decide)

end Tnm
