import TkinedRemix.Lib.Pointer
import TkinedRemix.Snmp.PduCore
import TkinedRemix.Snmp.BerFormat

/-!
The decoders of `tnmAsn1.c` with their pointer. They do what the readers of `BerCore` do.
-/

namespace Tnm

open Lib

namespace TnmBer

variable {ber : Buffer UInt8}

def decByte : Pointer ber UInt8 := Pointer.item

def decPeek : Pointer ber UInt8 := Pointer.peek

def decTag (tag : UInt8) : Pointer ber Unit := do
  let byte ← decByte
  Pointer.check (byte == tag)

def decLengthLoop : Nat → Nat → Pointer ber Nat
  | 0, length => pure length
  | left + 1, length => do
      let byte ← decByte
      Pointer.check (!(decide (left + 1 > 4) && byte != 0))
      decLengthLoop left ((length * 256 + byte.toNat) % 2 ^ 32)

def decLength : Pointer ber Nat := do
  let byte ← decByte
  if byte.toNat < 0x80 then pure byte.toNat
  else
    let length ← decLengthLoop (byte.toNat - 0x80) 0
    Pointer.check (decide (length < 2 ^ 31))
    pure length

def decSequenceStart (tag : UInt8) : Pointer ber (Nat × Nat) := do
  decTag tag
  let length ← decLength
  let token ← Pointer.position
  pure (token, length)

def decSequenceEnd (token length : Nat) : Pointer ber Unit := do
  let current ← Pointer.position
  Pointer.check (current == token + length)

def decIntLoop : Nat → Int → Pointer ber Int
  | 0, value => pure value
  | len + 1, value => do
      let byte ← decByte
      decIntLoop len (toInt32 (value * 256 + byte.toNat))

def decInt (tag : UInt8) : Pointer ber Int := do
  decTag tag
  let len ← decLength
  if len = 0 then pure 0
  else
    let byte ← decPeek
    Pointer.check (!((byte != 0 && decide (len > 4)) || (byte == 0 && decide (len - 1 > 4))))
    decIntLoop len (if tag == asn1Integer && decide (byte.toNat ≥ 0x80) then -1 else 0)

def decUnsigned64Loop : Nat → Nat → Pointer ber Nat
  | 0, value => pure value
  | len + 1, value => do
      let byte ← decByte
      decUnsigned64Loop len ((value * 256 + byte.toNat) % 2 ^ 64)

def decUnsigned64 : Pointer ber Nat := do
  decTag asn1Counter64
  let len ← decLength
  Pointer.check (decide (len ≤ 9))
  decUnsigned64Loop len 0

def decGroup (index : Nat) : Nat → Nat → Nat → Pointer ber (Nat × Nat)
  | 0, _, _ => Pointer.fail
  | fuel + 1, subid, used => do
      let byte ← decByte
      Pointer.write index
      if byte.toNat > 0x7f then decGroup index fuel ((subid * 128 + byte.toNat % 128) % 2 ^ 32) (used + 1)
      else pure ((subid * 128 + byte.toNat) % 2 ^ 32, used + 1)

def storeFirst (first : Bool) : Pointer ber Unit :=
  if first then do
    Pointer.write 0
    Pointer.write 1
  else pure ()

def oidIndex (oid : Oid) : Nat := if oid.isEmpty then 1 else oid.length

def decOidLoop : Nat → Int → Oid → Pointer ber (Oid × Int)
  | 0, len, oid => pure (oid, len)
  | fuel + 1, len, oid =>
    if len ≤ 0 then pure (oid, len)
    else do
      Pointer.write (oidIndex oid)
      let (subid, used) ← decGroup (oidIndex oid) (ber.stop + 1) 0 0
      storeFirst oid.isEmpty
      let oid := if oid.isEmpty then splitFirst subid else oid ++ [subid]
      Pointer.check (decide (oid.length ≤ tnmOidMaxSize))
      decOidLoop fuel (len - used) oid

def decOID : Pointer ber Oid := do
  decTag asn1ObjectIdentifier
  let len ← decLength
  Pointer.check (decide (len ≠ 0))
  let (oid, _) ← decOidLoop len len []
  pure oid

def decOctetString (tag : UInt8) : Pointer ber Octets := do
  decTag tag
  let len ← decLength
  Pointer.check (decide (len ≤ 65535))
  Pointer.take len

def decNull (tag : UInt8) : Pointer ber Unit := do
  decTag tag
  let _ ← decLength
  pure ()

def decAny : Pointer ber Octets :=
  Pointer.consumed do
    let _ ← decByte
    let len ← decLength
    Pointer.check (decide (len ≤ 65535))
    Pointer.take len

theorem decTag_follows (tag : UInt8) : Follows (decTag tag : Pointer ber Unit) (Tnm.decTag tag) :=
  Follows.item.bind fun _ => .check _

theorem decLengthLoop_follows (left : Nat) : ∀ length,
    Follows (decLengthLoop left length : Pointer ber Nat) (Tnm.decLengthLoop left length) := by
  induction left with
  | zero => exact .pure
  | succ _ ih =>
    intro _
    exact Follows.item.bind fun byte => (Follows.check _).bind fun _ => ih _

theorem decLength_follows : Follows (decLength : Pointer ber Nat) tnmBerDecLength := by
  refine Follows.item.bind fun byte => .ite (fun _ => .pure _) fun _ => ?_
  exact (decLengthLoop_follows _ _).bind fun length => (Follows.check _).bind fun _ => Follows.pure _

theorem decSequenceStart_follows (tag : UInt8) :
    Follows (decSequenceStart tag : Pointer ber (Nat × Nat)) (tnmBerDecSequenceStart tag) :=
  (decTag_follows tag).bind fun _ => decLength_follows.bind fun _ => Follows.position.bind fun _ => .pure _

theorem decSequenceEnd_follows (token length : Nat) :
    Follows (decSequenceEnd token length : Pointer ber Unit) (tnmBerDecSequenceEnd token length) :=
  Follows.position.bind fun _ => .check _

theorem decIntLoop_follows (len : Nat) : ∀ value,
    Follows (decIntLoop len value : Pointer ber Int) (Tnm.decIntLoop len value) := by
  induction len with
  | zero => exact .pure
  | succ _ ih =>
    intro _
    exact Follows.item.bind fun _ => ih _

theorem decInt_follows (tag : UInt8) : Follows (decInt tag : Pointer ber Int) (tnmBerDecInt tag) := by
  refine (decTag_follows tag).bind fun _ => decLength_follows.bind fun len => ?_
  refine .ite (fun _ => .pure _) fun _ => ?_
  exact Follows.peek.bind fun byte => (Follows.check _).bind fun _ => decIntLoop_follows len _

theorem decUnsigned64Loop_follows (len : Nat) : ∀ value,
    Follows (decUnsigned64Loop len value : Pointer ber Nat) (Tnm.decUnsigned64Loop len value) := by
  induction len with
  | zero => exact .pure
  | succ _ ih =>
    intro _
    exact Follows.item.bind fun _ => ih _

theorem decUnsigned64_follows : Follows (decUnsigned64 : Pointer ber Nat) tnmBerDecUnsigned64 :=
  (decTag_follows _).bind fun _ => decLength_follows.bind fun len => (Follows.check _).bind fun _ =>
    decUnsigned64Loop_follows len 0

theorem decOctetString_follows (tag : UInt8) :
    Follows (decOctetString tag : Pointer ber Octets) (tnmBerDecOctetString tag) :=
  (decTag_follows tag).bind fun _ => decLength_follows.bind fun len => (Follows.check _).bind fun _ => .take len

theorem decNull_follows (tag : UInt8) : Follows (decNull tag : Pointer ber Unit) (tnmBerDecNull tag) :=
  (decTag_follows tag).bind fun _ => decLength_follows.bind fun _ => .pure ()

theorem decAny_follows : Follows (decAny : Pointer ber Octets) tnmBerDecAny :=
  (Follows.item.bind fun _ => decLength_follows.bind fun len => (Follows.check _).bind fun _ => .take len).consumed

theorem write_writes (index : Nat) (place : Place) :
    ∃ more, (Pointer.write index : Pointer ber Unit) place = (some (), { place with writes := place.writes ++ more }) :=
  ⟨[index], rfl⟩

theorem storeFirst_writes (first : Bool) (place : Place) :
    ∃ more, (storeFirst first : Pointer ber Unit) place = (some (), { place with writes := place.writes ++ more }) := by
  cases first
  · exact ⟨[], by simp [storeFirst, Pointer.pure_apply]⟩
  · simp [storeFirst, Pointer.bind_apply, Pointer.write]

theorem decGroup_succ (index fuel subid used : Nat) (place : Place) :
    (decGroup index (fuel + 1) subid used : Pointer ber (Nat × Nat)) place =
      if ber.stop ≤ place.current then (none, place) else
        let moved : Place := ⟨place.current + 1, place.reads ++ [place.current], place.writes ++ [index]⟩
        if (ber.memory place.current).toNat > 0x7f then
          (decGroup index fuel ((subid * 128 + (ber.memory place.current).toNat % 128) % 2 ^ 32) (used + 1) :
            Pointer ber (Nat × Nat)) moved
        else (some ((subid * 128 + (ber.memory place.current).toNat) % 2 ^ 32, used + 1), moved) := by
  rw [decGroup, Pointer.bind_apply, decByte, Pointer.item]
  by_cases done : ber.stop ≤ place.current
  · rw [if_pos done, if_pos done]
  · rw [if_neg done]
    simp only
    split
    next => rfl
    next => rfl

theorem decGroup_moves (index fuel : Nat) : ∀ (subid used : Nat) (place : Place), ber.Inside place →
    Moves ber place ((decGroup index fuel subid used : Pointer ber (Nat × Nat)) place).2 := by
  induction fuel with
  | zero =>
    intro subid used place inside
    exact .refl inside.2
  | succ _ ih =>
    intro _ _ place inside
    rw [decGroup_succ]
    split
    next => exact .refl inside.2
    next open_ =>
      have step : Moves ber place ⟨place.current + 1, place.reads ++ [place.current], place.writes ++ [index]⟩ := by
        refine ⟨Nat.le_succ _, by simp only; omega, [place.current], rfl, ?_⟩
        simp only [List.mem_singleton]
        omega
      have lower := inside.1
      split
      next => exact step.trans (ih _ _ _ ⟨by simp only; omega, by simp only; omega⟩)
      next => exact step

theorem decGroup_same (index fuel : Nat) : ∀ (subid used : Nat) (place : Place), ber.Inside place →
    ber.stop - place.current < fuel → decSubidFrom subid used (ber.view place).data (ber.view place).pos =
      (((decGroup index fuel subid used : Pointer ber (Nat × Nat)) place).1,
        ber.view ((decGroup index fuel subid used : Pointer ber (Nat × Nat)) place).2) := by
  induction fuel with
  | zero =>
    omega
  | succ _ ih =>
    intro _ _ place inside _
    rw [decGroup_succ]
    split
    next done =>
      rw [Follows.view_done done]
      rfl
    next open_ =>
      have lower := inside.1
      rw [Follows.view_open open_, decSubidFrom]
      simp only [show place.current - ber.start + 1 = place.current + 1 - ber.start by omega]
      split
      next long => exact ih _ _ ⟨_, _, _⟩ ⟨by simp only; omega, by simp only; omega⟩ (by simp only; omega)
      next short => rfl

theorem decGroup_follows (index : Nat) :
    Follows (decGroup index (ber.stop + 1) 0 0 : Pointer ber (Nat × Nat)) decSubid :=
  ⟨fun place inside => decGroup_moves index _ 0 0 place inside,
    fun place inside => decGroup_same index _ 0 0 place inside (by omega)⟩

theorem decOidLoop_follows (fuel : Nat) : ∀ (len : Int) (oid : Oid),
    Follows (decOidLoop fuel len oid : Pointer ber (Oid × Int)) (Tnm.decOidLoop fuel len oid) := by
  induction fuel with
  | zero =>
    intro len oid
    exact .pure _
  | succ _ ih =>
    intro _ _
    refine .ite (fun _ => .pure _) fun _ => .writes_bind (write_writes _) ?_
    refine (decGroup_follows _).bind fun ⟨subid, used⟩ => .writes_bind (storeFirst_writes _) ?_
    exact (Follows.check _).bind fun _ => ih _ _

theorem decOID_follows : Follows (decOID : Pointer ber Oid) tnmBerDecOID :=
  (decTag_follows _).bind fun _ => decLength_follows.bind fun len => (Follows.check _).bind fun _ =>
    (decOidLoop_follows len len []).bind fun _ => .pure _

def decodeValue : Pointer ber Asn1Value := do
  let tag ← decPeek
  if isException tag then
    let _ ← Pointer.attempt (decNull tag)
    pure (.exception tag)
  else if tag = asn1Counter32 ∨ tag = asn1Gauge32 ∨ tag = asn1TimeTicks then
    let number ← decInt tag
    pure (.unsigned tag number)
  else if tag = asn1Integer then
    let number ← decInt tag
    pure (.integer number)
  else if tag = asn1Counter64 then
    let number ← decUnsigned64
    pure (.counter64 number)
  else if tag = asn1Null then
    decNull asn1Null
    pure .null
  else if tag = asn1ObjectIdentifier then
    let oid ← decOID
    pure (.objectIdentifier oid)
  else if tag = asn1IpAddress then
    let octets ← decOctetString asn1IpAddress
    Pointer.check (octets.length == 4)
    pure (.ipAddress octets)
  else if tag = asn1Opaque then
    let octets ← decOctetString tag
    pure (.opaqueData octets)
  else if tag = asn1OctetString then
    let octets ← decOctetString tag
    pure (.octetString octets)
  else
    let octets ← decAny
    pure (.any octets)

def decodeVarBind : Pointer ber TypedBind := do
  let (vbSeqToken, vbSeqLength) ← decSequenceStart asn1Sequence
  let soid ← decOID
  let value ← decodeValue
  decSequenceEnd vbSeqToken vbSeqLength
  pure ⟨soid, value⟩

theorem decodeValue_follows : Follows (decodeValue : Pointer ber Asn1Value) Tnm.decodeValue := by
  refine Follows.peek.bind fun tag => ?_
  refine Follows.ite (fun _ => (decNull_follows tag).attempt.bind fun _ => Follows.pure _) fun _ => ?_
  refine .ite (fun _ => (decInt_follows tag).bind fun _ => .pure _) fun _ => ?_
  refine .ite (fun _ => (decInt_follows tag).bind fun _ => .pure _) fun _ => ?_
  refine .ite (fun _ => decUnsigned64_follows.bind fun _ => .pure _) fun _ => ?_
  refine .ite (fun _ => (decNull_follows asn1Null).bind fun _ => .pure _) fun _ => ?_
  refine .ite (fun _ => decOID_follows.bind fun _ => .pure _) fun _ => ?_
  refine .ite (fun _ => (decOctetString_follows asn1IpAddress).bind fun _ =>
    (Follows.check _).bind fun _ => .pure _) fun _ => ?_
  refine .ite (fun _ => (decOctetString_follows tag).bind fun _ => .pure _) fun _ => ?_
  refine .ite (fun _ => (decOctetString_follows tag).bind fun _ => .pure _) fun _ => ?_
  exact decAny_follows.bind fun _ => .pure _

theorem decodeVarBind_follows : Follows (decodeVarBind : Pointer ber TypedBind) Tnm.decodeVarBind :=
  (decSequenceStart_follows _).bind fun _ => decOID_follows.bind fun _ => decodeValue_follows.bind fun _ =>
    (decSequenceEnd_follows _ _).bind fun _ => .pure _

end TnmBer

end Tnm
