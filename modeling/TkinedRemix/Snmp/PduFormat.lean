import TkinedRemix.Snmp.BerFormat
import TkinedRemix.Snmp.PduCore

/-!
The format of the packets that `DecodeMessage` accepts, put together from the formats of the BER decoder.
-/

namespace Tnm

open Lib

def exceptionFormat (tag : UInt8) : BerFormat Asn1Value := do
  let _ ← Format.attempt (tnmBerDecNull tag) (nullFormat tag)
  pure (.exception tag)

def valueFormat : BerFormat Asn1Value := do
  let tag ← Format.peek
  if isException tag then exceptionFormat tag
  else if tag = asn1Counter32 ∨ tag = asn1Gauge32 ∨ tag = asn1TimeTicks then
    let number ← intFormat tag
    pure (.unsigned tag number)
  else if tag = asn1Integer then
    let number ← intFormat tag
    pure (.integer number)
  else if tag = asn1Counter64 then
    let number ← primitiveFormat asn1Counter64 Unsigned64Content
    pure (.counter64 number)
  else if tag = asn1Null then
    nullFormat asn1Null
    pure .null
  else if tag = asn1ObjectIdentifier then
    let oid ← oidFormat
    pure (.objectIdentifier oid)
  else if tag = asn1IpAddress then
    let octets ← octetStringFormat asn1IpAddress
    Format.check (octets.length == 4)
    pure (.ipAddress octets)
  else if tag = asn1Opaque then
    let octets ← octetStringFormat tag
    pure (.opaqueData octets)
  else if tag = asn1OctetString then
    let octets ← octetStringFormat tag
    pure (.octetString octets)
  else
    let octets ← anyFormat
    pure (.any octets)

theorem decodeValue_reads : Reads decodeValue valueFormat := by
  refine .bind .peek fun tag => ?_
  refine .ite (.bind (.attempt (tnmBerDecNull_reads tag) (tnmBerDecNull_forward tag))
    fun _ => .pure _) ?_
  refine .ite (.bind (tnmBerDecInt_reads tag) fun _ => .pure _) ?_
  refine .ite (.bind (tnmBerDecInt_reads tag) fun _ => .pure _) ?_
  refine .ite (.bind tnmBerDecUnsigned64_reads fun _ => .pure _) ?_
  refine .ite (.bind (tnmBerDecNull_reads asn1Null) fun _ => .pure _) ?_
  refine .ite (.bind tnmBerDecOID_reads fun _ => .pure _) ?_
  refine .ite (.bind (tnmBerDecOctetString_reads asn1IpAddress) fun _ =>
    .bind (.check _) fun _ => .pure _) ?_
  refine .ite (.bind (tnmBerDecOctetString_reads tag) fun _ => .pure _) ?_
  refine .ite (.bind (tnmBerDecOctetString_reads tag) fun _ => .pure _) ?_
  exact .bind tnmBerDecAny_reads fun _ => .pure _

def varBindFormat : BerFormat TypedBind := do
  let (vbSeqToken, vbSeqLength) ← seqStartFormat asn1Sequence
  let soid ← oidFormat
  let value ← valueFormat
  seqEndFormat vbSeqToken vbSeqLength
  pure ⟨soid, value⟩

theorem decodeVarBind_reads : Reads decodeVarBind varBindFormat :=
  .bind (tnmBerDecSequenceStart_reads asn1Sequence) fun _ =>
    .bind tnmBerDecOID_reads fun _ => .bind decodeValue_reads fun _ =>
      .bind (tnmBerDecSequenceEnd_reads _ _) fun _ => .pure _

theorem varBindFormat_moves (pos : Nat) (rest : Octets) (varBind : TypedBind) (deviates : Bool) :
    ¬ varBindFormat pos [] rest varBind deviates := by
  rintro ⟨_, _, _, _, _, split, ⟨_, rfl, _⟩, _⟩
  simp at split

def varBindListFormat (vblSeqToken vblSeqLength pduSeqToken pduSeqLength : Nat) :
    BerFormat (List TypedBind) := do
  let varBinds ← Format.many varBindFormat
  seqEndFormat vblSeqToken vblSeqLength
  seqEndFormat pduSeqToken pduSeqLength
  pure varBinds

theorem decodeVarBindList_reads (vblSeqToken vblSeqLength pduSeqToken pduSeqLength : Nat) :
    Reads (decodeVarBindList vblSeqToken vblSeqLength pduSeqToken pduSeqLength)
      (varBindListFormat vblSeqToken vblSeqLength pduSeqToken pduSeqLength) :=
  .bind (.many decodeVarBind_reads varBindFormat_moves) fun _ =>
    .bind (tnmBerDecSequenceEnd_reads _ _) fun _ =>
      .bind (tnmBerDecSequenceEnd_reads _ _) fun _ => .pure _

def bareTrapFormat (pduSeqToken pduSeqLength : Nat) (raw : RawPdu) : BerFormat RawPdu :=
  fun pos consumed _ result deviates =>
    consumed = [] ∧ result = raw ∧ deviates = !(pos == pduSeqToken + pduSeqLength)

theorem bareTrap_reads (pduSeqToken pduSeqLength : Nat) (raw : RawPdu) :
    Reads (pure raw) (bareTrapFormat pduSeqToken pduSeqLength raw) := by
  refine (Reads.pure raw).remark ?_ ?_ ?_
  · rintro pos consumed rest result _ ⟨rfl, rfl, rfl⟩
    exact ⟨_, rfl, rfl, rfl⟩
  · rintro _ _ _ _ _ ⟨rfl, rfl, _⟩
    exact ⟨false, rfl, rfl, rfl⟩
  · rintro _ _ _ _ _ _ ⟨_, _, rfl⟩ ⟨_, _, rfl⟩
    rfl

def trapTailFormat (pduSeqToken pduSeqLength : Nat) (enterprise : Oid) (generic specific upTime : Int) :
    Option (Nat × Nat) → BerFormat RawPdu
  | none => bareTrapFormat pduSeqToken pduSeqLength ⟨trapPdu enterprise generic specific upTime [], none⟩
  | some (vblSeqToken, vblSeqLength) => do
      let varBinds ← varBindListFormat vblSeqToken vblSeqLength pduSeqToken pduSeqLength
      pure ⟨trapPdu enterprise generic specific upTime varBinds, some enterprise⟩

def trapFormat (pduSeqToken pduSeqLength : Nat) : BerFormat RawPdu := do
  let enterprise ← oidFormat
  let address ← octetStringFormat asn1IpAddress
  let generic ← intFormat asn1Integer
  let specific ← intFormat asn1Integer
  Format.check (address.length == 4)
  let upTime ← intFormat asn1TimeTicks
  let vblSeq ← Format.attempt (tnmBerDecSequenceStart asn1Sequence) (seqStartFormat asn1Sequence)
  trapTailFormat pduSeqToken pduSeqLength enterprise generic specific upTime vblSeq

theorem decodeTrap_reads (pduSeqToken pduSeqLength : Nat) :
    Reads (decodeTrap pduSeqToken pduSeqLength) (trapFormat pduSeqToken pduSeqLength) := by
  refine .bind tnmBerDecOID_reads fun enterprise => ?_
  refine .bind (tnmBerDecOctetString_reads asn1IpAddress) fun address => ?_
  refine .bind (tnmBerDecInt_reads asn1Integer) fun generic => ?_
  refine .bind (tnmBerDecInt_reads asn1Integer) fun specific => ?_
  refine .bind (.check _) fun _ => .bind (tnmBerDecInt_reads asn1TimeTicks) fun upTime => ?_
  refine .bind (.attempt (tnmBerDecSequenceStart_reads asn1Sequence)
    (tnmBerDecSequenceStart_forward asn1Sequence)) fun vblSeq => ?_
  cases vblSeq with
  | none => exact bareTrap_reads _ _ _
  | some => exact .bind (decodeVarBindList_reads _ _ _ _) fun _ => .pure _

def requestFormat (type : PduType) (pduSeqToken pduSeqLength : Nat) : BerFormat RawPdu := do
  let requestId ← intFormat asn1Integer
  let errorStatus ← intFormat asn1Integer
  let errorIndex ← intFormat asn1Integer
  Format.check (decide (0 ≤ errorStatus ∧ errorStatus ≤ 18))
  let (vblSeqToken, vblSeqLength) ← seqStartFormat asn1Sequence
  let varBinds ← varBindListFormat vblSeqToken vblSeqLength pduSeqToken pduSeqLength
  pure ⟨{ type, requestId, errorStatus, errorIndex, trapOid := "", varBinds }, none⟩

theorem decodeRequest_reads (type : PduType) (pduSeqToken pduSeqLength : Nat) :
    Reads (decodeRequest type pduSeqToken pduSeqLength) (requestFormat type pduSeqToken pduSeqLength) := by
  refine .bind (tnmBerDecInt_reads asn1Integer) fun _ => ?_
  refine .bind (tnmBerDecInt_reads asn1Integer) fun _ => ?_
  refine .bind (tnmBerDecInt_reads asn1Integer) fun _ => ?_
  refine .bind (.check _) fun _ => ?_
  refine .bind (tnmBerDecSequenceStart_reads asn1Sequence) fun _ => ?_
  exact .bind (decodeVarBindList_reads _ _ _ _) fun _ => .pure _

def pduBodyFormat (tag : UInt8) (pduSeqToken pduSeqLength : Nat) : BerFormat RawPdu :=
  match PduType.ofTag tag with
  | none => Format.fail
  | some type =>
    if type = .trap1 then trapFormat pduSeqToken pduSeqLength
    else requestFormat type pduSeqToken pduSeqLength

def pduFormat : BerFormat RawPdu := do
  let tag ← Format.peek
  let (pduSeqToken, pduSeqLength) ← seqStartFormat tag
  pduBodyFormat tag pduSeqToken pduSeqLength

theorem decodePdu_reads : Reads decodePdu pduFormat := by
  refine .bind .peek fun tag => .bind (tnmBerDecSequenceStart_reads tag) fun seq => ?_
  simp only [pduBodyFormat]
  cases PduType.ofTag tag with
  | none => exact .fail
  | some type => exact .ite (decodeTrap_reads _ _) (decodeRequest_reads type _ _)

def headerFormat : BerFormat MsgHeader := do
  let (seqToken, seqLength) ← seqStartFormat asn1Sequence
  let msgId ← intFormat asn1Integer
  let maxSize ← intFormat asn1Integer
  Format.check (decide (484 ≤ maxSize))
  let flags ← octetStringFormat asn1OctetString
  Format.check (flags.length == 1)
  let secModel ← intFormat asn1Integer
  Format.check (secModel == tnmSnmpUsmSecModel)
  seqEndFormat seqToken seqLength
  pure { msgId, maxSize, msgFlags := flags.headD 0 }

theorem decodeHeader_reads : Reads decodeHeader headerFormat := by
  refine .bind (tnmBerDecSequenceStart_reads asn1Sequence) fun _ => ?_
  refine .bind (tnmBerDecInt_reads asn1Integer) fun _ => ?_
  refine .bind (tnmBerDecInt_reads asn1Integer) fun _ => .bind (.check _) fun _ => ?_
  refine .bind (tnmBerDecOctetString_reads asn1OctetString) fun _ =>
    .bind (.check _) fun _ => ?_
  refine .bind (tnmBerDecInt_reads asn1Integer) fun _ => .bind (.check _) fun _ => ?_
  exact .bind (tnmBerDecSequenceEnd_reads _ _) fun _ => .pure _

def usmFormat (octets : Octets) : BerFormat UsmParams :=
  match (decodeUsmSecParams ⟨octets, 0⟩).1 with
  | some params => pure params
  | none => Format.fail

theorem decodeUsm_reads (octets : Octets) : Reads (decodeUsm octets) (usmFormat octets) := by
  unfold decodeUsm usmFormat
  cases (decodeUsmSecParams ⟨octets, 0⟩).1 with
  | some params => exact .pure params
  | none => exact .fail

def scopedPduFormat : BerFormat ScopedPdu := do
  let (seqToken, seqLength) ← seqStartFormat asn1Sequence
  let contextEngineId ← octetStringFormat asn1OctetString
  let context ← octetStringFormat asn1OctetString
  let raw ← pduFormat
  seqEndFormat seqToken seqLength
  pure { contextEngineId, context, raw }

theorem decodeScopedPdu_reads : Reads decodeScopedPdu scopedPduFormat := by
  refine .bind (tnmBerDecSequenceStart_reads asn1Sequence) fun _ => ?_
  refine .bind (tnmBerDecOctetString_reads asn1OctetString) fun _ => ?_
  refine .bind (tnmBerDecOctetString_reads asn1OctetString) fun _ => ?_
  exact .bind decodePdu_reads fun _ => .bind (tnmBerDecSequenceEnd_reads _ _) fun _ => .pure _

def communityFormat (version : SnmpVersion) : BerFormat Message := do
  let name ← octetStringFormat asn1OctetString
  let raw ← pduFormat
  pure (.community version name raw)

def secureFormat : BerFormat Message := do
  let header ← headerFormat
  let octets ← octetStringFormat asn1OctetString
  let params ← usmFormat octets
  let scopedPdu ← scopedPduFormat
  pure (.usm header params scopedPdu)

def bodyFormat (version : Int) : BerFormat Message :=
  if version = 0 then communityFormat .v1
  else if version = 1 then communityFormat .v2c
  else if version = 3 then secureFormat
  else Format.fail

theorem decodeBody_reads (version : Int) : Reads (decodeBody version) (bodyFormat version) := by
  have community : ∀ version, Reads (decodeCommunity version) (communityFormat version) := by
    intro _
    exact .bind (tnmBerDecOctetString_reads asn1OctetString) fun _ =>
      .bind decodePdu_reads fun _ => .pure _
  have secure : Reads decodeSecure secureFormat :=
    .bind decodeHeader_reads fun _ => .bind (tnmBerDecOctetString_reads asn1OctetString) fun _ =>
      .bind (decodeUsm_reads _) fun _ => .bind decodeScopedPdu_reads fun _ => .pure _
  exact .ite (community .v1) (.ite (community .v2c) (.ite secure .fail))

def messageFormat : BerFormat Message := do
  let (msgSeqToken, msgSeqLength) ← seqStartFormat asn1Sequence
  let version ← intFormat asn1Integer
  let message ← bodyFormat version
  seqEndFormat msgSeqToken msgSeqLength
  let done ← Format.atEnd
  Format.check done
  pure message

theorem decodeMessageReader_reads : Reads decodeMessageReader messageFormat := by
  refine .bind (tnmBerDecSequenceStart_reads asn1Sequence) fun _ => ?_
  refine .bind (tnmBerDecInt_reads asn1Integer) fun version => ?_
  refine .bind (decodeBody_reads version) fun _ => ?_
  refine .bind (tnmBerDecSequenceEnd_reads _ _) fun _ => ?_
  exact .bind .atEnd fun _ => .bind (.check _) fun _ => .pure _

theorem messageFormat_rest {pos : Nat} {consumed rest : Octets} {message : Message} {deviates : Bool}
    (matched : messageFormat pos consumed rest message deviates) : rest = [] := by
  obtain ⟨_, _, _, _, _, _, _, matched, _⟩ := matched
  obtain ⟨_, _, _, _, _, _, _, matched, _⟩ := matched
  obtain ⟨_, _, _, _, _, _, _, matched, _⟩ := matched
  obtain ⟨_, _, _, _, _, _, _, matched, _⟩ := matched
  obtain ⟨done, _⟩ := Format.check_bind.mp (Format.atEnd_bind.mp matched)
  exact (List.append_eq_nil_iff.mp (List.isEmpty_iff.mp done)).2

theorem decodeMessage_iff (packet : Octets) (message : Message) :
    decodeMessage packet = some message ↔ ∃ deviates, messageFormat 0 packet [] message deviates := by
  constructor
  · intro found
    have success : decodeMessageReader ⟨packet, 0⟩ = (some message, (decodeMessageReader ⟨packet, 0⟩).2) :=
      Prod.ext found rfl
    obtain ⟨_, deviates, split, _, matched⟩ := decodeMessageReader_reads.sound success
    have empty := messageFormat_rest matched
    rw [empty] at split matched
    rw [List.append_nil] at split
    rw [split]
    exact ⟨deviates, matched⟩
  · rintro ⟨_, matched⟩
    have success := decodeMessageReader_reads.complete matched
    rw [List.append_nil] at success
    rw [decodeMessage, success]

end Tnm
