import TkinedRemix.Snmp.RoundTrip

/-!
GetBulk messages. `DecodePDU` treats their non-repeaters and max-repetitions as error status and error index.
-/

namespace Tnm

open Lib List

structure SnmpStats where
  snmpInTooBigs : Nat
  snmpInNoSuchNames : Nat
  snmpInBadValues : Nat
  snmpInReadOnlys : Nat
  snmpInGenErrs : Nat
deriving Repr, DecidableEq

def countErrorStatus (stats : SnmpStats) (errorStatus : Int) : SnmpStats :=
  if errorStatus = 1 then { stats with snmpInTooBigs := stats.snmpInTooBigs + 1 }
  else if errorStatus = 2 then { stats with snmpInNoSuchNames := stats.snmpInNoSuchNames + 1 }
  else if errorStatus = 3 then { stats with snmpInBadValues := stats.snmpInBadValues + 1 }
  else if errorStatus = 4 then { stats with snmpInReadOnlys := stats.snmpInReadOnlys + 1 }
  else if errorStatus = 5 then { stats with snmpInGenErrs := stats.snmpInGenErrs + 1 }
  else stats

/-- `DecodePDU` up to the place where it counts the error status of a PDU. -/
def pduStatus : BerReader Int := do
  let tag ← tnmBerDecPeek
  let _ ← tnmBerDecSequenceStart tag
  match PduType.ofTag tag with
  | none => Reader.fail
  | some type =>
    if type = .trap1 then Reader.fail
    else
      let _ ← tnmBerDecInt asn1Integer
      let errorStatus ← tnmBerDecInt asn1Integer
      let _ ← tnmBerDecInt asn1Integer
      Reader.check (decide (0 ≤ errorStatus ∧ errorStatus ≤ 18))
      pure errorStatus

def messageStatus : BerReader Int := do
  let _ ← tnmBerDecSequenceStart asn1Sequence
  let version ← tnmBerDecInt asn1Integer
  if version = 0 ∨ version = 1 then
    let _ ← tnmBerDecOctetString asn1OctetString
    pduStatus
  else if version = 3 then
    let _ ← decodeHeader
    let octets ← tnmBerDecOctetString asn1OctetString
    let _ ← decodeUsm octets
    let _ ← tnmBerDecSequenceStart asn1Sequence
    let _ ← tnmBerDecOctetString asn1OctetString
    let _ ← tnmBerDecOctetString asn1OctetString
    pduStatus
  else Reader.fail

/-- The counters behind the decoding of a packet; a packet may be counted and then refused. -/
def decodeStats (stats : SnmpStats) (packet : Octets) : SnmpStats :=
  match (messageStatus ⟨packet, 0⟩).1 with
  | some errorStatus => countErrorStatus stats errorStatus
  | none => stats

structure BulkFields where
  requestId : Int
  nonRepeaters : Int
  maxRepetitions : Int
  varBinds : List TypedBind
deriving Repr, DecidableEq

def BulkPduTlv (encoding : Octets) (fields : BulkFields) : Prop :=
  ∃ idEnc nonRepeatersEnc maxRepetitionsEnc listEnc,
    Tlv PduType.getbulk.tag (idEnc ++ (nonRepeatersEnc ++ (maxRepetitionsEnc ++ listEnc))) encoding ∧
      IntTlv asn1Integer idEnc fields.requestId ∧ IntTlv asn1Integer nonRepeatersEnc fields.nonRepeaters ∧
      IntTlv asn1Integer maxRepetitionsEnc fields.maxRepetitions ∧ VarBindListTlv listEnc fields.varBinds

def BulkTlv (packet name : Octets) (fields : BulkFields) : Prop :=
  ∃ versionEnc nameEnc pduEnc, Tlv asn1Sequence (versionEnc ++ (nameEnc ++ pduEnc)) packet ∧
    IntTlv asn1Integer versionEnc (versionNumber .v2c) ∧ OctetsTlv asn1OctetString nameEnc name ∧
    BulkPduTlv pduEnc fields

def bulkRaw (fields : BulkFields) : RawPdu :=
  ⟨{ type := .getbulk, requestId := fields.requestId, errorStatus := fields.nonRepeaters,
     errorIndex := fields.maxRepetitions, trapOid := "", varBinds := fields.varBinds }, none⟩

variable {tag : UInt8} {encoding : Octets}

theorem decInt_of_tlv {value : Int} (tlv : IntTlv tag encoding value) (rest : Octets) (pos : Nat) :
    tnmBerDecInt tag ⟨encoding ++ rest, pos⟩ = (some value, ⟨rest, pos + encoding.length⟩) :=
  (tnmBerDecInt_reads tag).complete (int_strict.mpr tlv)

theorem decOctetString_of_tlv {octets : Octets} (tlv : OctetsTlv tag encoding octets) (rest : Octets) (pos : Nat) :
    tnmBerDecOctetString tag ⟨encoding ++ rest, pos⟩ = (some octets, ⟨rest, pos + encoding.length⟩) :=
  (tnmBerDecOctetString_reads tag).complete (octetString_strict.mpr tlv)

variable {content : Octets}

theorem decSequenceStart_of_tlv (tlv : Tlv tag content encoding) (rest : Octets) (pos : Nat) :
    ∃ seq moved, tnmBerDecSequenceStart tag ⟨encoding ++ rest, pos⟩ = (some seq, ⟨content ++ rest, moved⟩) := by
  obtain ⟨lengthOctets, declared, rfl⟩ := tlv
  have format : seqStartFormat tag pos (tag :: lengthOctets) (content ++ rest)
      (pos + (tag :: lengthOctets).length, content.length) false :=
    ⟨lengthOctets, rfl, lengthFormat_strict.mpr declared, rfl⟩
  have read := (tnmBerDecSequenceStart_reads tag).complete format
  rw [← append_assoc] at read
  exact ⟨_, _, read⟩

theorem peek_of_tlv (tlv : Tlv tag content encoding) (rest : Octets) (pos : Nat) :
    tnmBerDecPeek ⟨encoding ++ rest, pos⟩ = (some tag, ⟨encoding ++ rest, pos⟩) := by
  obtain ⟨_, _, rfl⟩ := tlv
  rfl

variable {fields : BulkFields}

theorem pduStatus_of_bulk {rest : Octets} (tree : BulkPduTlv encoding fields) (pos : Nat) :
    (pduStatus ⟨encoding ++ rest, pos⟩).1 =
      if 0 ≤ fields.nonRepeaters ∧ fields.nonRepeaters ≤ 18 then some fields.nonRepeaters else none := by
  obtain ⟨_, _, _, _, tlv, idTlv, nonRepeatersTlv, maxRepetitionsTlv, _⟩ := tree
  obtain ⟨_, _, started⟩ := decSequenceStart_of_tlv tlv rest pos
  have known : PduType.ofTag PduType.getbulk.tag = some .getbulk := by decide
  simp only [pduStatus, Reader.bind_apply, peek_of_tlv tlv rest pos, started, known, reduceCtorEq, if_false,
    append_assoc, decInt_of_tlv idTlv, decInt_of_tlv nonRepeatersTlv, decInt_of_tlv maxRepetitionsTlv]
  by_cases accepted : 0 ≤ fields.nonRepeaters ∧ fields.nonRepeaters ≤ 18
  · rw [if_pos accepted, decide_eq_true accepted]
    rfl
  · rw [if_neg accepted, decide_eq_false accepted]
    rfl

variable {packet name : Octets}

theorem messageStatus_of_bulk (tree : BulkTlv packet name fields) : (messageStatus ⟨packet, 0⟩).1 =
      if 0 ≤ fields.nonRepeaters ∧ fields.nonRepeaters ≤ 18 then some fields.nonRepeaters else none := by
  obtain ⟨versionEnc, nameEnc, pduEnc, tlv, versionTlv, nameTlv, pduTlv⟩ := tree
  obtain ⟨_, moved, started⟩ := decSequenceStart_of_tlv tlv [] 0
  rw [append_nil, append_nil] at started
  have community : versionNumber .v2c = 0 ∨ versionNumber .v2c = 1 := .inr rfl
  simp only [messageStatus, Reader.bind_apply, started, decInt_of_tlv versionTlv, if_pos community,
    decOctetString_of_tlv nameTlv]
  have read : (pduStatus ⟨pduEnc ++ [], moved + versionEnc.length + nameEnc.length⟩).1 = _ :=
    pduStatus_of_bulk pduTlv _
  rwa [append_nil] at read

theorem decodePdu_refused {rest : Octets} (tree : BulkPduTlv encoding fields) (pos : Nat)
    (refused : ¬ (0 ≤ fields.nonRepeaters ∧ fields.nonRepeaters ≤ 18)) :
    ∃ after, decodePdu ⟨encoding ++ rest, pos⟩ = (none, after) := by
  obtain ⟨_, _, _, _, tlv, idTlv, nonRepeatersTlv, maxRepetitionsTlv, _⟩ := tree
  obtain ⟨_, _, started⟩ := decSequenceStart_of_tlv tlv rest pos
  have known : PduType.ofTag PduType.getbulk.tag = some .getbulk := by decide
  simp only [decodePdu, decodeRequest, Reader.bind_apply, peek_of_tlv tlv rest pos, started, known, reduceCtorEq,
    if_false, append_assoc, decInt_of_tlv idTlv, decInt_of_tlv nonRepeatersTlv, decInt_of_tlv maxRepetitionsTlv,
    decide_eq_false refused]
  exact ⟨_, rfl⟩

theorem decodeMessage_refused (tree : BulkTlv packet name fields)
    (refused : ¬ (0 ≤ fields.nonRepeaters ∧ fields.nonRepeaters ≤ 18)) : decodeMessage packet = none := by
  obtain ⟨versionEnc, nameEnc, pduEnc, tlv, versionTlv, nameTlv, pduTlv⟩ := tree
  obtain ⟨_, moved, started⟩ := decSequenceStart_of_tlv tlv [] 0
  rw [append_nil, append_nil] at started
  obtain ⟨_, read⟩ := @decodePdu_refused _ _ [] pduTlv (moved + versionEnc.length + nameEnc.length) refused
  rw [append_nil] at read
  have community : decodeBody (versionNumber .v2c) = decodeCommunity .v2c := rfl
  simp only [decodeMessage, decodeMessageReader, Reader.bind_apply, started, decInt_of_tlv versionTlv, community,
    decodeCommunity, decOctetString_of_tlv nameTlv, read]

/-- The identifiers of a varbind fit the buffer that they are printed to, and `TnmMibFormat` takes its value. -/
def Printable (env : TclMib) (varBind : TypedBind) : Prop :=
  (dottedText varBind.soid).length ≤ tnmOidMaxSize * 8 ∧
    match varBind.value with
    | .integer number => (env.mibFormat varBind.soid (toString number)).isSome
    | .octetString octets => (env.mibFormat varBind.soid (tnmHexEnc octets)).isSome
    | .objectIdentifier oid =>
      (dottedText oid).length ≤ tnmOidMaxSize * 8 ∧
        (env.mibFormat varBind.soid (String.ofList (dottedText oid).dropLast)).isSome
    | _ => True

theorem formatted_isSome_iff (env : TclMib) (soid : Oid) (text : String) :
    (∃ shown, formatted env soid text = some shown) ↔ (env.mibFormat soid text).isSome := by
  rw [← Option.isSome_iff_exists, formatted, Option.isSome_map]

theorem varBindText_isSome_iff (env : TclMib) (varBind : TypedBind) :
    (∃ shown, varBindText env varBind = some shown) ↔ Printable env varBind := by
  have named : (∃ shown, varBindText env varBind = some shown) ↔ (dottedText varBind.soid).length ≤ tnmOidMaxSize * 8 ∧
      ∃ text, valueText env varBind.soid varBind.value = some text := by
    simp only [varBindText_eq_some, tnmOidToStr_eq_some]
    constructor
    · rintro ⟨_, ⟨_, fits, _⟩, text, isText, _⟩
      exact ⟨fits, text, isText⟩
    · rintro ⟨fits, text, isText⟩
      exact ⟨_, ⟨_, fits, rfl⟩, text, isText, rfl⟩
  rw [named, Printable]
  refine and_congr_right fun _ => ?_
  cases varBind.value with
  | integer => exact formatted_isSome_iff _ _ _
  | octetString => exact formatted_isSome_iff _ _ _
  | objectIdentifier oid =>
    simp only [valueText, Option.bind_eq_some_iff, tnmOidToStr_eq_some, ← formatted_isSome_iff]
    constructor
    · rintro ⟨shown, _, ⟨fits, rfl⟩, isShown⟩
      exact ⟨fits, shown, isShown⟩
    · rintro ⟨fits, shown, isShown⟩
      exact ⟨shown, _, ⟨fits, rfl⟩, isShown⟩
  | _ => simp [valueText]

theorem mapM_isSome_iff {α β : Type} {f : α → Option β} (inputs : List α) :
    (∃ outputs, inputs.mapM f = some outputs) ↔ ∀ input ∈ inputs, ∃ output, f input = some output := by
  induction inputs with
  | nil => simp
  | cons _ _ ih =>
    rw [forall_mem_cons, ← ih]
    simp only [mapM_eq_some_iff]
    constructor
    · rintro ⟨outputs, mapped⟩
      cases mapped with
      | cons first rest => exact ⟨⟨_, first⟩, _, rest⟩
    · rintro ⟨⟨output, first⟩, outputs, rest⟩
      exact ⟨output :: outputs, .cons first rest⟩

theorem pduText_bulk_iff (env : TclMib) (fields : BulkFields) :
    (∃ shown, pduText env (bulkRaw fields) = some shown ∧ shown.errorStatus = fields.nonRepeaters ∧
        shown.errorIndex = fields.maxRepetitions) ↔ ∀ varBind ∈ fields.varBinds, Printable env varBind := by
  simp only [← varBindText_isSome_iff env, ← mapM_isSome_iff]
  constructor
  · rintro ⟨_, found, _⟩
    obtain ⟨texts, mapped, _⟩ := Option.bind_eq_some_iff.mp found
    exact ⟨texts, mapped⟩
  · rintro ⟨texts, mapped⟩
    refine ⟨{ (bulkRaw fields).pdu with varBinds := texts ++ [] }, ?_, rfl, rfl⟩
    simp only [pduText, mapped, bulkRaw, Option.toList_none, mapM_nil, Option.pure_def, Option.bind_eq_bind,
      Option.bind_some]

theorem countErrorStatus_eq_iff {status : Int} (lower : 0 ≤ status) :
    (∀ stats, countErrorStatus stats status = stats) ↔ status = 0 ∨ 6 ≤ status := by
  constructor
  · intro unchanged
    by_contra counted
    obtain rfl | rfl | rfl | rfl | rfl : status = 1 ∨ status = 2 ∨ status = 3 ∨ status = 4 ∨ status = 5 := by
      omega
    all_goals exact absurd (unchanged ⟨0, 0, 0, 0, 0⟩) (by decide)
  · intro _ _
    rw [countErrorStatus, if_neg (by omega), if_neg (by omega), if_neg (by omega), if_neg (by omega),
      if_neg (by omega)]

theorem decodeMessage_bulk (tree : BulkTlv packet name fields) (lower : 0 ≤ fields.nonRepeaters)
    (upper : fields.nonRepeaters ≤ 18) : decodeMessage packet = some (.community .v2c name (bulkRaw fields)) := by
  obtain ⟨versionEnc, nameEnc, pduEnc, tlv, versionTlv, nameTlv, idEnc, nonRepeatersEnc, maxRepetitionsEnc, listEnc,
    pduTlv, idTlv, nonRepeatersTlv, maxRepetitionsTlv, listTlv⟩ := tree
  refine (decodeMessage_iff packet _).mpr ⟨false, message_strict.mpr ?_⟩
  refine ⟨versionEnc, nameEnc, pduEnc, tlv, by decide, versionTlv, nameTlv, .inl ?_⟩
  exact ⟨.getbulk, _, _, _, _, idEnc, nonRepeatersEnc, maxRepetitionsEnc, listEnc, by decide, pduTlv, idTlv,
    nonRepeatersTlv, maxRepetitionsTlv, lower, upper, listTlv, rfl⟩

/-- A GetBulk message keeps its numbers and is counted nowhere if they are no error status. -/
theorem getBulk_decoded_iff (env : TclMib) {packet name : Octets} {fields : BulkFields}
    (tree : BulkTlv packet name fields) (nonNegative : 0 ≤ fields.nonRepeaters) :
    ((∃ raw shown, decodeMessage packet = some (.community .v2c name raw) ∧ raw = bulkRaw fields ∧
          pduText env raw = some shown ∧ shown.errorStatus = fields.nonRepeaters ∧
          shown.errorIndex = fields.maxRepetitions) ∧ ∀ stats, decodeStats stats packet = stats) ↔
      (fields.nonRepeaters = 0 ∨ (6 ≤ fields.nonRepeaters ∧ fields.nonRepeaters ≤ 18)) ∧
        ∀ varBind ∈ fields.varBinds, Printable env varBind := by
  have status := messageStatus_of_bulk tree
  constructor
  · rintro ⟨⟨_, shown, found, rfl, isShown, numbers⟩, uncounted⟩
    have accepted : 0 ≤ fields.nonRepeaters ∧ fields.nonRepeaters ≤ 18 := by
      by_contra refused
      cases (decodeMessage_refused tree refused).symm.trans found
    rw [if_pos accepted] at status
    simp only [decodeStats, status] at uncounted
    have kind := (countErrorStatus_eq_iff nonNegative).mp uncounted
    exact ⟨by omega, (pduText_bulk_iff env fields).mp ⟨shown, isShown, numbers⟩⟩
  · rintro ⟨_, printable⟩
    have upper : fields.nonRepeaters ≤ 18 := by omega
    rw [if_pos ⟨nonNegative, upper⟩] at status
    obtain ⟨shown, isShown, numbers⟩ := (pduText_bulk_iff env fields).mpr printable
    refine ⟨⟨_, shown, decodeMessage_bulk tree nonNegative upper, rfl, isShown, numbers⟩, ?_⟩
    intro stats
    simp only [decodeStats, status]
    exact (countErrorStatus_eq_iff nonNegative).mpr (by omega) stats

def bulkSample (nonRepeaters : UInt8) : Octets :=
  [0x30, 0x1c, 0x02, 0x01, 0x01, 0x04, 0x01, 0x70, 0xa5, 0x14, 0x02, 0x01, 0x01, 0x02, 0x01, nonRepeaters,
    0x02, 0x01, 0x0a, 0x30, 0x09, 0x30, 0x07, 0x06, 0x03, 0x2b, 0x06, 0x01, 0x05, 0x00]

def bulkSampleFields (nonRepeaters : Int) : BulkFields := ⟨1, nonRepeaters, 10, [⟨[1, 3, 6, 1], .null⟩]⟩

theorem tlv_short (length : UInt8) (fits : length.toNat < 0x80) (measured : content.length = length.toNat) :
    Tlv tag content (tag :: length :: content) :=
  ⟨[length], .inl ⟨length, rfl, fits, measured⟩, rfl⟩

theorem bulkSample_tree {nonRepeaters : UInt8} {number : Int} (content : IntContent asn1Integer [nonRepeaters] number) :
    BulkTlv (bulkSample nonRepeaters) [0x70] (bulkSampleFields number) := by
  have oid : OidContent [0x2b, 0x06, 0x01] [1, 3, 6, 1] :=
    @oidContent_oidOctets [1, 3, 6, 1] (by decide) (by decide) (by decide)
  have single : ∀ octet : UInt8, Tlv asn1Integer [octet] [0x02, 0x01, octet] := fun octet =>
    tlv_short _ (by decide) rfl
  have one : IntContent asn1Integer [0x01] 1 := ⟨.inl (by decide), by decide⟩
  have ten : IntContent asn1Integer [0x0a] 10 := ⟨.inl (by decide), by decide⟩
  refine ⟨[0x02, 0x01, 0x01], [0x04, 0x01, 0x70], _, tlv_short 0x1c (by decide) rfl,
    ⟨[0x01], single _, one⟩, ⟨[0x70], tlv_short _ (by decide) rfl, by decide, rfl⟩,
    [0x02, 0x01, 0x01], [0x02, 0x01, nonRepeaters], [0x02, 0x01, 0x0a], _, tlv_short 0x14 (by decide) rfl,
    ⟨[0x01], single _, one⟩, ⟨[nonRepeaters], single _, content⟩, ⟨[0x0a], single _, ten⟩,
    [[0x30, 0x07, 0x06, 0x03, 0x2b, 0x06, 0x01, 0x05, 0x00]], tlv_short 0x09 (by decide) rfl,
    .cons ?_ .nil⟩
  exact ⟨[0x06, 0x03, 0x2b, 0x06, 0x01], [0x05, 0x00], tlv_short 0x07 (by decide) rfl,
    ⟨_, tlv_short _ (by decide) rfl, oid⟩, tlv_short _ (by decide) rfl⟩

theorem getBulk_decoded_zero : (∃ raw shown, decodeMessage (bulkSample 0) = some (.community .v2c [0x70] raw) ∧
        raw = bulkRaw (bulkSampleFields 0) ∧ pduText bareTcl raw = some shown ∧ shown.errorStatus = 0 ∧
        shown.errorIndex = 10) ∧ ∀ stats, decodeStats stats (bulkSample 0) = stats := by
  refine (getBulk_decoded_iff bareTcl (bulkSample_tree ⟨.inl (by decide), by decide⟩) (by decide)).mpr
    ⟨.inl rfl, ?_⟩
  intro _ member
  obtain rfl := mem_singleton.mp member
  exact ⟨by decide, trivial⟩

/-- Twenty non-repeaters are no error status, two of them are counted as a missing name. -/
theorem getBulk_refused_or_counted :
    BulkTlv (bulkSample 20) [0x70] (bulkSampleFields 20) ∧ decodeMessage (bulkSample 20) = none ∧
      BulkTlv (bulkSample 2) [0x70] (bulkSampleFields 2) ∧
      decodeStats ⟨0, 0, 0, 0, 0⟩ (bulkSample 2) = ⟨0, 1, 0, 0, 0⟩ :=
  ⟨bulkSample_tree ⟨.inl (by decide), by decide⟩, by decide,
    bulkSample_tree ⟨.inl (by decide), by decide⟩, by decide⟩

end Tnm
