import TkinedRemix.Snmp.BerEncode

/-!
What `EncodeMessage` writes: a BER tree whose leaves are the typed values of the PDU, which the decoder reads
back as `decodedValue` says.
-/

namespace Tnm

open Lib Option

def decodedValue : Asn1Value → Asn1Value
  | .unsigned tag value => .unsigned tag (intOf tag (intOctets value))
  | .objectIdentifier oid => .objectIdentifier (repackOid oid)
  | value => value

def decodedBind (varBind : TypedBind) : TypedBind := ⟨repackOid varBind.soid, decodedValue varBind.value⟩

def CValue : Asn1Value → Prop
  | .integer value => -2 ^ 31 ≤ value ∧ value < 2 ^ 31
  | .unsigned tag _ => unsignedTag tag
  | .counter64 value => value < 2 ^ 64
  | .ipAddress octets => octets.length = 4
  | .objectIdentifier oid => oid.length ≤ tnmOidMaxSize ∧ ∀ subid ∈ oid, subid < 2 ^ 32
  | .exception tag => isException tag = true
  | _ => True

def CBind (varBind : TypedBind) : Prop :=
  (∀ subid ∈ varBind.soid, subid < 2 ^ 32) ∧ CValue varBind.value

/-- What the encoder itself asks of an identifier. -/
def LegalOid (oid : Oid) : Prop := 2 ≤ oid.length ∧ oid.headD 0 ≤ 2

def LegalValue : Asn1Value → Prop
  | .objectIdentifier oid => LegalOid oid
  | _ => True

def LegalBind (varBind : TypedBind) : Prop :=
  (LegalOid varBind.soid ∧ varBind.soid.length ≤ tnmOidMaxSize) ∧ LegalValue varBind.value

variable {size : Nat}

theorem octetsTlv_appends (limit : size ≤ 65536) (tag : UInt8) (content : Octets) :
    Appends size (tnmBerEncOctetString size tag content) (fun octets => OctetsTlv tag octets content) := by
  refine (octetString_appends limit tag content).mono ?_
  intro _ _ tlv
  have shorter := tlv_content_length tlv
  exact ⟨content, tlv, by omega, rfl⟩

theorem oidTlv_appends (limit : size ≤ 65536) {oid : Oid} (short : oid.length ≤ tnmOidMaxSize)
    (bounds : ∀ subid ∈ oid, subid < 2 ^ 32) :
    Appends size (tnmBerEncOID size oid) (fun octets => LegalOid oid ∧ OidTlv octets (repackOid oid)) := by
  refine (oid_appends limit oid).mono ?_
  rintro _ _ ⟨legal, tlv⟩
  exact ⟨legal, _, tlv, oidContent_oidOctets legal.1 short bounds⟩

theorem intTlv_appends (limit : size ≤ 65536) {value : Int} (lower : -2 ^ 31 ≤ value) (upper : value < 2 ^ 31) :
    Appends size (tnmBerEncInt size asn1Integer value) (fun octets => IntTlv asn1Integer octets value) :=
  (int_appends limit asn1Integer value).mono fun _ _ tlv => ⟨_, tlv, intContent_intOctets lower upper⟩

theorem unsignedTlv_appends (limit : size ≤ 65536) (tag : UInt8) (value : Int) :
    Appends size (tnmBerEncInt size tag value) (fun octets => IntTlv tag octets (intOf tag (intOctets value))) :=
  (int_appends limit tag value).mono fun _ _ tlv => ⟨_, tlv, intFits_intOctets value, rfl⟩

theorem unsigned64Octets_spec (fuel : Nat) : ∀ count value : Nat, value < 256 ^ count → count ≤ fuel → count ≤ 8 →
    (unsigned64Octets fuel value).length ≤ count ∧
      (unsigned64Octets fuel value).foldl (fun value byte => (value * 256 + byte.toNat) % 2 ^ 64) 0 = value := by
  induction fuel with
  | zero =>
    intro count value below enough _
    obtain rfl : count = 0 := by omega
    obtain rfl : value = 0 := by simpa using below
    exact ⟨by simp [unsigned64Octets], rfl⟩
  | succ _ ih =>
    intro count value below _ few
    rw [unsigned64Octets]
    split
    next zero =>
      exact ⟨by simp, by simp [zero]⟩
    next nonzero =>
      cases count with
      | zero => simp at below; omega
      | succ count =>
        have smaller : value / 256 < 256 ^ count := by
          rw [Nat.div_lt_iff_lt_mul (by norm_num)]
          exact below
        obtain ⟨short, read⟩ := ih count (value / 256) smaller (by omega) (by omega)
        have inRange : value < 2 ^ 64 := by
          calc value < 256 ^ (count + 1) := below
            _ ≤ 256 ^ 8 := Nat.pow_le_pow_right (by norm_num) few
        refine ⟨by simpa using short, ?_⟩
        rw [List.foldl_append, List.foldl_cons, List.foldl_nil, UInt8.toNat_ofNat']
        omega

theorem encodeValue_appends (limit : size ≤ 65536) {value : Asn1Value} (ofType : CValue value) :
    Appends size (encodeValue size value) (fun octets => LegalValue value ∧ ValueTlv octets (decodedValue value)) := by
  cases value with
  | integer => exact (intTlv_appends limit ofType.1 ofType.2).mono fun _ _ tlv => ⟨trivial, tlv⟩
  | unsigned tag number => exact (unsignedTlv_appends limit tag number).mono fun _ _ tlv => ⟨trivial, ofType, tlv⟩
  | counter64 number =>
    refine (octetString_appends limit asn1Counter64 (unsigned64Octets 128 number)).mono ?_
    intro octets _ tlv
    obtain ⟨_, read⟩ := unsigned64Octets_spec 128 8 number ofType (by omega) (by omega)
    exact ⟨trivial, _, tlv, by omega, read.symm⟩
  | ipAddress octets => exact (octetsTlv_appends limit asn1IpAddress octets).mono fun _ _ tlv => ⟨trivial, tlv, ofType⟩
  | octetString octets => exact (octetsTlv_appends limit asn1OctetString octets).mono fun _ _ tlv => ⟨trivial, tlv⟩
  | opaqueData octets => exact (octetsTlv_appends limit asn1Opaque octets).mono fun _ _ tlv => ⟨trivial, tlv⟩
  | any =>
    intro _ _ _ found
    cases found
  | objectIdentifier => exact oidTlv_appends limit ofType.1 ofType.2
  | null => exact (null_appends size asn1Null).mono fun _ _ tlv => ⟨trivial, tlv⟩
  | exception tag => exact (null_appends size tag).mono fun _ _ tlv => ⟨trivial, ofType, tlv⟩

theorem encodeVarBind_appends (limit : size ≤ 65536) {varBind : TypedBind} (ofType : CBind varBind) :
    Appends size (encodeVarBind size varBind)
      (fun octets => LegalBind varBind ∧ VarBindTlv octets (decodedBind varBind)) := by
  intro _ _ _ found
  obtain ⟨⟨_, _⟩, start, rest⟩ := bind_eq_some_iff.mp found
  obtain ⟨rfl, rfl, room⟩ := seqStart_eq_some start
  simp only at rest
  split at rest
  · cases rest
  next notLong =>
    have short : varBind.soid.length ≤ tnmOidMaxSize := by omega
    obtain ⟨_, nameFound, rest⟩ := bind_eq_some_iff.mp rest
    obtain ⟨_, valueFound, last⟩ := bind_eq_some_iff.mp rest
    obtain ⟨name, rfl, ⟨legal, nameTlv⟩, nameFits⟩ := oidTlv_appends limit short ofType.1 _ _ room nameFound
    obtain ⟨value, rfl, ⟨legalValue, valueTlv⟩, valueFits⟩ :=
      encodeValue_appends limit ofType.2 _ _ nameFits valueFound
    rw [List.append_assoc] at valueFits last
    obtain ⟨element, rfl, tlv, bounded⟩ := seqEnd_eq_some limit valueFits last
    exact ⟨element, rfl, ⟨⟨⟨legal, short⟩, legalValue⟩, name, value, tlv, nameTlv, valueTlv⟩, bounded⟩

theorem encodeVarBinds_appends (limit : size ≤ 65536) (varBinds : List TypedBind)
    (ofType : ∀ varBind ∈ varBinds, CBind varBind) : Appends size (encodeVarBinds size varBinds)
      (fun octets => (∀ varBind ∈ varBinds, LegalBind varBind) ∧ ∃ elements : List Octets,
        octets = elements.flatten ∧ List.Forall₂ VarBindTlv elements (varBinds.map decodedBind)) := by
  induction varBinds with
  | nil =>
    intro _ _ fits found
    cases found
    exact ⟨[], by simp, ⟨by simp, [], rfl, .nil⟩, fits⟩
  | cons varBind _ ih =>
    have head := encodeVarBind_appends limit (ofType varBind (by simp))
    have tail := ih fun other member => ofType other (by simp [member])
    refine (head.bind tail).mono ?_
    rintro _ _ ⟨front, _, rfl, ⟨legal, tree⟩, allLegal, elements, rfl, trees⟩
    refine ⟨?_, front :: elements, rfl, .cons tree trees⟩
    simpa using ⟨legal, allLegal⟩

theorem encodeList_eq_some {size : Nat} (limit : size ≤ 65536) {tag : UInt8} {front fields out' : Octets}
    {varBinds : List TypedBind} (ofType : ∀ varBind ∈ varBinds, CBind varBind) (found : (do
        let (out, vblSeqToken) ← tnmBerEncSequenceStart size asn1Sequence (front ++ [tag, 0] ++ fields)
        let out ← encodeVarBinds size varBinds out let out ← tnmBerEncSequenceEnd size vblSeqToken out
        tnmBerEncSequenceEnd size (front.length + 1) out) = some out') :
    ∃ element list, out' = front ++ element ∧ Tlv tag (fields ++ list) element ∧
      VarBindListTlv list (varBinds.map decodedBind) ∧ (∀ varBind ∈ varBinds, LegalBind varBind) ∧
      out'.length ≤ size := by
  obtain ⟨⟨_, _⟩, start, rest⟩ := bind_eq_some_iff.mp found
  obtain ⟨rfl, rfl, room⟩ := seqStart_eq_some start
  obtain ⟨_, bindsFound, rest⟩ := bind_eq_some_iff.mp rest
  obtain ⟨_, innerFound, last⟩ := bind_eq_some_iff.mp rest
  obtain ⟨_, rfl, ⟨legal, elements, rfl, trees⟩, filledFits⟩ :=
    encodeVarBinds_appends limit varBinds ofType _ _ room bindsFound
  obtain ⟨list, rfl, listTlv, closedFits⟩ := seqEnd_eq_some limit filledFits innerFound
  rw [List.append_assoc] at closedFits last
  obtain ⟨element, rfl, tlv, bounded⟩ := seqEnd_eq_some limit closedFits last
  exact ⟨element, list, rfl, tlv, ⟨elements, listTlv, trees⟩, legal, bounded⟩

def sentBinds (env : TclMib) (version : SnmpVersion) (pdu : Pdu VarBindArg) : Option (List TypedBind) := do
  let standard ← notificationBinds env pdu
  let given ← pdu.varBinds.mapM (scanVarBind env version pdu.type)
  some (standard ++ given)

variable {env : TclMib} {version : SnmpVersion} {enterpriseOid : Oid} {pdu : Pdu VarBindArg}

theorem encodePdu_eq_some {out out' : Octets} (found : encodePdu env size version enterpriseOid pdu out = some out') :
    ∃ started token filled varBinds, tnmBerEncSequenceStart size pdu.type.tag out = some (started, token) ∧
      encodePduHeader env size enterpriseOid pdu started = some filled ∧ sentBinds env version pdu = some varBinds ∧ (do
        let (out, vblSeqToken) ← tnmBerEncSequenceStart size asn1Sequence filled
        let out ← encodeVarBinds size varBinds out let out ← tnmBerEncSequenceEnd size vblSeqToken out
        tnmBerEncSequenceEnd size token out) = some out' := by
  obtain ⟨⟨started, token⟩, start, rest⟩ := bind_eq_some_iff.mp found
  obtain ⟨filled, header, rest⟩ := bind_eq_some_iff.mp rest
  obtain ⟨⟨_, _⟩, listStart, rest⟩ := bind_eq_some_iff.mp rest
  obtain ⟨standard, standardFound, rest⟩ := bind_eq_some_iff.mp rest
  obtain ⟨given, givenFound, rest⟩ := bind_eq_some_iff.mp rest
  refine ⟨started, token, filled, standard ++ given, start, header, ?_, ?_⟩
  · simp only [sentBinds, standardFound, givenFound, bind_eq_bind, bind_some]
  · simp only [listStart]
    exact rest

structure IntFields (pdu : Pdu VarBindArg) : Prop where
  requestId : -2 ^ 31 ≤ pdu.requestId ∧ pdu.requestId < 2 ^ 31
  errorStatus : -2 ^ 31 ≤ pdu.errorStatus ∧ pdu.errorStatus < 2 ^ 31
  errorIndex : -2 ^ 31 ≤ pdu.errorIndex ∧ pdu.errorIndex < 2 ^ 31

theorem requestHeader_appends (limit : size ≤ 65536) (notTrap : pdu.type ≠ .trap1) (ints : IntFields pdu) :
    Appends size (encodePduHeader env size enterpriseOid pdu)
      (fun octets => ∃ idEnc statusEnc indexEnc, octets = idEnc ++ (statusEnc ++ indexEnc) ∧
        IntTlv asn1Integer idEnc pdu.requestId ∧ IntTlv asn1Integer statusEnc pdu.errorStatus ∧
        IntTlv asn1Integer indexEnc pdu.errorIndex) := by
  have body : encodePduHeader env size enterpriseOid pdu = (fun out => do
      let out ← tnmBerEncInt size asn1Integer pdu.requestId out
      let out ← tnmBerEncInt size asn1Integer pdu.errorStatus out
      tnmBerEncInt size asn1Integer pdu.errorIndex out) := by
    funext out
    rw [encodePduHeader, if_neg notTrap]
  rw [body]
  refine ((intTlv_appends limit ints.requestId.1 ints.requestId.2).bind
    ((intTlv_appends limit ints.errorStatus.1 ints.errorStatus.2).bind
      (intTlv_appends limit ints.errorIndex.1 ints.errorIndex.2))).mono ?_
  rintro _ _ ⟨idEnc, _, rfl, idTlv, statusEnc, indexEnc, rfl, statusTlv, indexTlv⟩
  exact ⟨idEnc, statusEnc, indexEnc, rfl, idTlv, statusTlv, indexTlv⟩

def decodedRequest (pdu : Pdu VarBindArg) (varBinds : List TypedBind) : RawPdu :=
  ⟨{ type := pdu.type, requestId := pdu.requestId, errorStatus := pdu.errorStatus,
     errorIndex := pdu.errorIndex, trapOid := "", varBinds := varBinds.map decodedBind }, none⟩

theorem encodeRequest_appends (limit : size ≤ 65536) {varBinds : List TypedBind} (notTrap : pdu.type ≠ .trap1)
    (ints : IntFields pdu) (status : 0 ≤ pdu.errorStatus ∧ pdu.errorStatus ≤ 18)
    (sent : sentBinds env version pdu = some varBinds) (ofType : ∀ varBind ∈ varBinds, CBind varBind) :
    Appends size (encodePdu env size version enterpriseOid pdu)
      (fun octets => (∀ varBind ∈ varBinds, LegalBind varBind) ∧ RequestTlv octets (decodedRequest pdu varBinds)) := by
  intro _ _ _ found
  obtain ⟨_, _, _, binds, start, header, isSent, rest⟩ := encodePdu_eq_some found
  obtain rfl : varBinds = binds := some.inj (sent.symm.trans isSent)
  obtain ⟨rfl, rfl, room⟩ := seqStart_eq_some start
  obtain ⟨_, rfl, ⟨idEnc, statusEnc, indexEnc, rfl, idTlv, statusTlv, indexTlv⟩, _⟩ :=
    requestHeader_appends limit notTrap ints _ _ room header
  obtain ⟨element, list, rfl, tlv, listTlv, legal, bounded⟩ := encodeList_eq_some limit ofType rest
  refine ⟨element, rfl, ⟨legal, pdu.type, pdu.requestId, pdu.errorStatus, pdu.errorIndex, _, idEnc, statusEnc,
    indexEnc, list, notTrap, ?_, idTlv, statusTlv, indexTlv, status.1, status.2, listTlv, rfl⟩, bounded⟩
  simpa using tlv

theorem trapHeader_appends (limit : size ≤ 65536) {oid : Oid} {address : Octets} {generic specific : Int}
    (isTrap : pdu.type = .trap1) (fields : trapHeader enterpriseOid pdu.trapOid = some (oid, generic, specific))
    (local_ : env.hostAddress = some address) (short : oid.length ≤ tnmOidMaxSize)
    (bounds : ∀ subid ∈ oid, subid < 2 ^ 32) (genericInt : -2 ^ 31 ≤ generic ∧ generic < 2 ^ 31)
    (specificInt : -2 ^ 31 ≤ specific ∧ specific < 2 ^ 31) : Appends size (encodePduHeader env size enterpriseOid pdu)
      (fun octets => LegalOid oid ∧ ∃ oidEnc addressEnc genericEnc specificEnc timeEnc,
        octets = oidEnc ++ (addressEnc ++ (genericEnc ++ (specificEnc ++ timeEnc))) ∧
        OidTlv oidEnc (repackOid oid) ∧ OctetsTlv asn1IpAddress addressEnc address ∧
        IntTlv asn1Integer genericEnc generic ∧ IntTlv asn1Integer specificEnc specific ∧
        IntTlv asn1TimeTicks timeEnc (intOf asn1TimeTicks (intOctets env.sysUpTime))) := by
  have body : encodePduHeader env size enterpriseOid pdu = (fun out => do
      let out ← tnmBerEncOID size oid out
      let out ← tnmBerEncOctetString size asn1IpAddress address out
      let out ← tnmBerEncInt size asn1Integer generic out
      let out ← tnmBerEncInt size asn1Integer specific out
      tnmBerEncInt size asn1TimeTicks env.sysUpTime out) := by
    funext out
    rw [encodePduHeader, if_pos isTrap]
    simp only [fields, local_, bind_eq_bind, bind_some]
  rw [body]
  refine ((oidTlv_appends limit short bounds).bind ((octetsTlv_appends limit asn1IpAddress address).bind
    ((intTlv_appends limit genericInt.1 genericInt.2).bind ((intTlv_appends limit specificInt.1 specificInt.2).bind
      (unsignedTlv_appends limit asn1TimeTicks env.sysUpTime))))).mono ?_
  rintro _ _ ⟨oidEnc, _, rfl, ⟨legal, oidTlv⟩, addressEnc, _, rfl, addressTlv, genericEnc, _, rfl, genericTlv,
    specificEnc, timeEnc, rfl, specificTlv, timeTlv⟩
  exact ⟨legal, oidEnc, addressEnc, genericEnc, specificEnc, timeEnc, rfl, oidTlv, addressTlv, genericTlv,
    specificTlv, timeTlv⟩

theorem encodeMessage_eq_some {community packet : Octets} {kind : Octets → Prop} (carried : version ≠ .v3)
    (pduAppends : Appends tnmSnmpMaxSize (encodePdu env tnmSnmpMaxSize version enterpriseOid pdu) kind)
    (found : encodeMessage env version community enterpriseOid pdu = some packet) :
    ∃ pduEnc, kind pduEnc ∧ ∀ raw, (RequestTlv pduEnc raw ∨ TrapTlv pduEnc raw) →
      decodeMessage packet = some (.community version community raw) := by
  have limit : tnmSnmpMaxSize ≤ 65536 := by decide
  have versionInt : -2 ^ 31 ≤ versionNumber version ∧ versionNumber version < 2 ^ 31 := by
    cases version <;> decide
  have body := (intTlv_appends limit versionInt.1 versionInt.2).bind
    ((octetsTlv_appends limit asn1OctetString community).bind pduAppends)
  have whole : encodeMessage env version community enterpriseOid pdu = (fun out => do
      let (out, token) ← tnmBerEncSequenceStart tnmSnmpMaxSize asn1Sequence out
      let out ← (tnmBerEncInt tnmSnmpMaxSize asn1Integer (versionNumber version) out >>= fun out =>
        tnmBerEncOctetString tnmSnmpMaxSize asn1OctetString community out >>=
          encodePdu env tnmSnmpMaxSize version enterpriseOid pdu)
      tnmBerEncSequenceEnd tnmSnmpMaxSize token out) [] := by
    simp only [encodeMessage, bind_eq_bind, bind_assoc]
  rw [whole] at found
  obtain ⟨element, same, ⟨_, ⟨versionEnc, _, rfl, versionTlv, nameEnc, pduEnc, rfl, nameTlv, ofKind⟩, tlv⟩, _⟩ :=
    element_appends limit body [] packet (by simp) found
  obtain rfl : packet = element := by simpa using same
  refine ⟨pduEnc, ofKind, ?_⟩
  intro _ tree
  refine (decodeMessage_iff packet _).mpr ⟨false, message_strict.mpr ?_⟩
  exact ⟨versionEnc, nameEnc, pduEnc, tlv, carried, versionTlv, nameTlv, tree⟩

theorem decodeMessage_encodeMessage {community packet : Octets} {varBinds : List TypedBind} (carried : version ≠ .v3)
    (notTrap : pdu.type ≠ .trap1) (ints : IntFields pdu) (status : 0 ≤ pdu.errorStatus ∧ pdu.errorStatus ≤ 18)
    (sent : sentBinds env version pdu = some varBinds) (ofType : ∀ varBind ∈ varBinds, CBind varBind)
    (found : encodeMessage env version community enterpriseOid pdu = some packet) :
    (∀ varBind ∈ varBinds, LegalBind varBind) ∧
      decodeMessage packet = some (.community version community (decodedRequest pdu varBinds)) := by
  have limit : tnmSnmpMaxSize ≤ 65536 := by decide
  obtain ⟨_, ⟨legal, tree⟩, decoded⟩ :=
    encodeMessage_eq_some carried (encodeRequest_appends limit notTrap ints status sent ofType) found
  exact ⟨legal, decoded _ (.inl tree)⟩

end Tnm
