import TkinedRemix.Snmp.GetBulk

/-!
The identifier of an SNMPv1 trap: the encoder recognises the standard traps under snmpTraps and under snmp, and
the decoder names both under snmpTraps.
-/

namespace Tnm

open Lib

def snmpTraps : Oid := [1, 3, 6, 1, 6, 3, 1, 1, 5]
def snmpOid : Oid := [1, 3, 6, 1, 2, 1, 11]

/-- The value of the varbind snmpTrapOID.0 that the decoder puts in second place, once it has printed all of them. -/
def decodedTrapOid (env : TclMib) (packet : Octets) : Option Oid :=
  match decodeMessage packet with
  | some (.community _ _ raw) =>
    match pduText env raw, raw.pdu.varBinds with
    | some _, _ :: ⟨_, .objectIdentifier oid⟩ :: _ => some oid
    | _, _ => none
  | _ => none

/-- The texts that `EncodePDU` takes for standard traps. -/
def underSnmpTraps (trapOid : String) : Prop := "1.3.6.1.6.3.1.1.5".toList.isPrefixOf trapOid.toList = true
def underSnmp (trapOid : String) : Prop := "1.3.6.1.2.1.11.0".toList.isPrefixOf trapOid.toList = true

/-- The decoder can print what arrives of the varbinds of the trap. -/
def PrintableBinds (env : TclMib) (pdu : Pdu VarBindArg) : Prop :=
  ∀ varBind ∈ pdu.varBinds, ∀ typed, scanVarBind env .v1 pdu.type varBind = some typed →
    Printable env (decodedBind typed)

variable {enterpriseOid enterprise : Oid} {generic specific : Int}

theorem pduText_trap {env : TclMib} (undecorated : Undecorated env snmpTrapOid) {upTime : Int} {binds : List TypedBind}
    (printable : ∀ bind ∈ binds, Printable env bind)
    (fitsEnterprise : (dottedText enterprise).length ≤ tnmOidMaxSize * 8)
    (fitsTrap : (dottedText (standardTrapOid generic specific enterprise)).length ≤ tnmOidMaxSize * 8) :
    ∃ shown, pduText env ⟨trapPdu enterprise generic specific upTime binds, some enterprise⟩ = some shown := by
  have names : (dottedText sysUpTimeOid).length ≤ tnmOidMaxSize * 8 ∧
      (dottedText snmpTrapOid).length ≤ tnmOidMaxSize * 8 := by decide
  have all : ∀ bind ∈ trapBinds enterprise generic specific upTime ++ binds, Printable env bind := by
    simp only [trapBinds, List.cons_append, List.nil_append, List.forall_mem_cons]
    refine ⟨⟨names.1, trivial⟩, ⟨names.2, fitsTrap, ?_⟩, printable⟩
    rw [← formatted_isSome_iff, ← Option.isSome_iff_exists]
    exact undecorated.identifier _ _ (tnmOidToStr_eq_some.mpr ⟨fitsTrap, rfl⟩)
  simp only [← varBindText_isSome_iff, ← mapM_isSome_iff] at all
  obtain ⟨texts, mapped⟩ := all
  have written := tnmOidToStr_eq_some.mpr ⟨fitsEnterprise, rfl⟩
  simp [pduText, trapPdu, mapped, enterpriseText, written]

theorem encodeTrap_decodedTrapOid {env : TclMib} (laws : TclLaws env) (undecorated : Undecorated env snmpTrapOid)
    {community packet address : Octets} {pdu : Pdu VarBindArg} (isTrap : pdu.type = .trap1)
    (printable : PrintableBinds env pdu)
    (subids : ∀ varBind ∈ pdu.varBinds, ∀ subid ∈ varBind.soid, subid < 2 ^ 32)
    (fields : trapHeader enterpriseOid pdu.trapOid = some (enterprise, generic, specific))
    (sender : env.hostAddress = some address) (four : address.length = 4) (short : enterprise.length ≤ tnmOidMaxSize)
    (bounds : ∀ subid ∈ enterprise, subid < 2 ^ 32) (genericInt : -2 ^ 31 ≤ generic ∧ generic < 2 ^ 31)
    (specificInt : -2 ^ 31 ≤ specific ∧ specific < 2 ^ 31)
    (encoded : encodeMessage env .v1 community enterpriseOid pdu = some packet) : LegalOid enterprise ∧
      ((dottedText (repackOid enterprise)).length ≤ tnmOidMaxSize * 8 →
        (dottedText (standardTrapOid generic specific (repackOid enterprise))).length ≤ tnmOidMaxSize * 8 →
        decodedTrapOid env packet = some (standardTrapOid generic specific (repackOid enterprise))) := by
  have limit : tnmSnmpMaxSize ≤ 65536 := by decide
  obtain ⟨typed, sent⟩ := sentBinds_of_encodeMessage encoded
  have scanned := sentBinds_scanned (by simp [isTrap]) (by simp [isTrap]) sent
  have ofType : ∀ bind ∈ typed, CBind bind := forall₂_mem_right scanned
    fun varBind member _ found => scanVarBind_cbind laws (fun _ => rfl) (subids varBind member) found
  have printed : ∀ bind ∈ typed.map decodedBind, Printable env bind := by
    intro _ member
    obtain ⟨bind, inTyped, rfl⟩ := List.mem_map.mp member
    exact forall₂_mem_right scanned (p := fun bind => Printable env (decodedBind bind)) printable bind inTyped
  have pduAppends : Appends tnmSnmpMaxSize (encodePdu env tnmSnmpMaxSize .v1 enterpriseOid pdu)
      (fun octets => LegalOid enterprise ∧ ∃ upTime,
        TrapTlv octets ⟨trapPdu (repackOid enterprise) generic specific upTime (typed.map decodedBind),
          some (repackOid enterprise)⟩) := by
    intro _ _ _ found
    obtain ⟨_, _, _, binds, start, header, isSent, rest⟩ := encodePdu_eq_some found
    obtain rfl : typed = binds := Option.some.inj (sent.symm.trans isSent)
    obtain ⟨rfl, rfl, room⟩ := seqStart_eq_some start
    obtain ⟨_, rfl, ⟨legal, oidEnc, addressEnc, genericEnc, specificEnc, timeEnc, rfl, oidTlv, addressTlv, genericTlv,
      specificTlv, timeTlv⟩, _⟩ :=
      trapHeader_appends limit isTrap fields sender short bounds genericInt specificInt _ _ room header
    obtain ⟨element, list, rfl, tlv, listTlv, _, bounded⟩ := encodeList_eq_some limit ofType rest
    rw [isTrap] at tlv
    refine ⟨element, rfl, ⟨legal, _, repackOid enterprise, address, generic, specific, _, oidEnc, addressEnc,
      genericEnc, specificEnc, timeEnc, list, ?_, oidTlv, addressTlv, four, genericTlv, specificTlv, timeTlv,
      .inr ⟨_, listTlv, rfl⟩⟩, bounded⟩
    simpa using tlv
  obtain ⟨_, ⟨legal, upTime, tree⟩, decoded⟩ := encodeMessage_eq_some (by decide) pduAppends encoded
  refine ⟨legal, fun fitsEnterprise fitsTrap => ?_⟩
  obtain ⟨_, shown⟩ := @pduText_trap _ _ _ _ undecorated upTime _ printed fitsEnterprise fitsTrap
  rw [decodedTrapOid, decoded _ (.inr tree)]
  simp only [shown]
  rfl

theorem trapHeader_eq_some {oid : Oid} {trapOid : String} (named : tnmStrToOid trapOid = some oid)
    (fields : trapHeader enterpriseOid trapOid = some (enterprise, generic, specific)) :
    (underSnmpTraps trapOid ∧ enterprise = enterpriseOid ∧ generic = toInt32 (oid.getLastD 0 - 1) ∧ specific = 0) ∨
      (underSnmp trapOid ∧ enterprise = enterpriseOid ∧ generic = toInt32 (oid.getLastD 0) ∧ specific = 0) ∨
      (¬ underSnmpTraps trapOid ∧ ¬ underSnmp trapOid ∧ enterprise = oid.take (oid.length - 2) ∧ generic = 6 ∧
        specific = toInt32 (oid.getLastD 0)) := by
  obtain ⟨found, same, fields⟩ := Option.bind_eq_some_iff.mp fields
  obtain rfl : oid = found := Option.some.inj (named.symm.trans same)
  split_ifs at fields with _ traps snmp
  · cases fields
    exact .inl ⟨traps, rfl, rfl, rfl⟩
  · simp only [Option.some.injEq, Prod.mk.injEq] at fields
    obtain ⟨rfl, rfl, rfl⟩ := fields
    exact .inr (.inl ⟨snmp, rfl, rfl, rfl⟩)
  · cases fields
    exact .inr (.inr ⟨traps, snmp, rfl, rfl, rfl⟩)

theorem trapHeader_of_encodeMessage {env : TclMib} {version : SnmpVersion} {community packet : Octets}
    {pdu : Pdu VarBindArg} (isTrap : pdu.type = .trap1)
    (found : encodeMessage env version community enterpriseOid pdu = some packet) :
    ∃ enterprise generic specific address, trapHeader enterpriseOid pdu.trapOid = some (enterprise, generic, specific) ∧
        env.hostAddress = some address := by
  obtain ⟨_, _, encoded⟩ := encodePdu_of_encodeMessage found
  obtain ⟨_, _, _, _, _, header, _⟩ := encodePdu_eq_some encoded
  rw [encodePduHeader, if_pos isTrap] at header
  obtain ⟨⟨enterprise, generic, specific⟩, fields, header⟩ := Option.bind_eq_some_iff.mp header
  obtain ⟨_, _, header⟩ := Option.bind_eq_some_iff.mp header
  obtain ⟨address, isAddress, _⟩ := Option.bind_eq_some_iff.mp header
  exact ⟨enterprise, generic, specific, address, fields, isAddress⟩

theorem toInt32_range (value : Int) : -2 ^ 31 ≤ toInt32 value ∧ toInt32 value < 2 ^ 31 := by
  have lower := @Int.le_bmod value (2 ^ 32) (by norm_num)
  have upper := @Int.bmod_lt value (2 ^ 32) (by norm_num)
  rw [toInt32]
  omega

theorem standardTrapOid_length (short : enterprise.length ≤ 126) :
    (standardTrapOid generic specific enterprise).length ≤ tnmOidMaxSize := by
  rw [standardTrapOid]
  split
  · change 10 ≤ 128
    omega
  · rw [List.length_append]
    change enterprise.length + 2 ≤ 128
    omega

theorem enterpriseSpecific_unfold {specific : Nat} (bound : specific < 2 ^ 32) :
    standardTrapOid 6 (toInt32 specific) enterprise = enterprise ++ [0, specific] := by
  have number : (toInt32 specific % 2 ^ 32).toNat = specific := by
    have cast : ((2 ^ 32 : Nat) : Int) = 2 ^ 32 := by norm_num
    rw [toInt32, ← cast, Int.bmod_emod]
    omega
  rw [standardTrapOid, if_neg (by decide), number]

theorem standardText {number : Nat} {text : String} (lower : 1 ≤ number) (upper : number ≤ 6)
    (written : tnmOidToStr (snmpTraps ++ [number]) = some text) : underSnmpTraps text ∧ ¬ underSnmp text := by
  obtain ⟨_, rfl⟩ := tnmOidToStr_eq_some.mp written
  rw [underSnmpTraps, underSnmp]
  interval_cases number <;> decide

theorem oldText {number : Nat} {text : String} (upper : number ≤ 5)
    (written : tnmOidToStr (snmpOid ++ [0, number]) = some text) : ¬ underSnmpTraps text ∧ underSnmp text := by
  obtain ⟨_, rfl⟩ := tnmOidToStr_eq_some.mp written
  rw [underSnmpTraps, underSnmp]
  interval_cases number <;> decide

theorem dottedText_append (oid suffix : Oid) : dottedText (oid ++ suffix) = dottedText oid ++ dottedText suffix := by
  simp [dottedText]

def bareTrap (trapOid : String) : Pdu VarBindArg :=
  { type := .trap1, requestId := 0, errorStatus := 0, errorIndex := 0, trapOid, varBinds := [] }

def linkUpPacket : Octets :=
  [0x30, 0x22, 0x02, 0x01, 0x00, 0x04, 0x01, 0x70, 0xa4, 0x1a, 0x06, 0x07, 0x2b, 0x06, 0x01, 0x04, 0x01, 0x8c, 0x27,
    0x40, 0x04, 0x0a, 0x00, 0x00, 0x01, 0x02, 0x01, 0x03, 0x02, 0x01, 0x00, 0x43, 0x01, 0x64, 0x30, 0x00]

end Tnm
