import TkinedRemix.Snmp.PduText

/-!
Decoding an encoded message. It comes back as it was sent exactly when its identifiers fit the number and the
buffer they pass through.
-/

namespace Tnm

open Lib List Option

/-- Tcl and the C library read again what is printed for numbers and addresses. -/
structure TclLaws (env : TclMib) : Prop where
  getInt_range : ∀ text value, env.getInt text = some value → -2 ^ 31 ≤ value ∧ value < 2 ^ 31
  getInt_printed : ∀ text value, env.getInt text = some value → env.getInt (toString value) = some value
  inetAddr_length : ∀ text octets, env.inetAddr text = some octets → octets.length = 4
  inetAddr_printed : ∀ text octets, env.inetAddr text = some octets →
    env.inetAddr (env.inetNtoa octets) = some octets

/-- Without an enumeration or a display hint `TnmMibFormat` returns, whatever the value. -/
structure Undecorated (env : TclMib) (soid : Oid) : Prop where
  integer : ∀ number : Int, (formatted env soid (toString number)).isSome
  octets : ∀ octets, (formatted env soid (tnmHexEnc octets)).isSome
  identifier : ∀ oid text, tnmOidToStr oid = some text → (formatted env soid text).isSome

def plainTag (tag : UInt8) : Prop :=
  tag = asn1Integer ∨ tag = asn1OctetString ∨ tag = asn1ObjectIdentifier ∨ tag = asn1Null ∨ tag = asn1IpAddress

structure PlainBind (env : TclMib) (type : PduType) (varBind : VarBindArg) : Prop where
  subids : ∀ subid ∈ varBind.soid, subid < 2 ^ 32
  plain : plainTag (asn1TypeOf env type varBind)
  undecorated : Undecorated env varBind.soid

def carriesValues (type : PduType) : Prop := type = .set ∨ type = .response

/-- The text is one for the value in its base representation. -/
def Represents (env : TclMib) (value : Asn1Value) (text : String) : Prop :=
  match value with
  | .integer number => env.getInt text = some number
  | .octetString octets => tnmHexDec text = some octets
  | .objectIdentifier oid => tnmStrToOid text = some oid
  | .ipAddress octets => env.inetAddr text = some octets
  | .null => text = ""
  | _ => False

/-- Numbers, octets and identifiers are shown as `TnmMibFormat` makes it of their base representation. -/
def Shows (env : TclMib) (soid : Oid) (value : Asn1Value) (shown : String) : Prop :=
  ∃ text, Represents env value text ∧
    match value with
    | .integer _ | .octetString _ | .objectIdentifier _ => formatted env soid text = some shown
    | _ => shown = text

/-- The decoder has read what the encoder has, and shows it. -/
structure SameValue (env : TclMib) (version : SnmpVersion) (type : PduType) (given : VarBindArg) (typed : TypedBind)
    (decoded : VarBind) : Prop where
  tag : asn1TypeOf env type (.full decoded) = asn1TypeOf env type given
  value : scanVarBind env version type given = some typed
  shows : Shows env typed.soid typed.value decoded.value

structure SamePdu (env : TclMib) (version : SnmpVersion) (pdu : Pdu VarBindArg) (raw : Pdu TypedBind)
    (decoded : Pdu VarBind) : Prop where
  type : decoded.type = pdu.type
  requestId : decoded.requestId = pdu.requestId
  errorStatus : decoded.errorStatus = pdu.errorStatus
  errorIndex : decoded.errorIndex = pdu.errorIndex
  names : decoded.varBinds.map VarBind.soid = pdu.varBinds.map VarBindArg.soid
  values : carriesValues pdu.type →
    Forall₂ (fun given found => SameValue env version pdu.type given found.1 found.2) pdu.varBinds
      (raw.varBinds.zip decoded.varBinds)

def RoundTrips (env : TclMib) (version : SnmpVersion) (community : Octets) (pdu : Pdu VarBindArg)
    (packet : Octets) : Prop :=
  ∃ raw decoded, decodeMessage packet = some (.community version community raw) ∧
    pduText env raw = some decoded ∧ SamePdu env version pdu raw.pdu decoded

def FitsOid (oid : Oid) : Prop := Packs oid ∧ (dottedText oid).length ≤ tnmOidMaxSize * 8

/-- The identifiers of a varbind that travel. -/
def FitsBind (env : TclMib) (type : PduType) (varBind : VarBindArg) : Prop :=
  FitsOid varBind.soid ∧
    (carriesValues type → asn1TypeOf env type varBind = asn1ObjectIdentifier →
      ∀ oid, scanObjectIdentifier env varBind.text = some oid → FitsOid oid)

variable {env : TclMib} {version : SnmpVersion} {tag : UInt8} {soid : Oid} {text : String} {value : Asn1Value}

theorem scanValue_plain (plain : plainTag tag) (scanned : scanValue env version tag soid text = some value) :
    (∃ number, tag = asn1Integer ∧ value = .integer number ∧ scanInt env soid text = some number) ∨
      (∃ octets, tag = asn1OctetString ∧ value = .octetString octets ∧ scanOctets env soid text = some octets) ∨
      (∃ oid, tag = asn1ObjectIdentifier ∧ value = .objectIdentifier oid ∧ scanObjectIdentifier env text = some oid) ∨
      (tag = asn1Null ∧ value = .null) ∨
      (∃ octets, tag = asn1IpAddress ∧ value = .ipAddress octets ∧ env.inetAddr text = some octets) := by
  rcases plain with rfl | rfl | rfl | rfl | rfl
  · obtain ⟨number, found, rfl⟩ := map_eq_some_iff.mp scanned
    exact .inl ⟨number, rfl, rfl, found⟩
  · obtain ⟨octets, found, rfl⟩ := map_eq_some_iff.mp scanned
    exact .inr (.inl ⟨octets, rfl, rfl, found⟩)
  · obtain ⟨oid, found, rfl⟩ := map_eq_some_iff.mp scanned
    exact .inr (.inr (.inl ⟨oid, rfl, rfl, found⟩))
  · exact .inr (.inr (.inr (.inl ⟨rfl, (Option.some.inj scanned).symm⟩)))
  · obtain ⟨octets, found, rfl⟩ := map_eq_some_iff.mp scanned
    exact .inr (.inr (.inr (.inr ⟨octets, rfl, rfl, found⟩)))

theorem scanInt_getInt {number : Int} (scanned : scanInt env soid text = some number) :
    ∃ source, env.getInt source = some number := by
  rw [scanInt] at scanned
  split at scanned
  next direct =>
    cases scanned
    exact ⟨text, direct⟩
  · obtain ⟨hint, _, scanned⟩ := bind_eq_some_iff.mp scanned
    split at scanned
    · cases scanned
    · exact ⟨hint, scanned⟩

variable {oid : Oid}

theorem scanObjectIdentifier_bounds (scanned : scanObjectIdentifier env text = some oid) :
    oid.length ≤ tnmOidMaxSize ∧ ∀ subid ∈ oid, subid < 2 ^ 32 := by
  rw [scanObjectIdentifier] at scanned
  split at scanned
  next direct =>
    cases scanned
    exact tnmStrToOid_bounds direct
  · obtain ⟨_, _, scanned⟩ := bind_eq_some_iff.mp scanned
    exact tnmStrToOid_bounds scanned

theorem scanValue_cvalue (laws : TclLaws env) (no64 : tag = asn1Counter64 → version = .v1)
    (scanned : scanValue env version tag soid text = some value) : CValue value := by
  unfold scanValue at scanned
  split_ifs at scanned with _ unsigned is64 later _ _ _ _ _ exceptional
  · obtain ⟨number, found, rfl⟩ := map_eq_some_iff.mp scanned
    obtain ⟨source, read⟩ := scanInt_getInt found
    exact laws.getInt_range source number read
  · obtain ⟨number, _, rfl⟩ := map_eq_some_iff.mp scanned
    exact unsigned
  · exact absurd (no64 is64) later
  · obtain ⟨four, found, rfl⟩ := map_eq_some_iff.mp scanned
    exact laws.inetAddr_length text four found
  · obtain ⟨_, _, rfl⟩ := map_eq_some_iff.mp scanned
    trivial
  · cases scanned
    trivial
  · obtain ⟨_, _, rfl⟩ := map_eq_some_iff.mp scanned
    trivial
  · obtain ⟨_, found, rfl⟩ := map_eq_some_iff.mp scanned
    exact scanObjectIdentifier_bounds found
  · cases scanned
    rcases exceptional with rfl | rfl | rfl <;> rfl
  · cases scanned
    trivial

theorem valueText_shows_iff (laws : TclLaws env) (undecorated : Undecorated env soid) (plain : plainTag tag)
    (scanned : scanValue env version tag soid text = some value) (legal : LegalValue value) :
    (decodedValue value = value ∧ ∃ shown, valueText env soid value = some shown ∧ Shows env soid value shown) ↔
      (tag = asn1ObjectIdentifier → ∀ oid, scanObjectIdentifier env text = some oid → FitsOid oid) := by
  rcases scanValue_plain plain scanned with ⟨number, rfl, rfl, found⟩ | ⟨octets, rfl, rfl, _⟩ |
    ⟨oid, rfl, rfl, found⟩ | ⟨rfl, rfl⟩ | ⟨octets, rfl, rfl, found⟩
  · obtain ⟨shown, isShown⟩ := isSome_iff_exists.mp (undecorated.integer number)
    obtain ⟨source, read⟩ := scanInt_getInt found
    exact iff_of_true ⟨rfl, shown, isShown, _, laws.getInt_printed source number read, isShown⟩
      (fun other => absurd other (by decide))
  · obtain ⟨shown, isShown⟩ := isSome_iff_exists.mp (undecorated.octets octets)
    exact iff_of_true ⟨rfl, shown, isShown, _, tnmHexDec_tnmHexEnc octets, isShown⟩
      (fun other => absurd other (by decide))
  · obtain ⟨short, bounds⟩ := scanObjectIdentifier_bounds found
    have packsIff := repackOid_eq_iff legal.1 legal.2 bounds
    constructor
    · rintro ⟨same, _, written, _⟩ _ other otherFound
      obtain rfl : oid = other := Option.some.inj (found.symm.trans otherFound)
      obtain ⟨_, inBuffer, _⟩ := bind_eq_some_iff.mp written
      exact ⟨packsIff.mp (Asn1Value.objectIdentifier.inj same), (tnmOidToStr_eq_some.mp inBuffer).1⟩
    · intro fits
      obtain ⟨packs, inBuffer⟩ := fits rfl oid found
      have written := tnmOidToStr_eq_some.mpr ⟨inBuffer, rfl⟩
      obtain ⟨shown, isShown⟩ := isSome_iff_exists.mp (undecorated.identifier oid _ written)
      refine ⟨congrArg _ (packsIff.mpr packs), shown, bind_eq_some_iff.mpr ⟨_, written, isShown⟩, _, ?_, isShown⟩
      exact tnmStrToOid_legal legal short bounds written
  · exact iff_of_true ⟨rfl, "", rfl, "", rfl, rfl⟩ (fun other => absurd other (by decide))
  · exact iff_of_true ⟨rfl, _, rfl, _, laws.inetAddr_printed text octets found, rfl⟩
      (fun other => absurd other (by decide))

theorem asn1TypeOf_decoded (plain : plainTag tag) (scanned : scanValue env version tag soid text = some value)
    (type : PduType) (name : Oid) (shown : String) :
    asn1TypeOf env type (.full ⟨name, typeText value, shown⟩) = tag := by
  rcases scanValue_plain plain scanned with ⟨_, rfl, rfl, _⟩ | ⟨_, rfl, rfl, _⟩ | ⟨_, rfl, rfl, _⟩ |
    ⟨rfl, rfl⟩ | ⟨_, rfl, rfl, _⟩
  all_goals cases type <;> rfl

theorem mapM_eq_some_iff {α β : Type} {f : α → Option β} {inputs : List α} {outputs : List β} :
    inputs.mapM f = some outputs ↔ Forall₂ (fun input output => f input = some output) inputs outputs := by
  induction inputs generalizing outputs with
  | nil =>
    constructor
    · rintro ⟨⟩
      exact .nil
    · rintro ⟨⟩
      rfl
  | cons _ _ ih =>
    rw [mapM_cons]
    constructor
    · intro mapped
      obtain ⟨_, first, mapped⟩ := bind_eq_some_iff.mp mapped
      obtain ⟨_, rest, mapped⟩ := bind_eq_some_iff.mp mapped
      cases mapped
      exact .cons first (ih.mp rest)
    · intro mapped
      cases mapped with
      | cons first rest =>
        simp only [first, ih.mpr rest, bind_eq_bind, bind_some, Option.pure_def]

variable {type : PduType} {varBind : VarBindArg} {typed : TypedBind}

theorem scanVarBind_soid (scanned : scanVarBind env version type varBind = some typed) : typed.soid = varBind.soid := by
  simp only [scanVarBind] at scanned
  split_ifs at scanned
  · cases scanned
    rfl
  · obtain ⟨_, _, rfl⟩ := map_eq_some_iff.mp scanned
    rfl

theorem plainTag_not_other (plain : plainTag tag) : tag ≠ asn1Other := by
  rcases plain with rfl | rfl | rfl | rfl | rfl <;> decide

theorem plainTag_not_counter64 (plain : plainTag tag) : tag ≠ asn1Counter64 := by
  rcases plain with rfl | rfl | rfl | rfl | rfl <;> decide

theorem scanVarBind_get (plain : plainTag (asn1TypeOf env type varBind)) (retrieves : tnmSnmpGet type = true) :
    scanVarBind env version type varBind = some ⟨varBind.soid, .null⟩ := by
  simp only [scanVarBind]
  rw [if_neg (plainTag_not_other plain), if_pos retrieves]

theorem scanVarBind_carries (plain : plainTag (asn1TypeOf env type varBind)) (carries : carriesValues type) :
    scanVarBind env version type varBind =
      (scanValue env version (asn1TypeOf env type varBind) varBind.soid varBind.text).map
        fun value => ⟨varBind.soid, value⟩ := by
  have notGet : ¬ tnmSnmpGet type = true := by
    rcases carries with rfl | rfl <;> decide
  simp only [scanVarBind]
  rw [if_neg (plainTag_not_other plain), if_neg notGet]

theorem scanVarBind_cbind (laws : TclLaws env) (no64 : asn1TypeOf env type varBind = asn1Counter64 → version = .v1)
    (subids : ∀ subid ∈ varBind.soid, subid < 2 ^ 32)
    (scanned : scanVarBind env version type varBind = some typed) : CBind typed := by
  refine ⟨by rwa [scanVarBind_soid scanned], ?_⟩
  simp only [scanVarBind] at scanned
  split_ifs at scanned
  · cases scanned
    trivial
  · obtain ⟨_, found, rfl⟩ := map_eq_some_iff.mp scanned
    exact scanValue_cvalue laws no64 found

theorem varBindText_eq_some {varBind : TypedBind} {shown : VarBind} : varBindText env varBind = some shown ↔
      (∃ name, tnmOidToStr varBind.soid = some name) ∧ ∃ text, valueText env varBind.soid varBind.value = some text ∧
          shown = ⟨varBind.soid, typeText varBind.value, text⟩ := by
  rw [varBindText]
  constructor
  · intro found
    obtain ⟨name, named, found⟩ := bind_eq_some_iff.mp found
    obtain ⟨text, valued, found⟩ := bind_eq_some_iff.mp found
    cases found
    exact ⟨⟨name, named⟩, text, valued, rfl⟩
  · rintro ⟨⟨_, named⟩, _, valued, rfl⟩
    simp only [named, valued, bind_eq_bind, bind_some]

theorem varBindText_decoded_iff (laws : TclLaws env) (covered : tnmSnmpGet type = true ∨ carriesValues type)
    (plain : PlainBind env type varBind) (scanned : scanVarBind env version type varBind = some typed)
    (legal : LegalBind typed) : (∃ shown, varBindText env (decodedBind typed) = some shown ∧ shown.soid = varBind.soid ∧
        (carriesValues type → SameValue env version type varBind (decodedBind typed) shown)) ↔
      FitsBind env type varBind := by
  have named := scanVarBind_soid scanned
  obtain ⟨⟨legalName, short⟩, legalValue⟩ := legal
  rw [named] at legalName
  have nameIff : (repackOid varBind.soid = varBind.soid ∧ ∃ name, tnmOidToStr (repackOid varBind.soid) = some name) ↔
      FitsOid varBind.soid := by
    rw [repackOid_eq_iff legalName.1 legalName.2 plain.subids]
    refine and_congr_right fun packs => ?_
    rw [(repackOid_eq_iff legalName.1 legalName.2 plain.subids).mpr packs]
    simp [tnmOidToStr_eq_some]
  rcases covered with retrieves | carries
  · have silent : ¬ carriesValues type := by
      rintro (rfl | rfl) <;> exact absurd retrieves (by decide)
    cases (scanVarBind_get plain.plain retrieves).symm.trans scanned
    simp only [FitsBind, silent, false_implies, and_true, ← nameIff]
    constructor
    · rintro ⟨shown, written, same⟩
      obtain ⟨inBuffer, text, _, rfl⟩ := varBindText_eq_some.mp written
      exact ⟨same, inBuffer⟩
    · rintro ⟨same, inBuffer⟩
      exact ⟨_, varBindText_eq_some.mpr ⟨inBuffer, "", rfl, rfl⟩, same⟩
  · have original := scanned
    rw [scanVarBind_carries plain.plain carries] at scanned
    obtain ⟨value, found, rfl⟩ := map_eq_some_iff.mp scanned
    have valueIff := valueText_shows_iff laws plain.undecorated plain.plain found legalValue
    simp only [FitsBind, carries, true_implies, ← nameIff, ← valueIff]
    constructor
    · rintro ⟨_, written, same, kept⟩
      have unchanged : decodedBind ⟨varBind.soid, value⟩ = ⟨varBind.soid, value⟩ :=
        Option.some.inj (kept.value.symm.trans original)
      obtain ⟨inBuffer, text, valued, rfl⟩ := varBindText_eq_some.mp written
      have shows := kept.shows
      rw [unchanged] at valued shows
      exact ⟨⟨same, inBuffer⟩, congrArg TypedBind.value unchanged, text, valued, shows⟩
    · rintro ⟨⟨unpacked, inBuffer⟩, kept, text, valued, shows⟩
      have unchanged : decodedBind ⟨varBind.soid, value⟩ = ⟨varBind.soid, value⟩ := by
        rw [decodedBind, unpacked, kept]
      rw [unpacked] at inBuffer
      refine ⟨⟨varBind.soid, typeText value, text⟩, ?_, rfl, ?_⟩
      · rw [unchanged]
        exact varBindText_eq_some.mpr ⟨inBuffer, text, valued, rfl⟩
      · rw [unchanged]
        exact ⟨asn1TypeOf_decoded plain.plain found type varBind.soid text, original, shows⟩

theorem varBindsText_decoded_iff (laws : TclLaws env) (covered : tnmSnmpGet type = true ∨ carriesValues type)
    {varBinds : List VarBindArg} {typed : List TypedBind} (plain : ∀ varBind ∈ varBinds, PlainBind env type varBind)
    (scanned : Forall₂ (fun varBind typed => scanVarBind env version type varBind = some typed) varBinds typed)
    (legal : ∀ bind ∈ typed, LegalBind bind) : (∃ shown, (typed.map decodedBind).mapM (varBindText env) = some shown ∧
        shown.map VarBind.soid = varBinds.map VarBindArg.soid ∧
        (carriesValues type → Forall₂ (fun given found => SameValue env version type given found.1 found.2) varBinds
          ((typed.map decodedBind).zip shown))) ↔
      ∀ varBind ∈ varBinds, FitsBind env type varBind := by
  induction scanned with
  | nil => exact iff_of_true ⟨[], rfl, rfl, fun _ => .nil⟩ (by simp)
  | @cons varBind typed varBinds typeds head _ ih =>
    have headIff := varBindText_decoded_iff laws covered (plain varBind (by simp)) head (legal typed (by simp))
    have tailIff := ih (fun other member => plain other (by simp [member]))
      (fun other member => legal other (by simp [member]))
    rw [forall_mem_cons, ← headIff, ← tailIff]
    simp only [mapM_eq_some_iff, map_cons]
    constructor
    · rintro ⟨shown, written, names, kept⟩
      cases written with
      | cons first rest =>
        simp only [map_cons, List.cons.injEq] at names
        refine ⟨⟨_, first, names.1, fun carries => ?_⟩, _, rest, names.2, fun carries => ?_⟩
        · exact (forall₂_cons.mp (kept carries)).1
        · exact (forall₂_cons.mp (kept carries)).2
    · rintro ⟨⟨shown, first, name, kept⟩, others, rest, names, keptAll⟩
      refine ⟨shown :: others, .cons first rest, ?_, fun carries => .cons (kept carries) (keptAll carries)⟩
      rw [map_cons, name, names]

variable {pdu : Pdu VarBindArg}

theorem pduText_decodedRequest {typed : List TypedBind} {decoded : Pdu VarBind} :
    pduText env (decodedRequest pdu typed) = some decoded ↔
      ∃ shown, (typed.map decodedBind).mapM (varBindText env) = some shown ∧
        decoded = { type := pdu.type, requestId := pdu.requestId, errorStatus := pdu.errorStatus,
                    errorIndex := pdu.errorIndex, trapOid := "", varBinds := shown } := by
  rw [pduText, decodedRequest]
  constructor
  · intro found
    obtain ⟨shown, mapped, found⟩ := bind_eq_some_iff.mp found
    cases found
    exact ⟨shown, mapped, by simp⟩
  · rintro ⟨_, mapped, rfl⟩
    simp [mapped]

theorem encodePdu_of_encodeMessage {community packet : Octets} {enterpriseOid : Oid}
    (found : encodeMessage env version community enterpriseOid pdu = some packet) :
    ∃ out out', encodePdu env tnmSnmpMaxSize version enterpriseOid pdu out = some out' := by
  obtain ⟨_, _, found⟩ := bind_eq_some_iff.mp found
  obtain ⟨_, _, found⟩ := bind_eq_some_iff.mp found
  obtain ⟨_, encoded, _⟩ := bind_eq_some_iff.mp found
  exact ⟨_, _, encoded⟩

theorem sentBinds_of_encodeMessage {community packet : Octets} {enterpriseOid : Oid}
    (found : encodeMessage env version community enterpriseOid pdu = some packet) :
    ∃ typed, sentBinds env version pdu = some typed := by
  obtain ⟨_, _, encoded⟩ := encodePdu_of_encodeMessage found
  obtain ⟨_, _, _, typed, _, _, sent, _⟩ := encodePdu_eq_some encoded
  exact ⟨typed, sent⟩

theorem sentBinds_scanned {typed : List TypedBind} (notTrap2 : pdu.type ≠ .trap2) (notInform : pdu.type ≠ .inform)
    (sent : sentBinds env version pdu = some typed) :
    Forall₂ (fun varBind typed => scanVarBind env version pdu.type varBind = some typed) pdu.varBinds typed := by
  simp only [sentBinds, notificationBinds, notTrap2, notInform] at sent
  obtain ⟨_, none, sent⟩ := bind_eq_some_iff.mp sent
  obtain ⟨_, mapped, same⟩ := bind_eq_some_iff.mp sent
  cases none
  cases same
  exact mapM_eq_some_iff.mp mapped

theorem forall₂_mem_right {α β : Type} {related : α → β → Prop} {p : β → Prop} {inputs : List α} {outputs : List β}
    (all : Forall₂ related inputs outputs)
    (each : ∀ input ∈ inputs, ∀ output, related input output → p output) : ∀ output ∈ outputs, p output := by
  induction all with
  | nil => simp
  | cons first _ ih =>
    rw [forall_mem_cons]
    exact ⟨each _ (by simp) _ first, ih fun input member => each input (by simp [member])⟩

theorem bareTcl_laws : TclLaws bareTcl where
  getInt_range text value found := by
    obtain ⟨_, rfl⟩ : text = "7" ∧ 7 = value := by simpa [bareTcl] using found
    decide
  getInt_printed text value found := by
    obtain ⟨_, rfl⟩ : text = "7" ∧ 7 = value := by simpa [bareTcl] using found
    decide
  inetAddr_length text octets found := by
    obtain ⟨_, rfl⟩ : text = "10.0.0.1" ∧ [10, 0, 0, 1] = octets := by simpa [bareTcl] using found
    rfl
  inetAddr_printed text octets found := by
    obtain ⟨_, rfl⟩ : text = "10.0.0.1" ∧ [10, 0, 0, 1] = octets := by simpa [bareTcl] using found
    rfl

theorem bareTcl_undecorated (soid : Oid) : Undecorated bareTcl soid :=
  ⟨fun _ => rfl, fun _ => rfl, fun _ _ _ => rfl⟩

def setSeven : Pdu VarBindArg :=
  { type := .set, requestId := 4711, errorStatus := 0, errorIndex := 0, trapOid := "",
    varBinds := [.full ⟨[1, 3, 6, 1], "INTEGER", "7"⟩] }

def setSevenPacket : Octets :=
  [0x30, 0x1e, 0x02, 0x01, 0x01, 0x04, 0x01, 0x70, 0xa3, 0x16, 0x02, 0x02, 0x12, 0x67, 0x02, 0x01, 0x00,
    0x02, 0x01, 0x00, 0x30, 0x0a, 0x30, 0x08, 0x06, 0x03, 0x2b, 0x06, 0x01, 0x02, 0x01, 0x07]

def getWrapped : Pdu VarBindArg :=
  { type := .get, requestId := 1, errorStatus := 0, errorIndex := 0, trapOid := "",
    varBinds := [.name [2, 4294967295]] }

def getWrappedPacket : Octets :=
  [0x30, 0x1a, 0x02, 0x01, 0x00, 0x04, 0x01, 0x70, 0xa0, 0x12, 0x02, 0x01, 0x01, 0x02, 0x01, 0x00,
    0x02, 0x01, 0x00, 0x30, 0x07, 0x30, 0x05, 0x06, 0x01, 0x4f, 0x05, 0x00]

end Tnm
