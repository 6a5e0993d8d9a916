import TkinedRemix.Snmp.BerCore

/-!
SNMP messages: the encoder of `tnmSnmpSend.c` and the decoder of `tnmSnmpRecv.c`. Between the octets and the text
of a varbind stands its typed value.
-/

namespace Tnm

open Lib

def tnmGetTableValue {κ : Type} [BEq κ] (table : List (κ × String)) (key : κ) : Option String :=
  (table.find? fun entry => entry.1 == key).map Prod.snd

def tnmGetTableKey {κ : Type} (table : List (κ × String)) (value : String) : Option κ :=
  (table.find? fun entry => entry.2 == value).map Prod.fst

def asn1Other : UInt8 := 0x00
def asn1SequenceOf : UInt8 := 0x31

def tnmSnmpTypeTable : List (UInt8 × String) :=
  [(asn1Other, "OTHER"), (asn1Integer, "Integer32"), (asn1Integer, "INTEGER"),
    (asn1OctetString, "OCTET STRING"), (asn1Null, "NULL"),
    (asn1ObjectIdentifier, "OBJECT IDENTIFIER"), (asn1Sequence, "SEQUENCE"),
    (asn1SequenceOf, "SEQUENCE OF"), (asn1IpAddress, "IpAddress"), (asn1IpAddress, "NetworkAddress"),
    (asn1Counter32, "Counter32"), (asn1Counter32, "Counter"), (asn1Gauge32, "Unsigned32"),
    (asn1Gauge32, "Gauge32"), (asn1Gauge32, "Gauge"), (asn1TimeTicks, "TimeTicks"),
    (asn1Opaque, "Opaque"), (asn1Counter64, "Counter64")]

def tnmSnmpExceptionTable : List (UInt8 × String) :=
  [(asn1NoSuchObject, "noSuchObject"), (asn1NoSuchInstance, "noSuchInstance"),
    (asn1EndOfMibView, "endOfMibView")]

inductive PduType where
  | get | getnext | response | set | trap1 | getbulk | inform | trap2 | report
deriving Repr, DecidableEq

def PduType.tag : PduType → UInt8
  | .get => 0xa0
  | .getnext => 0xa1
  | .response => 0xa2
  | .set => 0xa3
  | .trap1 => 0xa4
  | .getbulk => 0xa5
  | .inform => 0xa6
  | .trap2 => 0xa7
  | .report => 0xa8

def tnmSnmpPDUTable : List PduType :=
  [.get, .getnext, .response, .set, .trap1, .getbulk, .inform, .trap2, .report]

def PduType.ofTag (tag : UInt8) : Option PduType :=
  tnmSnmpPDUTable.find? fun type => type.tag == tag

def tnmSnmpGet (type : PduType) : Bool :=
  type == .get || type == .getnext || type == .getbulk

def digitChar (digit : Nat) : Char := Char.ofNat (48 + digit)

def decimalDigits : Nat → Nat → List Char
  | 0, _ => []
  | count + 1, number => digitChar (number / 10 ^ count % 10) :: decimalDigits count number

def decimalLength : Nat → Nat → Nat
  | 0, _ => 0
  | fuel + 1, number => if number = 0 then 0 else decimalLength fuel (number / 10) + 1

def subidText (subid : Nat) : List Char :=
  if subid < 10 then [digitChar subid]
  else decimalDigits (decimalLength 10 (subid / 10)) (subid / 10) ++ [digitChar (subid % 10)]

/-- Every sub-identifier is followed by a dot; the last dot is overwritten by the end mark. -/
def dottedText (oid : Oid) : List Char := (oid.map fun subid => subidText subid ++ ['.']).flatten

/-- The static buffer has `TNM_OID_MAX_SIZE * 8` octets; `none` is a text that runs over its end. -/
def tnmOidToStr (oid : Oid) : Option String :=
  if (dottedText oid).length ≤ tnmOidMaxSize * 8 then some (String.ofList (dottedText oid).dropLast)
  else none

def scanOid : List Char → Oid → Nat → Option Oid
  | [], done, subid => some (done ++ [subid])
  | char :: rest, done, subid =>
    if char.isDigit then scanOid rest done ((10 * subid + (char.toNat - 48)) % 2 ^ 32)
    else if char = '.' ∧ done.length < tnmOidMaxSize - 1 then scanOid rest (done ++ [subid]) 0
    else none

/-- The empty text is the empty identifier; one leading dot is skipped. -/
def tnmStrToOid (text : String) : Option Oid :=
  let chars := match text.toList with
    | '.' :: rest => rest
    | chars => chars
  if chars = [] then some []
  else
    match scanOid chars [] 0 with
    | some oid => if oid.length < 2 ∨ oid.headD 0 > 2 then none else some oid
    | none => none

def hexChar (digit : Nat) : Char := Char.ofNat (if 48 + digit > 57 then 48 + digit + 7 else 48 + digit)

def hexText : Octets → List Char
  | [] => []
  | [octet] => [hexChar (octet.toNat / 16), hexChar (octet.toNat % 16)]
  | octet :: rest => hexChar (octet.toNat / 16) :: hexChar (octet.toNat % 16) :: ':' :: hexText rest

def tnmHexEnc (octets : Octets) : String := String.ofList (hexText octets)

def isHexDigit (char : Char) : Bool :=
  char.isDigit || ('a' ≤ char && char ≤ 'f') || ('A' ≤ char && char ≤ 'F')

def hexDigit (char : Char) : Nat :=
  if 'a' ≤ char then char.toNat - 87 else if 'A' ≤ char then char.toNat - 55 else char.toNat - 48

def scanHex : List Char → Option Octets
  | [] => some []
  | [_] => none
  | high :: low :: rest =>
    if isHexDigit high && isHexDigit low then
      let octet := UInt8.ofNat (hexDigit high * 16 + hexDigit low)
      match rest with
      | ':' :: rest => (scanHex rest).map (octet :: ·)
      | rest => (scanHex rest).map (octet :: ·)
    else none

def tnmHexDec (text : String) : Option Octets := scanHex text.toList

/-- What the coder asks of Tcl, of the C library and of the loaded MIB definitions. `mibFormat` is `none` where
`TnmMibFormat` does not return: it panics on a text that is no number under an enumerated INTEGER. -/
structure TclMib where
  getInt : String → Option Int
  getDouble : String → Option Nat
  inetAddr : String → Option Octets
  inetNtoa : Octets → String
  mibGetOid : String → Option String
  mibGetName : Oid → Option String
  mibGetBaseSyntax : Oid → UInt8
  mibFindType : String → Option UInt8
  mibScan : Oid → String → Option String
  mibFormat : Oid → String → Option (Option String)
  hostAddress : Option Octets
  sysUpTime : Int

inductive Asn1Value where
  | integer (value : Int)
  | unsigned (tag : UInt8) (value : Int)
  | counter64 (value : Nat)
  | ipAddress (octets : Octets)
  | octetString (octets : Octets)
  | opaqueData (octets : Octets)
  | any (octets : Octets)
  | objectIdentifier (oid : Oid)
  | null
  | exception (tag : UInt8)
deriving Repr, DecidableEq

structure TypedBind where
  soid : Oid
  value : Asn1Value
deriving Repr, DecidableEq

structure VarBind where
  soid : Oid
  asn1Type : String
  value : String
deriving Repr, DecidableEq

/-- An element of the list given to the encoder has one, two or three components. -/
inductive VarBindArg where
  | name (soid : Oid)
  | guessed (soid : Oid) (value : String)
  | full (varBind : VarBind)
deriving Repr, DecidableEq

def VarBindArg.soid : VarBindArg → Oid
  | .name soid => soid
  | .guessed soid _ => soid
  | .full varBind => varBind.soid

structure Pdu (β : Type) where
  type : PduType
  requestId : Int
  errorStatus : Int
  errorIndex : Int
  trapOid : String
  varBinds : List β
deriving Repr, DecidableEq

inductive SnmpVersion where
  | v1 | v2c | v3
deriving Repr, DecidableEq

def VarBindArg.text : VarBindArg → String
  | .name _ => ""
  | .guessed _ value => value
  | .full varBind => varBind.value

def asn1TypeOf (env : TclMib) (type : PduType) : VarBindArg → UInt8
  | .name _ => asn1Null
  | .guessed soid _ => env.mibGetBaseSyntax soid
  | .full varBind =>
    let named := (tnmGetTableKey tnmSnmpTypeTable varBind.asn1Type).getD asn1Other
    let found :=
      if type = .response then (tnmGetTableKey tnmSnmpExceptionTable varBind.asn1Type).getD named
      else named
    if found = asn1Other then (env.mibFindType varBind.asn1Type).getD asn1Other else found

def scanInt (env : TclMib) (soid : Oid) (text : String) : Option Int :=
  match env.getInt text with
  | some value => some value
  | none => do
      let scanned ← env.mibScan soid text
      if scanned = "" then none else env.getInt scanned

def scanOctets (env : TclMib) (soid : Oid) (text : String) : Option Octets :=
  if text = "" then some []
  else
    let hex := (env.mibScan soid text).getD text
    if hex = "" then some [] else tnmHexDec hex

def scanObjectIdentifier (env : TclMib) (text : String) : Option Oid :=
  match tnmStrToOid text with
  | some oid => some oid
  | none => do
      let resolved ← env.mibGetOid text
      tnmStrToOid resolved

/-- The value a varbind text stands for under a type, as the branches of `EncodePDU` read it. -/
def scanValue (env : TclMib) (version : SnmpVersion) (tag : UInt8) (soid : Oid) (text : String) :
    Option Asn1Value :=
  if tag = asn1Integer then (scanInt env soid text).map .integer
  else if tag = asn1Counter32 ∨ tag = asn1Gauge32 ∨ tag = asn1TimeTicks then
    (scanInt env soid text).map (.unsigned tag)
  else if tag = asn1Counter64 then
    if version = .v1 then none else (env.getDouble text).map .counter64
  else if tag = asn1IpAddress then (env.inetAddr text).map .ipAddress
  else if tag = asn1OctetString then (scanOctets env soid text).map .octetString
  else if tag = asn1Opaque then
    if text = "" then some (.opaqueData []) else (tnmHexDec text).map .opaqueData
  else if tag = asn1ObjectIdentifier then (scanObjectIdentifier env text).map .objectIdentifier
  else if tag = asn1NoSuchObject ∨ tag = asn1NoSuchInstance ∨ tag = asn1EndOfMibView then
    some (.exception tag)
  else if tag = asn1Null then some .null
  else none

/-- Retrieval requests carry no values, but the type has to be known for them as well. -/
def scanVarBind (env : TclMib) (version : SnmpVersion) (type : PduType) (varBind : VarBindArg) :
    Option TypedBind :=
  let tag := asn1TypeOf env type varBind
  if tag = asn1Other then none
  else if tnmSnmpGet type then some ⟨varBind.soid, .null⟩
  else (scanValue env version tag varBind.soid varBind.text).map fun value => ⟨varBind.soid, value⟩

def unsigned64Octets : Nat → Nat → Octets
  | 0, _ => []
  | fuel + 1, value =>
    if value = 0 then [] else unsigned64Octets fuel (value / 256) ++ [UInt8.ofNat (value % 256)]

def tnmBerEncUnsigned64 (size value : Nat) (out : Octets) : Option Octets :=
  tnmBerEncOctetString size asn1Counter64 (unsigned64Octets 128 value) out

def encodeValue (size : Nat) (value : Asn1Value) (out : Octets) : Option Octets :=
  match value with
  | .integer number => tnmBerEncInt size asn1Integer number out
  | .unsigned tag number => tnmBerEncInt size tag number out
  | .counter64 number => tnmBerEncUnsigned64 size number out
  | .ipAddress octets => tnmBerEncOctetString size asn1IpAddress octets out
  | .octetString octets => tnmBerEncOctetString size asn1OctetString octets out
  | .opaqueData octets => tnmBerEncOctetString size asn1Opaque octets out
  | .objectIdentifier oid => tnmBerEncOID size oid out
  | .null => tnmBerEncNull size asn1Null out
  | .exception tag => tnmBerEncNull size tag out
  | .any _ => none

def encodeVarBind (size : Nat) (varBind : TypedBind) (out : Octets) : Option Octets := do
  let (out, vbSeqToken) ← tnmBerEncSequenceStart size asn1Sequence out
  if tnmOidMaxSize < varBind.soid.length then none
  else
    let out ← tnmBerEncOID size varBind.soid out
    let out ← encodeValue size varBind.value out
    tnmBerEncSequenceEnd size vbSeqToken out

def encodeVarBinds (size : Nat) : List TypedBind → Octets → Option Octets
  | [], out => some out
  | varBind :: rest, out => do
      let out ← encodeVarBind size varBind out
      encodeVarBinds size rest out

def sysUpTimeOid : Oid := [1, 3, 6, 1, 2, 1, 1, 3, 0]
def snmpTrapOid : Oid := [1, 3, 6, 1, 6, 3, 1, 1, 4, 1, 0]
def snmpTrapEnterpriseOid : Oid := [1, 3, 6, 1, 6, 3, 1, 1, 4, 3, 0]

def trapHeader (enterpriseOid : Oid) (trapOid : String) : Option (Oid × Int × Int) := do
  let oid ← tnmStrToOid trapOid
  if oid.length < 4 then none
  else if "1.3.6.1.6.3.1.1.5".toList.isPrefixOf trapOid.toList then
    some (enterpriseOid, toInt32 (oid.getLastD 0 - 1), 0)
  else if "1.3.6.1.2.1.11.0".toList.isPrefixOf trapOid.toList then
    some (enterpriseOid, toInt32 (oid.getLastD 0), 0)
  else some (oid.take (oid.length - 2), 6, toInt32 (oid.getLastD 0))

def encodePduHeader (env : TclMib) (size : Nat) (enterpriseOid : Oid) (pdu : Pdu VarBindArg) (out : Octets) :
    Option Octets := do
  if pdu.type = .trap1 then
    let (oid, generic, specific) ← trapHeader enterpriseOid pdu.trapOid
    let out ← tnmBerEncOID size oid out
    let address ← env.hostAddress
    let out ← tnmBerEncOctetString size asn1IpAddress address out
    let out ← tnmBerEncInt size asn1Integer generic out
    let out ← tnmBerEncInt size asn1Integer specific out
    tnmBerEncInt size asn1TimeTicks env.sysUpTime out
  else
    let out ← tnmBerEncInt size asn1Integer pdu.requestId out
    let out ← tnmBerEncInt size asn1Integer pdu.errorStatus out
    tnmBerEncInt size asn1Integer pdu.errorIndex out

def notificationBinds (env : TclMib) (pdu : Pdu VarBindArg) : Option (List TypedBind) :=
  if pdu.type = .trap2 ∨ pdu.type = .inform then do
    let oid ← tnmStrToOid pdu.trapOid
    some [⟨sysUpTimeOid, .unsigned asn1TimeTicks env.sysUpTime⟩, ⟨snmpTrapOid, .objectIdentifier oid⟩]
  else some []

def encodePdu (env : TclMib) (size : Nat) (version : SnmpVersion) (enterpriseOid : Oid)
    (pdu : Pdu VarBindArg) (out : Octets) : Option Octets := do
  let (out, pduSeqToken) ← tnmBerEncSequenceStart size pdu.type.tag out
  let out ← encodePduHeader env size enterpriseOid pdu out
  let (out, vblSeqToken) ← tnmBerEncSequenceStart size asn1Sequence out
  let standard ← notificationBinds env pdu
  let given ← pdu.varBinds.mapM (scanVarBind env version pdu.type)
  let out ← encodeVarBinds size (standard ++ given) out
  let out ← tnmBerEncSequenceEnd size vblSeqToken out
  tnmBerEncSequenceEnd size pduSeqToken out

def versionNumber : SnmpVersion → Int
  | .v1 => 0
  | .v2c => 1
  | .v3 => 3

/-- `EncodeMessage` for the versions that carry a community. -/
def encodeMessage (env : TclMib) (version : SnmpVersion) (community : Octets) (enterpriseOid : Oid)
    (pdu : Pdu VarBindArg) : Option Octets := do
  let (out, seqToken) ← tnmBerEncSequenceStart tnmSnmpMaxSize asn1Sequence []
  let out ← tnmBerEncInt tnmSnmpMaxSize asn1Integer (versionNumber version) out
  let out ← tnmBerEncOctetString tnmSnmpMaxSize asn1OctetString community out
  let out ← encodePdu env tnmSnmpMaxSize version enterpriseOid pdu out
  tnmBerEncSequenceEnd tnmSnmpMaxSize seqToken out

def isException (tag : UInt8) : Bool := (tnmGetTableValue tnmSnmpExceptionTable tag).isSome

/-- An exception counts as read even when its length octets cannot be decoded. -/
def decodeValue : BerReader Asn1Value := do
  let tag ← tnmBerDecPeek
  if isException tag then
    let _ ← Reader.attempt (tnmBerDecNull tag)
    pure (.exception tag)
  else if tag = asn1Counter32 ∨ tag = asn1Gauge32 ∨ tag = asn1TimeTicks then
    let number ← tnmBerDecInt tag
    pure (.unsigned tag number)
  else if tag = asn1Integer then
    let number ← tnmBerDecInt tag
    pure (.integer number)
  else if tag = asn1Counter64 then
    let number ← tnmBerDecUnsigned64
    pure (.counter64 number)
  else if tag = asn1Null then
    tnmBerDecNull asn1Null
    pure .null
  else if tag = asn1ObjectIdentifier then
    let oid ← tnmBerDecOID
    pure (.objectIdentifier oid)
  else if tag = asn1IpAddress then
    let octets ← tnmBerDecOctetString asn1IpAddress
    Reader.check (octets.length == 4)
    pure (.ipAddress octets)
  else if tag = asn1Opaque then
    let octets ← tnmBerDecOctetString tag
    pure (.opaqueData octets)
  else if tag = asn1OctetString then
    let octets ← tnmBerDecOctetString tag
    pure (.octetString octets)
  else
    let octets ← tnmBerDecAny
    pure (.any octets)

def decodeVarBind : BerReader TypedBind := do
  let (vbSeqToken, vbSeqLength) ← tnmBerDecSequenceStart asn1Sequence
  let soid ← tnmBerDecOID
  let value ← decodeValue
  tnmBerDecSequenceEnd vbSeqToken vbSeqLength
  pure ⟨soid, value⟩

/-- What `DecodePDU` has read; an SNMPv1 trap with a varbind list keeps its enterprise. -/
structure RawPdu where
  pdu : Pdu TypedBind
  enterprise : Option Oid
deriving Repr, DecidableEq

def standardTrapOid (generic specific : Int) (enterprise : Oid) : Oid :=
  if 0 ≤ generic ∧ generic ≤ 5 then [1, 3, 6, 1, 6, 3, 1, 1, 5, generic.toNat + 1]
  else enterprise ++ [0, (specific % 2 ^ 32).toNat]

def trapBinds (enterprise : Oid) (generic specific upTime : Int) : List TypedBind :=
  [⟨sysUpTimeOid, .unsigned asn1TimeTicks upTime⟩,
    ⟨snmpTrapOid, .objectIdentifier (standardTrapOid generic specific enterprise)⟩]

/-- The varbind list runs to the end of the packet; its declared length is compared behind it. -/
def decodeVarBindList (vblSeqToken vblSeqLength pduSeqToken pduSeqLength : Nat) :
    BerReader (List TypedBind) := do
  let varBinds ← Reader.many decodeVarBind
  tnmBerDecSequenceEnd vblSeqToken vblSeqLength
  tnmBerDecSequenceEnd pduSeqToken pduSeqLength
  pure varBinds

def trapPdu (enterprise : Oid) (generic specific upTime : Int) (varBinds : List TypedBind) : Pdu TypedBind :=
  { type := .trap1, requestId := 0, errorStatus := 0, errorIndex := 0, trapOid := "",
    varBinds := trapBinds enterprise generic specific upTime ++ varBinds }

/-- A trap whose varbind list does not start properly is accepted as it stands. -/
def decodeTrap (pduSeqToken pduSeqLength : Nat) : BerReader RawPdu := do
  let enterprise ← tnmBerDecOID
  let address ← tnmBerDecOctetString asn1IpAddress
  let generic ← tnmBerDecInt asn1Integer
  let specific ← tnmBerDecInt asn1Integer
  Reader.check (address.length == 4)
  let upTime ← tnmBerDecInt asn1TimeTicks
  let vblSeq ← Reader.attempt (tnmBerDecSequenceStart asn1Sequence)
  match vblSeq with
  | none => pure ⟨trapPdu enterprise generic specific upTime [], none⟩
  | some (vblSeqToken, vblSeqLength) =>
    let varBinds ← decodeVarBindList vblSeqToken vblSeqLength pduSeqToken pduSeqLength
    pure ⟨trapPdu enterprise generic specific upTime varBinds, some enterprise⟩

def decodeRequest (type : PduType) (pduSeqToken pduSeqLength : Nat) : BerReader RawPdu := do
  let requestId ← tnmBerDecInt asn1Integer
  let errorStatus ← tnmBerDecInt asn1Integer
  let errorIndex ← tnmBerDecInt asn1Integer
  Reader.check (decide (0 ≤ errorStatus ∧ errorStatus ≤ 18))
  let (vblSeqToken, vblSeqLength) ← tnmBerDecSequenceStart asn1Sequence
  let varBinds ← decodeVarBindList vblSeqToken vblSeqLength pduSeqToken pduSeqLength
  pure ⟨{ type, requestId, errorStatus, errorIndex, trapOid := "", varBinds }, none⟩

def decodePdu : BerReader RawPdu := do
  let tag ← tnmBerDecPeek
  let (pduSeqToken, pduSeqLength) ← tnmBerDecSequenceStart tag
  match PduType.ofTag tag with
  | none => Reader.fail
  | some type =>
    if type = .trap1 then decodeTrap pduSeqToken pduSeqLength
    else decodeRequest type pduSeqToken pduSeqLength

structure UsmParams where
  engineId : Octets
  engineBoots : Int
  engineTime : Int
  user : Octets
deriving Repr, DecidableEq

structure MsgHeader where
  msgId : Int
  maxSize : Int
  msgFlags : UInt8
deriving Repr, DecidableEq

/-- The digest and the privacy parameters are read and dropped. -/
def decodeUsmSecParams : BerReader UsmParams := do
  let (seqToken, seqLength) ← tnmBerDecSequenceStart asn1Sequence
  let engineId ← tnmBerDecOctetString asn1OctetString
  let engineBoots ← tnmBerDecInt asn1Integer
  let engineTime ← tnmBerDecInt asn1Integer
  let user ← tnmBerDecOctetString asn1OctetString
  let _ ← tnmBerDecOctetString asn1OctetString
  let _ ← tnmBerDecOctetString asn1OctetString
  tnmBerDecSequenceEnd seqToken seqLength
  pure { engineId, engineBoots, engineTime, user }

def tnmSnmpUsmSecModel : Int := 3

def decodeHeader : BerReader MsgHeader := do
  let (seqToken, seqLength) ← tnmBerDecSequenceStart asn1Sequence
  let msgId ← tnmBerDecInt asn1Integer
  let maxSize ← tnmBerDecInt asn1Integer
  Reader.check (decide (484 ≤ maxSize))
  let flags ← tnmBerDecOctetString asn1OctetString
  Reader.check (flags.length == 1)
  let secModel ← tnmBerDecInt asn1Integer
  Reader.check (secModel == tnmSnmpUsmSecModel)
  tnmBerDecSequenceEnd seqToken seqLength
  pure { msgId, maxSize, msgFlags := flags.headD 0 }

structure ScopedPdu where
  contextEngineId : Octets
  context : Octets
  raw : RawPdu
deriving Repr, DecidableEq

def decodeScopedPdu : BerReader ScopedPdu := do
  let (seqToken, seqLength) ← tnmBerDecSequenceStart asn1Sequence
  let contextEngineId ← tnmBerDecOctetString asn1OctetString
  let context ← tnmBerDecOctetString asn1OctetString
  let raw ← decodePdu
  tnmBerDecSequenceEnd seqToken seqLength
  pure { contextEngineId, context, raw }

inductive Message where
  | community (version : SnmpVersion) (name : Octets) (raw : RawPdu)
  | usm (header : MsgHeader) (params : UsmParams) (scopedPdu : ScopedPdu)
deriving Repr, DecidableEq

/-- The security parameters are an octet string that holds an encoding of its own. -/
def decodeUsm (octets : Octets) : BerReader UsmParams :=
  match (decodeUsmSecParams ⟨octets, 0⟩).1 with
  | some params => pure params
  | none => Reader.fail

def decodeCommunity (version : SnmpVersion) : BerReader Message := do
  let name ← tnmBerDecOctetString asn1OctetString
  let raw ← decodePdu
  pure (.community version name raw)

def decodeSecure : BerReader Message := do
  let header ← decodeHeader
  let octets ← tnmBerDecOctetString asn1OctetString
  let params ← decodeUsm octets
  let scopedPdu ← decodeScopedPdu
  pure (.usm header params scopedPdu)

def decodeBody (version : Int) : BerReader Message :=
  if version = 0 then decodeCommunity .v1
  else if version = 1 then decodeCommunity .v2c
  else if version = 3 then decodeSecure
  else Reader.fail

def decodeMessageReader : BerReader Message := do
  let (msgSeqToken, msgSeqLength) ← tnmBerDecSequenceStart asn1Sequence
  let version ← tnmBerDecInt asn1Integer
  let message ← decodeBody version
  tnmBerDecSequenceEnd msgSeqToken msgSeqLength
  let done ← Reader.atEnd
  Reader.check done
  pure message

def decodeMessage (packet : Octets) : Option Message := (decodeMessageReader ⟨packet, 0⟩).1

def typeText (value : Asn1Value) : String :=
  match value with
  | .integer _ => "Integer32"
  | .unsigned tag _ => (tnmGetTableValue tnmSnmpTypeTable tag).getD "Opaque"
  | .counter64 _ => "Counter64"
  | .ipAddress _ => "IpAddress"
  | .octetString _ => "OCTET STRING"
  | .opaqueData _ => "Opaque"
  | .any octets => (tnmGetTableValue tnmSnmpTypeTable (octets.headD 0)).getD "Opaque"
  | .objectIdentifier _ => "OBJECT IDENTIFIER"
  | .null => "NULL"
  | .exception tag => (tnmGetTableValue tnmSnmpExceptionTable tag).getD ""

def formatted (env : TclMib) (soid : Oid) (text : String) : Option String :=
  (env.mibFormat soid text).map (·.getD text)

def valueText (env : TclMib) (soid : Oid) (value : Asn1Value) : Option String :=
  match value with
  | .integer number => formatted env soid (toString number)
  | .unsigned _ number => some (toString (number % 2 ^ 32))
  | .counter64 number => some (toString number)
  | .ipAddress octets => some (env.inetNtoa octets)
  | .octetString octets => formatted env soid (tnmHexEnc octets)
  | .opaqueData octets => some (tnmHexEnc octets)
  | .any octets => some (tnmHexEnc octets)
  | .objectIdentifier oid => (tnmOidToStr oid).bind (formatted env soid)
  | .null => some ""
  | .exception _ => some (if env.mibGetBaseSyntax soid = asn1OctetString then "" else "0")

/-- The text of a varbind; `none` when an identifier overruns the buffer it is written to, or no text can be made. -/
def varBindText (env : TclMib) (varBind : TypedBind) : Option VarBind := do
  let _ ← tnmOidToStr varBind.soid
  let value ← valueText env varBind.soid varBind.value
  some ⟨varBind.soid, typeText varBind.value, value⟩

def enterpriseText (env : TclMib) (enterprise : Oid) : Option VarBind := do
  let text ← tnmOidToStr enterprise
  some ⟨snmpTrapEnterpriseOid, "OBJECT IDENTIFIER", (env.mibGetName enterprise).getD text⟩

def pduText (env : TclMib) (raw : RawPdu) : Option (Pdu VarBind) := do
  let varBinds ← raw.pdu.varBinds.mapM (varBindText env)
  let enterprise ← (raw.enterprise.toList).mapM (enterpriseText env)
  some { raw.pdu with varBinds := varBinds ++ enterprise }

def bareTcl : TclMib where
  getInt text := if text = "7" then some 7 else none
  getDouble _ := none
  inetAddr text := if text = "10.0.0.1" then some [10, 0, 0, 1] else none
  inetNtoa _ := "10.0.0.1"
  mibGetOid _ := none
  mibGetName _ := none
  mibGetBaseSyntax _ := asn1Other
  mibFindType _ := none
  mibScan _ _ := none
  mibFormat _ _ := some none
  hostAddress := some [10, 0, 0, 1]
  sysUpTime := 100

end Tnm
