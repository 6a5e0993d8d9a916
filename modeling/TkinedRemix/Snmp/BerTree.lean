import TkinedRemix.Snmp.PduFormat

/-!
BER trees of SNMPv1 and SNMPv2c messages, stated without the decoder. The strict part of its format is these
trees.
-/

namespace Tnm

open Lib List

def Tlv (tag : UInt8) (content encoding : Octets) : Prop :=
  ∃ lengthOctets, DefiniteLength lengthOctets content.length ∧ encoding = tag :: (lengthOctets ++ content)

def IntTlv (tag : UInt8) (encoding : Octets) (value : Int) : Prop :=
  ∃ content, Tlv tag content encoding ∧ IntContent tag content value

def OctetsTlv (tag : UInt8) (encoding octets : Octets) : Prop :=
  ∃ content, Tlv tag content encoding ∧ OctetsContent content octets

def OidTlv (encoding : Octets) (oid : Oid) : Prop :=
  ∃ content, Tlv asn1ObjectIdentifier content encoding ∧ OidContent content oid

def unsignedTag (tag : UInt8) : Prop := tag = asn1Counter32 ∨ tag = asn1Gauge32 ∨ tag = asn1TimeTicks

/-- The tags that `DecodePDU` has a case for. -/
def knownTag (tag : UInt8) : Prop :=
  isException tag = true ∨ unsignedTag tag ∨ tag = asn1Integer ∨ tag = asn1Counter64 ∨ tag = asn1Null ∨
    tag = asn1ObjectIdentifier ∨ tag = asn1IpAddress ∨ tag = asn1Opaque ∨ tag = asn1OctetString

def ValueTlv (encoding : Octets) : Asn1Value → Prop
  | .integer value => IntTlv asn1Integer encoding value
  | .unsigned tag value => unsignedTag tag ∧ IntTlv tag encoding value
  | .counter64 value => ∃ content, Tlv asn1Counter64 content encoding ∧ Unsigned64Content content value
  | .ipAddress octets => OctetsTlv asn1IpAddress encoding octets ∧ octets.length = 4
  | .octetString octets => OctetsTlv asn1OctetString encoding octets
  | .opaqueData octets => OctetsTlv asn1Opaque encoding octets
  | .any octets => octets = encoding ∧ ∃ tag content, ¬ knownTag tag ∧ OctetsTlv tag encoding content
  | .objectIdentifier oid => OidTlv encoding oid
  | .null => Tlv asn1Null [] encoding
  | .exception tag => isException tag = true ∧ Tlv tag [] encoding

def VarBindTlv (encoding : Octets) (varBind : TypedBind) : Prop :=
  ∃ name value, Tlv asn1Sequence (name ++ value) encoding ∧ OidTlv name varBind.soid ∧
    ValueTlv value varBind.value

def VarBindListTlv (encoding : Octets) (varBinds : List TypedBind) : Prop :=
  ∃ elements : List Octets, Tlv asn1Sequence elements.flatten encoding ∧
    List.Forall₂ VarBindTlv elements varBinds

def RequestTlv (encoding : Octets) (raw : RawPdu) : Prop :=
  ∃ type requestId errorStatus errorIndex varBinds idEnc statusEnc indexEnc listEnc,
    type ≠ PduType.trap1 ∧ Tlv type.tag (idEnc ++ (statusEnc ++ (indexEnc ++ listEnc))) encoding ∧
      IntTlv asn1Integer idEnc requestId ∧ IntTlv asn1Integer statusEnc errorStatus ∧
      IntTlv asn1Integer indexEnc errorIndex ∧ 0 ≤ errorStatus ∧ errorStatus ≤ 18 ∧
      VarBindListTlv listEnc varBinds ∧
      raw = ⟨{ type, requestId, errorStatus, errorIndex, trapOid := "", varBinds }, none⟩

def TrapListTlv (encoding : Octets) (enterprise : Oid) (generic specific upTime : Int) (raw : RawPdu) : Prop :=
  (encoding = [] ∧ raw = ⟨trapPdu enterprise generic specific upTime [], none⟩) ∨
    ∃ varBinds, VarBindListTlv encoding varBinds ∧
      raw = ⟨trapPdu enterprise generic specific upTime varBinds, some enterprise⟩

def TrapTlv (encoding : Octets) (raw : RawPdu) : Prop :=
  ∃ enterprise address generic specific upTime oidEnc addressEnc genericEnc specificEnc timeEnc listEnc,
    Tlv PduType.trap1.tag
        (oidEnc ++ (addressEnc ++ (genericEnc ++ (specificEnc ++ (timeEnc ++ listEnc))))) encoding ∧
      OidTlv oidEnc enterprise ∧ OctetsTlv asn1IpAddress addressEnc address ∧ address.length = 4 ∧
      IntTlv asn1Integer genericEnc generic ∧ IntTlv asn1Integer specificEnc specific ∧
      IntTlv asn1TimeTicks timeEnc upTime ∧
      TrapListTlv listEnc enterprise generic specific upTime raw

def MessageTlv (packet : Octets) (version : SnmpVersion) (name : Octets) (raw : RawPdu) : Prop :=
  ∃ versionEnc nameEnc pduEnc, Tlv asn1Sequence (versionEnc ++ (nameEnc ++ pduEnc)) packet ∧
    version ≠ .v3 ∧ IntTlv asn1Integer versionEnc (versionNumber version) ∧
    OctetsTlv asn1OctetString nameEnc name ∧ (RequestTlv pduEnc raw ∨ TrapTlv pduEnc raw)

section

variable {pos : Nat} {consumed rest : Octets}

theorem lengthFormat_strict : lengthFormat.Strict DefiniteLength := by simp [Format.Strict, lengthFormat]

theorem primitive_strict {α : Type} {tag : UInt8} {accepts : Octets → α → Prop} :
    (primitiveFormat tag accepts).Strict fun consumed value => ∃ content, Tlv tag content consumed ∧
      accepts content value := by
  intro _ _ _ _
  constructor
  · rintro ⟨lengthOctets, content, rfl, declared, accepted⟩
    exact ⟨content, ⟨lengthOctets, lengthFormat_strict.mp declared, rfl⟩, accepted⟩
  · rintro ⟨content, ⟨lengthOctets, declared, rfl⟩, accepted⟩
    exact ⟨lengthOctets, content, rfl, lengthFormat_strict.mpr declared, accepted⟩

theorem int_strict {tag : UInt8} : (intFormat tag).Strict (IntTlv tag) := primitive_strict

theorem octetString_strict {tag : UInt8} : (octetStringFormat tag).Strict (OctetsTlv tag) := primitive_strict

theorem oid_strict : oidFormat.Strict OidTlv := by
  intro _ _ _ _
  constructor
  · rintro ⟨lengthOctets, groups, len, _, _, rfl, declared, nonzero, matched, flags⟩
    simp only [Bool.false_eq, Bool.or_eq_false_iff, decide_eq_false_iff_not] at flags
    obtain ⟨rfl, _⟩ := flags
    obtain ⟨rfl, _⟩ := oidGroups_left matched
    obtain rfl : len = groups.length := by omega
    refine ⟨groups, ⟨lengthOctets, lengthFormat_strict.mp declared, rfl⟩, ?_, ?_⟩
    · intro empty
      exact nonzero (by simp [empty])
    · simpa using matched
  · rintro ⟨content, ⟨lengthOctets, declared, rfl⟩, nonempty, matched⟩
    refine ⟨lengthOctets, content, content.length, 0, false, rfl, lengthFormat_strict.mpr declared, ?_,
      matched, by simp⟩
    simpa using nonempty

theorem null_strict {tag : UInt8} : (nullFormat tag).Strict fun consumed _ => Tlv tag [] consumed := by
  intro _ _ _ _
  constructor
  · rintro ⟨lengthOctets, _, _, rfl, declared, flags⟩
    simp only [Bool.false_eq, Bool.or_eq_false_iff, decide_eq_false_iff_not, not_not] at flags
    obtain ⟨rfl, rfl⟩ := flags
    exact ⟨lengthOctets, lengthFormat_strict.mp declared, by simp⟩
  · rintro ⟨lengthOctets, declared, rfl⟩
    exact ⟨lengthOctets, 0, false, by simp, lengthFormat_strict.mpr declared, by simp⟩

theorem decTag_bind_moves {α : Type} {next : Unit → BerReader α} (tag symbol : UInt8) (rest : Octets)
    (pos : Nat) (forward : ∀ value, (next value).Forward) :
    pos < ((decTag tag >>= next) ⟨symbol :: rest, pos⟩).2.pos := by
  have stepped : (decTag tag >>= next) ⟨symbol :: rest, pos⟩ =
      (Reader.check (symbol == tag) >>= next) ⟨rest, pos + 1⟩ := by
    simp only [decTag, Reader.bind_apply, tnmBerDecByte, Reader.item]
  obtain ⟨_, _, moved⟩ := ((Reader.Forward.check (symbol == tag)).bind forward) ⟨rest, pos + 1⟩
  rw [stepped, moved]
  simp only
  omega

theorem decTag_bind_stuck {α : Type} {next : Unit → BerReader α} {tag : UInt8} {data : Octets}
    (forward : ∀ value, (next value).Forward)
    (failed : (decTag tag >>= next) ⟨data, pos⟩ = (none, ⟨data, pos⟩)) : data = [] := by
  cases data with
  | nil => rfl
  | cons symbol rest =>
    have moved := decTag_bind_moves tag symbol rest pos forward
    rw [failed] at moved
    simp at moved

theorem exception_strict {tag : UInt8} (head : (consumed ++ rest).head? = some tag) (value : Asn1Value) :
    exceptionFormat tag pos consumed rest value false ↔ value = .exception tag ∧ Tlv tag [] consumed := by
  rw [exceptionFormat, Format.bind_strict]
  constructor
  · rintro ⟨front, _, outcome, rfl, matched, rfl, rfl, _⟩
    rw [append_nil] at head ⊢
    refine ⟨rfl, ?_⟩
    cases outcome with
    | some => exact (@null_strict tag _ _ _ ()).mp matched
    | none =>
      obtain ⟨failed, still⟩ := matched
      have empty : front = [] := by simpa using still
      subst empty
      have atEnd : rest = [] := decTag_bind_stuck
        (fun _ => tnmBerDecLength_forward.bind fun _ => Reader.Forward.pure ()) failed
      simp [atEnd] at head
  · rintro ⟨rfl, matched⟩
    exact ⟨consumed, [], some (), by simp, (@null_strict tag _ _ _ ()).mpr matched, rfl, rfl, rfl⟩

theorem tlv_head {tag : UInt8} {content encoding : Octets} (tlv : Tlv tag content encoding) (rest : Octets) :
    (encoding ++ rest).head? = some tag := by
  obtain ⟨_, _, rfl⟩ := tlv
  rfl

theorem content_head {tag : UInt8} {accepts : Octets → Prop} {encoding : Octets} (rest : Octets)
    (tree : ∃ content, Tlv tag content encoding ∧ accepts content) : (encoding ++ rest).head? = some tag := by
  obtain ⟨_, tlv, _⟩ := tree
  exact tlv_head tlv rest

theorem ipAddress_strict {value : Asn1Value} : (do
      let octets ← octetStringFormat asn1IpAddress
      Format.check (octets.length == 4)
      pure (Asn1Value.ipAddress octets)) pos consumed rest value false ↔
      ∃ octets, (OctetsTlv asn1IpAddress consumed octets ∧ octets.length = 4) ∧ value = .ipAddress octets := by
  rw [octetString_strict.bind]
  constructor
  · rintro ⟨_, _, octets, rfl, tree, last⟩
    obtain ⟨four, rfl, rfl, _⟩ := Format.check_bind.mp last
    rw [append_nil]
    exact ⟨octets, ⟨tree, by simpa using four⟩, rfl⟩
  · rintro ⟨octets, ⟨tree, four⟩, rfl⟩
    exact ⟨consumed, [], octets, by simp, tree, Format.check_bind.mpr ⟨by simpa using four, rfl, rfl, rfl⟩⟩

theorem any_strict :
    anyFormat.Strict fun consumed octets => octets = consumed ∧ ∃ tag content, OctetsTlv tag consumed content := by
  exact and_congr_right fun _ => exists₂_congr fun _ _ => primitive_strict

theorem valueTlv_of_valueFormat {value : Asn1Value} (matched : valueFormat pos consumed rest value false) :
    ValueTlv consumed value := by
  obtain ⟨tag, head, matched⟩ := Format.peek_bind.mp matched
  split_ifs at matched with exceptional unsigned integer counter null identifier address opaqueTag octetTag
  · obtain ⟨rfl, tlv⟩ := (exception_strict head value).mp matched
    exact ⟨exceptional, tlv⟩
  · obtain ⟨_, tlv, rfl⟩ := int_strict.map.mp matched
    exact ⟨unsigned, tlv⟩
  · obtain ⟨_, tlv, rfl⟩ := int_strict.map.mp matched
    rw [integer] at tlv
    exact tlv
  · obtain ⟨_, tlv, rfl⟩ := primitive_strict.map.mp matched
    exact tlv
  · obtain ⟨_, tlv, rfl⟩ := null_strict.map.mp matched
    exact tlv
  · obtain ⟨_, tlv, rfl⟩ := oid_strict.map.mp matched
    exact tlv
  · obtain ⟨_, tlv, rfl⟩ := ipAddress_strict.mp matched
    exact tlv
  · obtain ⟨_, tlv, rfl⟩ := octetString_strict.map.mp matched
    rw [opaqueTag] at tlv
    exact tlv
  · obtain ⟨_, tlv, rfl⟩ := octetString_strict.map.mp matched
    rw [octetTag] at tlv
    exact tlv
  · obtain ⟨_, ⟨rfl, _, content, inner, tlv, accepted⟩, rfl⟩ := any_strict.map.mp matched
    rw [tlv_head tlv] at head
    cases head
    refine ⟨rfl, tag, content, ?_, inner, tlv, accepted⟩
    simp [knownTag, unsignedTag, exceptional, unsigned, integer, counter, null, identifier, address, opaqueTag,
      octetTag]

theorem valueFormat_of_valueTlv {value : Asn1Value} (tree : ValueTlv consumed value) :
    valueFormat pos consumed rest value false := by
  rw [valueFormat, Format.peek_bind]
  cases value with
  | integer number => exact ⟨asn1Integer, content_head rest tree, int_strict.map.mpr ⟨number, tree, rfl⟩⟩
  | unsigned tag number =>
    obtain ⟨unsigned, tree⟩ := tree
    refine ⟨tag, content_head rest tree, ?_⟩
    have ordinary : ¬ isException tag = true := by
      rcases unsigned with rfl | rfl | rfl <;> decide
    rw [unsignedTag] at unsigned
    rw [if_neg ordinary, if_pos unsigned]
    exact int_strict.map.mpr ⟨number, tree, rfl⟩
  | counter64 number => exact ⟨asn1Counter64, content_head rest tree, primitive_strict.map.mpr ⟨number, tree, rfl⟩⟩
  | ipAddress octets => exact ⟨asn1IpAddress, content_head rest tree.1, ipAddress_strict.mpr ⟨octets, tree, rfl⟩⟩
  | octetString octets =>
    exact ⟨asn1OctetString, content_head rest tree, octetString_strict.map.mpr ⟨octets, tree, rfl⟩⟩
  | opaqueData octets => exact ⟨asn1Opaque, content_head rest tree, octetString_strict.map.mpr ⟨octets, tree, rfl⟩⟩
  | any octets =>
    obtain ⟨rfl, tag, content, unknown, tree⟩ := tree
    refine ⟨tag, content_head rest tree, ?_⟩
    simp only [knownTag, not_or, unsignedTag] at unknown
    obtain ⟨ordinary, unsigned, integer, counter, null, identifier, address, opaqueTag, octetTag⟩ := unknown
    rw [if_neg ordinary, if_neg (by simpa using unsigned), if_neg integer, if_neg counter, if_neg null,
      if_neg identifier, if_neg address, if_neg opaqueTag, if_neg octetTag]
    exact any_strict.map.mpr ⟨octets, ⟨rfl, tag, content, tree⟩, rfl⟩
  | objectIdentifier oid => exact ⟨asn1ObjectIdentifier, content_head rest tree, oid_strict.map.mpr ⟨oid, tree, rfl⟩⟩
  | null => exact ⟨asn1Null, tlv_head tree rest, null_strict.map.mpr ⟨(), tree, rfl⟩⟩
  | exception tag =>
    have head := tlv_head tree.2 rest
    refine ⟨tag, head, ?_⟩
    rw [if_pos tree.1]
    exact (exception_strict head _).mpr ⟨rfl, tree.2⟩

theorem value_strict : valueFormat.Strict ValueTlv := ⟨valueTlv_of_valueFormat, valueFormat_of_valueTlv⟩

theorem seqStart_bind_strict {β : Type} {tag : UInt8} {next : Nat × Nat → BerFormat β} {result : β} :
    (seqStartFormat tag >>= next) pos consumed rest result false ↔
      ∃ lengthOctets back length, consumed = tag :: (lengthOctets ++ back) ∧ DefiniteLength lengthOctets length ∧
        next (pos + (lengthOctets.length + 1), length) (pos + (lengthOctets.length + 1)) back rest result false := by
  rw [Format.bind_strict]
  constructor
  · rintro ⟨_, back, ⟨_, length⟩, rfl, ⟨lengthOctets, rfl, declared, same⟩, matched⟩
    subst same
    exact ⟨lengthOctets, back, length, rfl, lengthFormat_strict.mp declared, matched⟩
  · rintro ⟨lengthOctets, back, _, rfl, declared, matched⟩
    exact ⟨tag :: lengthOctets, back, _, rfl, ⟨lengthOctets, rfl, lengthFormat_strict.mpr declared, rfl⟩, matched⟩

theorem seqEnd_bind {β : Type} {token length : Nat} {next : Unit → BerFormat β} {result : β} {deviates : Bool} :
    (seqEndFormat token length >>= next) pos consumed rest result deviates ↔
      pos = token + length ∧ next () pos consumed rest result deviates :=
  (Format.still_bind Iff.rfl).trans ⟨fun ⟨_, moved, matched⟩ => ⟨moved, matched⟩,
    fun ⟨moved, matched⟩ => ⟨(), moved, matched⟩⟩

theorem varBind_strict : varBindFormat.Strict VarBindTlv := by
  intro _ _ _ varBind
  simp only [varBindFormat, seqStart_bind_strict, oid_strict.bind, value_strict.bind, seqEnd_bind]
  constructor
  · rintro ⟨lengthOctets, _, length, rfl, declared, name, _, _, rfl, nameTree, value, _, _, rfl, valueTree, _, rfl,
      rfl, _⟩
    have filled : length = (name ++ value).length := by
      rw [length_append]
      omega
    subst filled
    rw [append_nil]
    exact ⟨name, value, ⟨lengthOctets, declared, rfl⟩, nameTree, valueTree⟩
  · rintro ⟨name, value, ⟨lengthOctets, declared, rfl⟩, nameTree, valueTree⟩
    refine ⟨lengthOctets, name ++ value, _, rfl, declared, name, value, varBind.soid, rfl, nameTree, value, [],
      varBind.value, by simp, valueTree, ?_, rfl, rfl, rfl⟩
    rw [length_append]
    omega

theorem each_strict (pos : Nat) (consumed : Octets) (varBinds : List TypedBind) :
    varBindFormat.each pos consumed varBinds false ↔
      ∃ elements : List Octets, consumed = elements.flatten ∧ List.Forall₂ VarBindTlv elements varBinds := by
  induction varBinds generalizing pos consumed with
  | nil =>
    constructor
    · rintro ⟨rfl, _⟩
      exact ⟨[], rfl, .nil⟩
    · rintro ⟨elements, rfl, matched⟩
      cases matched
      exact ⟨rfl, rfl⟩
  | cons _ _ ih =>
    constructor
    · rintro ⟨front, _, _, _, rfl, head, tail, flags⟩
      simp only [Bool.false_eq, Bool.or_eq_false_iff] at flags
      obtain ⟨rfl, rfl⟩ := flags
      obtain ⟨elements, rfl, matched⟩ := (ih _ _).mp tail
      exact ⟨front :: elements, rfl, .cons (varBind_strict.mp head) matched⟩
    · rintro ⟨_, rfl, matched⟩
      cases matched with
      | @cons element _ elements _ head tail =>
        exact ⟨element, elements.flatten, false, false, rfl, varBind_strict.mpr head,
          (ih _ _).mpr ⟨elements, rfl, tail⟩, rfl⟩

theorem varBindList_strict {lengthOctets back : Octets} {length pduSeqToken pduSeqLength : Nat}
    {varBinds : List TypedBind}
    (declared : DefiniteLength lengthOctets length) :
    varBindListFormat (pos + (lengthOctets.length + 1)) length pduSeqToken pduSeqLength
        (pos + (lengthOctets.length + 1)) back rest varBinds false ↔
      rest = [] ∧ length = back.length ∧ VarBindListTlv (asn1Sequence :: (lengthOctets ++ back)) varBinds ∧
        pos + (lengthOctets.length + 1) + back.length = pduSeqToken + pduSeqLength := by
  rw [varBindListFormat, Format.bind_strict]
  constructor
  · rintro ⟨_, _, _, rfl, ⟨atEnd, matched⟩, ends⟩
    obtain ⟨_, ends⟩ := seqEnd_bind.mp ends
    obtain ⟨outer, rfl, rfl, _⟩ := seqEnd_bind.mp ends
    obtain ⟨elements, rfl, trees⟩ := (each_strict _ _ _).mp matched
    have filled : length = elements.flatten.length := by omega
    subst filled
    rw [append_nil]
    exact ⟨atEnd, rfl, ⟨elements, ⟨lengthOctets, declared, rfl⟩, trees⟩, by omega⟩
  · rintro ⟨rfl, rfl, ⟨elements, ⟨lengthOctets', declared', split⟩, trees⟩, outer⟩
    have same : back = elements.flatten := by
      have parts : lengthOctets ++ back = lengthOctets' ++ elements.flatten := by simpa using split
      exact (tnmBerDecLength_reads.unique ((@lengthFormat_strict 0 lengthOctets back _).mpr declared)
        (lengthFormat_strict.mpr declared') parts).2.1
    refine ⟨back, [], varBinds, by simp, ⟨rfl, (each_strict _ _ _).mpr ⟨elements, same, trees⟩⟩, ?_⟩
    exact seqEnd_bind.mpr ⟨rfl, seqEnd_bind.mpr ⟨outer, rfl, rfl, rfl⟩⟩

theorem listTail_strict {β : Type} {pduSeqToken pduSeqLength : Nat} {result : List TypedBind → β} {found : β} :
    (seqStartFormat asn1Sequence >>= fun seq => do
        let varBinds ← varBindListFormat seq.1 seq.2 pduSeqToken pduSeqLength
        pure (result varBinds)) pos consumed rest found false ↔
      rest = [] ∧ pos + consumed.length = pduSeqToken + pduSeqLength ∧
        ∃ varBinds, VarBindListTlv consumed varBinds ∧ found = result varBinds := by
  rw [seqStart_bind_strict]
  constructor
  · rintro ⟨lengthOctets, _, _, rfl, declared, matched⟩
    obtain ⟨_, _, varBinds, rfl, listed, rfl, rfl, _⟩ := Format.bind_strict.mp matched
    obtain ⟨atEnd, rfl, tree, outer⟩ := (varBindList_strict declared).mp listed
    rw [append_nil]
    refine ⟨atEnd, ?_, varBinds, tree, rfl⟩
    simp only [length_cons, length_append]
    omega
  · rintro ⟨rfl, outer, varBinds, ⟨elements, ⟨lengthOctets, declared, rfl⟩, trees⟩, rfl⟩
    simp only [length_cons, length_append] at outer
    refine ⟨lengthOctets, elements.flatten, _, rfl, declared, Format.bind_strict.mpr
      ⟨elements.flatten, [], varBinds, by simp, (varBindList_strict declared).mpr ⟨rfl, rfl, ?_, by omega⟩, rfl, rfl,
        rfl⟩⟩
    exact ⟨elements, ⟨lengthOctets, declared, rfl⟩, trees⟩

theorem request_strict {type : PduType} {pduSeqToken pduSeqLength : Nat} {raw : RawPdu} :
    requestFormat type pduSeqToken pduSeqLength pos consumed rest raw false ↔
      rest = [] ∧ pos + consumed.length = pduSeqToken + pduSeqLength ∧
        ∃ requestId errorStatus errorIndex varBinds idEnc statusEnc indexEnc listEnc,
          consumed = idEnc ++ (statusEnc ++ (indexEnc ++ listEnc)) ∧ IntTlv asn1Integer idEnc requestId ∧
          IntTlv asn1Integer statusEnc errorStatus ∧ IntTlv asn1Integer indexEnc errorIndex ∧
          0 ≤ errorStatus ∧ errorStatus ≤ 18 ∧ VarBindListTlv listEnc varBinds ∧
          raw = ⟨{ type, requestId, errorStatus, errorIndex, trapOid := "", varBinds }, none⟩ := by
  simp only [requestFormat, int_strict.bind, Format.check_bind, listTail_strict, decide_eq_true_eq]
  constructor
  · rintro ⟨idEnc, _, requestId, rfl, idTree, statusEnc, _, errorStatus, rfl, statusTree, indexEnc, listEnc, errorIndex,
      rfl, indexTree, ⟨lower, upper⟩, atEnd, outer, varBinds, tree, rfl⟩
    refine ⟨atEnd, ?_, requestId, errorStatus, errorIndex, varBinds, idEnc, statusEnc, indexEnc, listEnc, rfl,
      idTree, statusTree, indexTree, lower, upper, tree, rfl⟩
    simp only [length_append]
    omega
  · rintro ⟨rfl, outer, requestId, errorStatus, errorIndex, varBinds, idEnc, statusEnc, indexEnc, listEnc, rfl,
      idTree, statusTree, indexTree, lower, upper, tree, rfl⟩
    simp only [length_append] at outer
    exact ⟨idEnc, _, requestId, rfl, idTree, statusEnc, _, errorStatus, rfl, statusTree, indexEnc, listEnc, errorIndex,
      rfl, indexTree, ⟨lower, upper⟩, rfl, by omega, varBinds, tree, rfl⟩

theorem trapTail_strict {pduSeqToken pduSeqLength : Nat} {enterprise : Oid} {generic specific upTime : Int}
    {raw : RawPdu} :
    (Format.attempt (tnmBerDecSequenceStart asn1Sequence) (seqStartFormat asn1Sequence) >>=
        trapTailFormat pduSeqToken pduSeqLength enterprise generic specific upTime) pos consumed rest raw false ↔
      rest = [] ∧ pos + consumed.length = pduSeqToken + pduSeqLength ∧
        TrapListTlv consumed enterprise generic specific upTime raw := by
  rw [Format.bind_strict]
  constructor
  · rintro ⟨front, back, outcome, rfl, matched, tail⟩
    cases outcome with
    | none =>
      obtain ⟨failed, still⟩ := matched
      obtain ⟨rfl, rfl, moved⟩ := tail
      obtain rfl : front = [] := by simpa using still
      have atEnd : rest = [] := decTag_bind_stuck
        (fun _ => tnmBerDecLength_forward.bind fun _ => Reader.Forward.position.bind fun _ =>
          Reader.Forward.pure _) failed
      exact ⟨atEnd, by simpa using moved, .inl ⟨rfl, rfl⟩⟩
    | some seq =>
      have whole : (seqStartFormat asn1Sequence >>= fun seq =>
          trapTailFormat pduSeqToken pduSeqLength enterprise generic specific upTime (some seq))
          pos (front ++ back) rest raw false := Format.bind_strict.mpr ⟨front, back, seq, rfl, matched, tail⟩
      obtain ⟨atEnd, outer, varBinds, tree, rfl⟩ := listTail_strict.mp whole
      exact ⟨atEnd, outer, .inr ⟨varBinds, tree, rfl⟩⟩
  · rintro ⟨rfl, outer, ⟨rfl, rfl⟩ | ⟨varBinds, tree, rfl⟩⟩
    · refine ⟨[], [], none, rfl, ⟨rfl, rfl⟩, rfl, rfl, ?_⟩
      simpa using outer
    · have whole : (seqStartFormat asn1Sequence >>= fun seq =>
          trapTailFormat pduSeqToken pduSeqLength enterprise generic specific upTime (some seq))
          pos consumed [] ⟨trapPdu enterprise generic specific upTime varBinds, some enterprise⟩ false :=
        listTail_strict.mpr ⟨rfl, outer, varBinds, tree, rfl⟩
      obtain ⟨front, back, seq, rfl, matched, tail⟩ := Format.bind_strict.mp whole
      exact ⟨front, back, some seq, rfl, matched, tail⟩

theorem trap_strict {pduSeqToken pduSeqLength : Nat} {raw : RawPdu} :
    trapFormat pduSeqToken pduSeqLength pos consumed rest raw false ↔
      rest = [] ∧ pos + consumed.length = pduSeqToken + pduSeqLength ∧
        ∃ enterprise address generic specific upTime oidEnc addressEnc genericEnc specificEnc timeEnc listEnc,
          consumed = oidEnc ++ (addressEnc ++ (genericEnc ++ (specificEnc ++ (timeEnc ++ listEnc)))) ∧
          OidTlv oidEnc enterprise ∧ OctetsTlv asn1IpAddress addressEnc address ∧ address.length = 4 ∧
          IntTlv asn1Integer genericEnc generic ∧ IntTlv asn1Integer specificEnc specific ∧
          IntTlv asn1TimeTicks timeEnc upTime ∧ TrapListTlv listEnc enterprise generic specific upTime raw := by
  simp only [trapFormat, oid_strict.bind, octetString_strict.bind, int_strict.bind, Format.check_bind, trapTail_strict,
    beq_iff_eq]
  constructor
  · rintro ⟨oidEnc, _, enterprise, rfl, oidTree, addressEnc, _, address, rfl, addressTree, genericEnc, _, generic, rfl,
      genericTree, specificEnc, _, specific, rfl, specificTree, four, timeEnc, listEnc, upTime, rfl, timeTree, atEnd,
      outer, tree⟩
    refine ⟨atEnd, ?_, enterprise, address, generic, specific, upTime, oidEnc, addressEnc, genericEnc, specificEnc,
      timeEnc, listEnc, rfl, oidTree, addressTree, four, genericTree, specificTree, timeTree, tree⟩
    simp only [length_append]
    omega
  · rintro ⟨rfl, outer, enterprise, address, generic, specific, upTime, oidEnc, addressEnc, genericEnc, specificEnc,
      timeEnc, listEnc, rfl, oidTree, addressTree, four, genericTree, specificTree, timeTree, tree⟩
    simp only [length_append] at outer
    exact ⟨oidEnc, _, enterprise, rfl, oidTree, addressEnc, _, address, rfl, addressTree, genericEnc, _, generic, rfl,
      genericTree, specificEnc, _, specific, rfl, specificTree, four, timeEnc, listEnc, upTime, rfl, timeTree, rfl,
      by omega, tree⟩

theorem ofTag_eq_some_iff (tag : UInt8) (type : PduType) : PduType.ofTag tag = some type ↔ type.tag = tag := by
  constructor
  · intro found
    simpa using find?_some found
  · rintro rfl
    cases type <;> decide

theorem pdu_strict {raw : RawPdu} :
    pduFormat pos consumed rest raw false ↔ rest = [] ∧ (RequestTlv consumed raw ∨ TrapTlv consumed raw) := by
  rw [pduFormat, Format.peek_bind]
  constructor
  · rintro ⟨tag, _, matched⟩
    obtain ⟨lengthOctets, _, length, rfl, declared, matched⟩ := seqStart_bind_strict.mp matched
    simp only [pduBodyFormat] at matched
    cases known : PduType.ofTag tag with
    | none =>
      rw [known] at matched
      exact matched.elim
    | some type =>
      obtain rfl := (ofTag_eq_some_iff tag type).mp known
      rw [known] at matched
      simp only at matched
      split at matched
      next isTrap =>
        obtain ⟨atEnd, outer, _, _, _, _, _, _, _, _, _, _, _, rfl, trees⟩ := trap_strict.mp matched
        obtain rfl : length = _ := (Nat.add_left_cancel outer).symm
        rw [isTrap]
        exact ⟨atEnd, .inr ⟨_, _, _, _, _, _, _, _, _, _, _, ⟨lengthOctets, declared, rfl⟩, trees⟩⟩
      next notTrap =>
        obtain ⟨atEnd, outer, _, _, _, _, _, _, _, _, rfl, trees⟩ := request_strict.mp matched
        obtain rfl : length = _ := (Nat.add_left_cancel outer).symm
        exact ⟨atEnd, .inl ⟨type, _, _, _, _, _, _, _, _, notTrap, ⟨lengthOctets, declared, rfl⟩, trees⟩⟩
  · rintro ⟨rfl, ⟨type, _, _, _, _, _, _, _, _, notTrap, ⟨lengthOctets, declared, rfl⟩, trees⟩ |
      ⟨_, _, _, _, _, _, _, _, _, _, _, ⟨lengthOctets, declared, rfl⟩, trees⟩⟩
    · refine ⟨type.tag, rfl, seqStart_bind_strict.mpr ⟨lengthOctets, _, _, rfl, declared, ?_⟩⟩
      simp only [pduBodyFormat, (ofTag_eq_some_iff type.tag type).mpr rfl]
      rw [if_neg notTrap]
      exact request_strict.mpr ⟨rfl, rfl, _, _, _, _, _, _, _, _, rfl, trees⟩
    · refine ⟨PduType.trap1.tag, rfl, seqStart_bind_strict.mpr ⟨lengthOctets, _, _, rfl, declared, ?_⟩⟩
      exact trap_strict.mpr ⟨rfl, rfl, _, _, _, _, _, _, _, _, _, _, _, rfl, trees⟩

variable {name : Octets} {raw : RawPdu}

theorem community_strict {version found : SnmpVersion} :
    communityFormat version pos consumed rest (.community found name raw) false ↔
      rest = [] ∧ found = version ∧ ∃ nameEnc pduEnc, consumed = nameEnc ++ pduEnc ∧
        OctetsTlv asn1OctetString nameEnc name ∧ (RequestTlv pduEnc raw ∨ TrapTlv pduEnc raw) := by
  rw [communityFormat, octetString_strict.bind]
  constructor
  · rintro ⟨nameEnc, _, _, rfl, nameTree, matched⟩
    obtain ⟨pduEnc, _, _, rfl, pduMatched, rfl, same, _⟩ := Format.bind_strict.mp matched
    cases same
    obtain ⟨atEnd, tree⟩ := pdu_strict.mp pduMatched
    exact ⟨atEnd, rfl, nameEnc, pduEnc, by simp, nameTree, tree⟩
  · rintro ⟨rfl, rfl, nameEnc, pduEnc, rfl, nameTree, tree⟩
    refine ⟨nameEnc, pduEnc, name, rfl, nameTree, ?_⟩
    exact Format.bind_strict.mpr ⟨pduEnc, [], raw, by simp, pdu_strict.mpr ⟨rfl, tree⟩, rfl, rfl, rfl⟩

theorem secure_not_community {version : SnmpVersion} {deviates : Bool} :
    ¬ secureFormat pos consumed rest (.community version name raw) deviates := by
  rintro ⟨_, _, _, _, _, _, _, ⟨_, _, _, _, _, _, _, ⟨_, _, _, _, _, _, _, ⟨_, _, _, _, _, _, _, ⟨_, same, _⟩, _⟩,
    _⟩, _⟩, _⟩
  cases same

theorem body_strict {number : Int} {version : SnmpVersion} :
    bodyFormat number pos consumed rest (.community version name raw) false ↔
      rest = [] ∧ version ≠ .v3 ∧ number = versionNumber version ∧
        ∃ nameEnc pduEnc, consumed = nameEnc ++ pduEnc ∧ OctetsTlv asn1OctetString nameEnc name ∧
          (RequestTlv pduEnc raw ∨ TrapTlv pduEnc raw) := by
  rw [bodyFormat]
  constructor
  · intro matched
    split_ifs at matched with first second third
    · obtain ⟨atEnd, rfl, tree⟩ := community_strict.mp matched
      exact ⟨atEnd, by decide, first, tree⟩
    · obtain ⟨atEnd, rfl, tree⟩ := community_strict.mp matched
      exact ⟨atEnd, by decide, second, tree⟩
    · exact absurd matched secure_not_community
    · exact matched.elim
  · rintro ⟨rfl, carried, rfl, tree⟩
    cases version with
    | v1 | v2c => exact community_strict.mpr ⟨rfl, rfl, tree⟩
    | v3 => exact absurd rfl carried

theorem message_strict {packet : Octets} {version : SnmpVersion} :
    messageFormat 0 packet [] (.community version name raw) false ↔ MessageTlv packet version name raw := by
  rw [messageFormat, seqStart_bind_strict]
  constructor
  · rintro ⟨lengthOctets, _, length, rfl, declared, matched⟩
    obtain ⟨versionEnc, _, _, rfl, versionTree, matched⟩ := int_strict.bind.mp matched
    obtain ⟨_, _, _, rfl, bodyMatched, matched⟩ := Format.bind_strict.mp matched
    obtain ⟨_, matched⟩ := seqEnd_bind.mp matched
    obtain ⟨_, rfl, rfl, _⟩ := Format.check_bind.mp (Format.atEnd_bind.mp matched)
    obtain ⟨_, carried, rfl, nameEnc, pduEnc, rfl, nameTree, tree⟩ := body_strict.mp bodyMatched
    have filled : length = (versionEnc ++ (nameEnc ++ pduEnc)).length := by
      rw [length_append]
      omega
    subst filled
    exact ⟨versionEnc, nameEnc, pduEnc, ⟨lengthOctets, declared, by simp⟩, carried, versionTree, nameTree, tree⟩
  · rintro ⟨versionEnc, nameEnc, pduEnc, ⟨lengthOctets, declared, rfl⟩, carried, versionTree, nameTree, tree⟩
    refine ⟨lengthOctets, _, _, rfl, declared, int_strict.bind.mpr
      ⟨versionEnc, nameEnc ++ pduEnc, _, rfl, versionTree, ?_⟩⟩
    refine Format.bind_strict.mpr ⟨nameEnc ++ pduEnc, [], .community version name raw, by simp, ?_, ?_⟩
    · exact body_strict.mpr ⟨rfl, carried, rfl, nameEnc, pduEnc, rfl, nameTree, tree⟩
    refine seqEnd_bind.mpr ⟨?_, Format.atEnd_bind.mpr (Format.check_bind.mpr ⟨rfl, rfl, rfl, rfl⟩)⟩
    simp only [length_append]
    omega

end

/-- Where the decoder does not read a packet with one of its deviations, it accepts trees only. -/
theorem decodeMessage_wellFormed_iff (packet : Octets) :
    (∀ version name raw, decodeMessage packet = some (.community version name raw) →
        MessageTlv packet version name raw) ↔
      ¬ ∃ version name raw, messageFormat 0 packet [] (.community version name raw) true := by
  constructor
  · rintro accepted ⟨version, name, raw, deviating⟩
    have found := (decodeMessage_iff packet _).mpr ⟨true, deviating⟩
    have strict := message_strict.mpr (accepted version name raw found)
    exact absurd (decodeMessageReader_reads.determined deviating strict) (by decide)
  · intro regular version name raw found
    obtain ⟨deviates, matched⟩ := (decodeMessage_iff packet _).mp found
    cases deviates with
    | false => exact message_strict.mp matched
    | true => exact absurd ⟨version, name, raw, matched⟩ regular

theorem definiteLength_zero_getLast {octets : Octets} (declared : DefiniteLength octets 0) :
    octets.getLast? = some 0 := by
  rcases declared with ⟨octet, rfl, _, zero⟩ | ⟨_, rest, rfl, nonempty, _, zero, _⟩
  · have octetZero : octet = 0 := UInt8.toNat_inj.mp zero.symm
    rw [octetZero]
    rfl
  · obtain ⟨_, last, rfl⟩ := (eq_nil_or_concat' rest).resolve_left nonempty
    have lastZero : last = 0 := by
      apply UInt8.toNat_inj.mp
      simp only [bigEndian, foldl_append, foldl_cons, foldl_nil] at zero
      change last.toNat = 0
      omega
    rw [lastZero, ← cons_append, getLast?_concat]

def hollowNullPacket : Octets :=
  [0x30, 0x21, 0x02, 0x01, 0x00, 0x04, 0x06, 0x70, 0x75, 0x62, 0x6c, 0x69, 0x63,
    0xa0, 0x14, 0x02, 0x01, 0x01, 0x02, 0x01, 0x00, 0x02, 0x01, 0x00,
    0x30, 0x09, 0x30, 0x07, 0x06, 0x03, 0x2b, 0x06, 0x01, 0x05, 0x05]

def hollowNullMessage : RawPdu :=
  ⟨{ type := .get, requestId := 1, errorStatus := 0, errorIndex := 0, trapOid := "",
     varBinds := [⟨[1, 3, 6, 1], .null⟩] }, none⟩

theorem hollowNull_accepted : decodeMessage hollowNullPacket =
        some (.community .v1 [0x70, 0x75, 0x62, 0x6c, 0x69, 0x63] hollowNullMessage) ∧
      ¬ MessageTlv hollowNullPacket .v1 [0x70, 0x75, 0x62, 0x6c, 0x69, 0x63] hollowNullMessage := by
  constructor
  · decide
  · rintro ⟨_, _, _, ⟨_, _, whole⟩, _, _, _, request | trap⟩
    · obtain ⟨_, _, _, _, _, _, _, _, _, _,
        ⟨_, _, rfl⟩, _, _, _, _, _, ⟨_, ⟨_, _, rfl⟩, trees⟩, same⟩ := request
      cases same
      cases trees with
      | cons head tail =>
        cases tail
        obtain ⟨_, _, ⟨_, _, rfl⟩, _, nullLength, declared, rfl⟩ := head
        have ending : List.getLast? hollowNullPacket = nullLength.getLast? := by
          have nonempty : nullLength ≠ [] := by
            rintro rfl
            exact absurd (definiteLength_zero_getLast declared) (by decide)
          rw [whole]
          simp [getLast?_cons, getLast?_eq_some_getLast nonempty]
        rw [definiteLength_zero_getLast declared] at ending
        exact absurd ending (by decide)
    · obtain ⟨_, _, _, _, _, _, _, _, _, _, _, _, _, _, _, _, _, _, ⟨_, same⟩ | ⟨_, _, same⟩⟩ := trap <;> cases same

end Tnm
