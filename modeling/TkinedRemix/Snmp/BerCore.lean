import TkinedRemix.Lib.Format
import TkinedRemix.Snmp.InstCore

/-!
The ASN.1/BER encoder and decoder of `tnmAsn1.c`. A stream that is encoded is the list of the octets written so
far, in a buffer of `size` octets; `none` is the NULL stream.
-/

namespace Tnm

open Lib

abbrev Octets := List UInt8

abbrev BerReader := Reader UInt8

def asn1Integer : UInt8 := 0x02
def asn1OctetString : UInt8 := 0x04
def asn1Null : UInt8 := 0x05
def asn1ObjectIdentifier : UInt8 := 0x06
def asn1Sequence : UInt8 := 0x30
def asn1IpAddress : UInt8 := 0x40
def asn1Counter32 : UInt8 := 0x41
def asn1Gauge32 : UInt8 := 0x42
def asn1TimeTicks : UInt8 := 0x43
def asn1Opaque : UInt8 := 0x44
def asn1Counter64 : UInt8 := 0x46
def asn1NoSuchObject : UInt8 := 0x80
def asn1NoSuchInstance : UInt8 := 0x81
def asn1EndOfMibView : UInt8 := 0x82

def tnmOidMaxSize : Nat := 128
def tnmSnmpMaxSize : Nat := 16384

def tnmBerEncByte (size : Nat) (byte : UInt8) (out : Octets) : Option Octets :=
  if size ≤ out.length then none else some (out ++ [byte])

def tnmBerEncBytes (size : Nat) : Octets → Octets → Option Octets
  | [], out => some out
  | byte :: bytes, out => do
      let out ← tnmBerEncByte size byte out
      tnmBerEncBytes size bytes out

def lengthOctetCount : Nat → Nat → Nat
  | 0, _ => 0
  | fuel + 1, length => if length = 0 then 0 else lengthOctetCount fuel (length / 256) + 1

def longLengthOctets : Nat → Nat → Octets
  | 0, _ => []
  | count + 1, length =>
    UInt8.ofNat (if count + 1 > 2 then 0 else length / 256 ^ count % 256) :: longLengthOctets count length

/-- Patches the length into the octet at `position`; a long form moves what follows it. -/
def tnmBerEncLength (size position length : Nat) (out : Octets) : Option Octets :=
  if length < 0x80 then some (out.set position (UInt8.ofNat length))
  else
    let count := lengthOctetCount 4 length
    if size ≤ out.length + count then none
    else some (out.take position ++ UInt8.ofNat (0x80 + count) :: longLengthOctets count length ++
      out.drop (position + 1))

def tnmBerEncSequenceStart (size : Nat) (tag : UInt8) (out : Octets) : Option (Octets × Nat) := do
  let out ← tnmBerEncByte size tag out
  let token := out.length
  let out ← tnmBerEncByte size 0 out
  return (out, token)

def tnmBerEncSequenceEnd (size token : Nat) (out : Octets) : Option Octets :=
  tnmBerEncLength size token (out.length - (token + 1)) out

/-- Drops leading octets as long as the leftmost nine of the 32 bits are all 0 or all 1. -/
def trimInt : Nat → Nat → Nat × Nat
  | 0, bits => (0, bits)
  | 1, bits => (1, bits)
  | intsize + 2, bits =>
    if bits < 2 ^ 23 ∨ 2 ^ 32 - 2 ^ 23 ≤ bits then trimInt (intsize + 1) (bits * 256 % 2 ^ 32)
    else (intsize + 2, bits)

def leadingOctets : Nat → Nat → Octets
  | 0, _ => []
  | intsize + 1, bits => UInt8.ofNat (bits / 2 ^ 24) :: leadingOctets intsize (bits * 256 % 2 ^ 32)

def intOctets (value : Int) : Octets :=
  let (intsize, bits) := trimInt 4 (value % 2 ^ 32).toNat
  leadingOctets intsize bits

def tnmBerEncInt (size : Nat) (tag : UInt8) (value : Int) (out : Octets) : Option Octets := do
  let out ← tnmBerEncByte size tag out
  let length := out.length
  let out ← tnmBerEncByte size 0 out
  let out ← tnmBerEncBytes size (intOctets value) out
  tnmBerEncLength size length (intOctets value).length out

/-- The position of the highest bit that is set in a sub-identifier of `bits` bits. -/
def significantBits : Nat → Nat → Nat
  | 0, _ => 0
  | bits + 1, subid => if subid.testBit bits then bits + 1 else significantBits bits subid

def subidGroups : Nat → Nat → Octets
  | 0, _ => []
  | 1, subid => [UInt8.ofNat (subid % 128)]
  | groups + 2, subid =>
    UInt8.ofNat (subid / 128 ^ (groups + 1) % 128 + 128) :: subidGroups (groups + 1) subid

def subidOctets (subid : Nat) : Octets :=
  if subid ≤ 0x7f then [UInt8.ofNat subid]
  else subidGroups ((significantBits 32 subid + 6) / 7) subid

def oidOctets : Oid → Octets
  | first :: second :: rest =>
    subidOctets ((second + first * 40) % 2 ^ 32) ++ (rest.map subidOctets).flatten
  | _ => []

def tnmBerEncOID (size : Nat) (oid : Oid) (out : Octets) : Option Octets := do
  if oid.length < 2 ∨ oid.headD 0 > 2 then none
  else
    let out ← tnmBerEncByte size asn1ObjectIdentifier out
    let length := out.length
    let out ← tnmBerEncByte size 0 out
    let out ← tnmBerEncBytes size (oidOctets oid) out
    tnmBerEncLength size length (oidOctets oid).length out

def tnmBerEncOctetString (size : Nat) (tag : UInt8) (octets : Octets) (out : Octets) : Option Octets := do
  let out ← tnmBerEncByte size tag out
  let length := out.length
  let out ← tnmBerEncByte size 0 out
  let out ← tnmBerEncBytes size octets out
  tnmBerEncLength size length octets.length out

def tnmBerEncNull (size : Nat) (tag : UInt8) (out : Octets) : Option Octets := do
  let out ← tnmBerEncByte size tag out
  tnmBerEncByte size 0 out

def tnmBerDecByte : BerReader UInt8 := Reader.item

def tnmBerDecPeek : BerReader UInt8 := Reader.peek

def decTag (tag : UInt8) : BerReader Unit := do
  let byte ← tnmBerDecByte
  Reader.check (byte == tag)

def decLengthLoop : Nat → Nat → BerReader Nat
  | 0, length => pure length
  | left + 1, length => do
      let byte ← tnmBerDecByte
      Reader.check (!(decide (left + 1 > 4) && byte != 0))
      decLengthLoop left ((length * 256 + byte.toNat) % 2 ^ 32)

def tnmBerDecLength : BerReader Nat := do
  let byte ← tnmBerDecByte
  if byte.toNat < 0x80 then pure byte.toNat
  else
    let length ← decLengthLoop (byte.toNat - 0x80) 0
    Reader.check (decide (length < 2 ^ 31))
    pure length

def tnmBerDecSequenceStart (tag : UInt8) : BerReader (Nat × Nat) := do
  decTag tag
  let length ← tnmBerDecLength
  let token ← Reader.position
  pure (token, length)

def tnmBerDecSequenceEnd (token length : Nat) : BerReader Unit := do
  let current ← Reader.position
  Reader.check (current == token + length)

def toInt32 (value : Int) : Int := Int.bmod value (2 ^ 32)

def decIntLoop : Nat → Int → BerReader Int
  | 0, value => pure value
  | len + 1, value => do
      let byte ← tnmBerDecByte
      decIntLoop len (toInt32 (value * 256 + byte.toNat))

/-- A value can only be negative under the tag INTEGER, so the final test never fails. -/
def tnmBerDecInt (tag : UInt8) : BerReader Int := do
  decTag tag
  let len ← tnmBerDecLength
  if len = 0 then pure 0
  else
    let byte ← tnmBerDecPeek
    Reader.check (!((byte != 0 && decide (len > 4)) || (byte == 0 && decide (len - 1 > 4))))
    decIntLoop len (if tag == asn1Integer && decide (byte.toNat ≥ 0x80) then -1 else 0)

def decUnsigned64Loop : Nat → Nat → BerReader Nat
  | 0, value => pure value
  | len + 1, value => do
      let byte ← tnmBerDecByte
      decUnsigned64Loop len ((value * 256 + byte.toNat) % 2 ^ 64)

def tnmBerDecUnsigned64 : BerReader Nat := do
  decTag asn1Counter64
  let len ← tnmBerDecLength
  Reader.check (decide (len ≤ 9))
  decUnsigned64Loop len 0

/-- Octets above 0x7f continue a sub-identifier, whatever length was declared. -/
def decSubidFrom (subid used : Nat) : Octets → Nat → Option (Nat × Nat) × Cursor UInt8
  | [], pos => (none, ⟨[], pos⟩)
  | byte :: rest, pos =>
    if byte.toNat > 0x7f then
      decSubidFrom ((subid * 128 + byte.toNat % 128) % 2 ^ 32) (used + 1) rest (pos + 1)
    else (some ((subid * 128 + byte.toNat) % 2 ^ 32, used + 1), ⟨rest, pos + 1⟩)

def decSubid : BerReader (Nat × Nat) := fun cursor => decSubidFrom 0 0 cursor.data cursor.pos

def splitFirst (subid : Nat) : Oid :=
  let first := min (subid / 40) 2
  [first, subid - first * 40]

def decOidLoop : Nat → Int → Oid → BerReader (Oid × Int)
  | 0, len, oid => pure (oid, len)
  | fuel + 1, len, oid =>
    if len ≤ 0 then pure (oid, len)
    else do
      let (subid, used) ← decSubid
      let oid := if oid.isEmpty then splitFirst subid else oid ++ [subid]
      Reader.check (decide (oid.length ≤ tnmOidMaxSize))
      decOidLoop fuel (len - used) oid

def tnmBerDecOID : BerReader Oid := do
  decTag asn1ObjectIdentifier
  let len ← tnmBerDecLength
  Reader.check (decide (len ≠ 0))
  let (oid, _) ← decOidLoop len len []
  pure oid

def tnmBerDecOctetString (tag : UInt8) : BerReader Octets := do
  decTag tag
  let len ← tnmBerDecLength
  Reader.check (decide (len ≤ 65535))
  Reader.take len

/-- The declared length is read and not looked at. -/
def tnmBerDecNull (tag : UInt8) : BerReader Unit := do
  decTag tag
  let _ ← tnmBerDecLength
  pure ()

def tnmBerDecAny : BerReader Octets :=
  Reader.consumed do
    let _ ← tnmBerDecByte
    let len ← tnmBerDecLength
    Reader.check (decide (len ≤ 65535))
    Reader.take len

end Tnm
