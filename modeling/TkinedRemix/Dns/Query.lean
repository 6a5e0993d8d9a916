import TkinedRemix.Snmp.BerCore

/-!
The answers of the name service, as `DnsDoQuery` of `tnmDns.c` reads them. The resolver is a parameter, and a
pointer into the answer is an offset.
-/

namespace Tnm.Dns

def tA : Nat := 1
def tNs : Nat := 2
def tCname : Nat := 5
def tSoa : Nat := 6
def tPtr : Nat := 12
def tHinfo : Nat := 13
def tMx : Nat := 15
def tTxt : Nat := 16

def maxResult : Nat := 30

/-- `dn_expand` gives the number of octets a name takes and the name; `dn_skipname` the former. -/
structure Resolver where
  dnExpand : Octets → Nat → Option (Nat × List Char)
  dnSkipname : Octets → Nat → Option Nat

structure Resolver.Agrees (resolver : Resolver) : Prop where
  skips : ∀ answer ptr len name, resolver.dnExpand answer ptr = some (len, name) →
    resolver.dnSkipname answer ptr = some len

inductive Entry where
  | addr (address : Nat)
  | str (text : List Char)
deriving DecidableEq

/-- A text is stored in 256 chars with its terminating zero. -/
def Entry.fits : Entry → Bool
  | .addr _ => true
  | .str text => text.length < 256

/-- `a_res`; the type is -1 as long as nothing is stored. -/
structure Reply where
  type : Option Nat
  entries : List Entry
deriving DecidableEq

inductive Failure where
  | message (text : String)
  | overflow
deriving DecidableEq

def octet (answer : Octets) (ptr : Nat) : Nat := (answer.getD ptr 0).toNat
def getShort (answer : Octets) (ptr : Nat) : Nat := octet answer ptr * 256 + octet answer (ptr + 1)
def getLong (answer : Octets) (ptr : Nat) : Nat := getShort answer ptr * 65536 + getShort answer (ptr + 2)

/-- The C string that strncpy leaves of `len` octets. -/
def cString (answer : Octets) (ptr len : Nat) : List Char :=
  ((List.range len).map fun i => Char.ofNat (octet answer (ptr + i))).takeWhile (· != '\x00')

/-- `rdlen` is a short, so a length from 0x8000 on leads backwards. -/
def skip (ptr rdlen : Nat) : Except Failure Nat :=
  if rdlen < 0x8000 then .ok (ptr + rdlen)
  else if 0x10000 - rdlen ≤ ptr then .ok (ptr + rdlen - 0x10000)
  else .error .overflow

def Reply.wants (reply : Reply) (type : Nat) : Bool := reply.type == some type || reply.type == none

def Reply.store (reply : Reply) (type : Nat) (entry : Entry) : Except Failure Reply :=
  if reply.entries.length < maxResult && entry.fits then .ok ⟨some type, reply.entries ++ [entry]⟩
  else .error .overflow

def Reply.offer (reply : Reply) (type : Nat) (entry : Entry) : Except Failure Reply :=
  if reply.wants type then reply.store type entry else .ok reply

section

variable (resolver : Resolver) (answer : Octets) (queryString : List Char) (queryType : Nat)

def expand (ptr : Nat) (message : String) : Except Failure (Nat × List Char) :=
  match resolver.dnExpand answer ptr with
  | some found => .ok found
  | none => .error (.message message)

def readName (type ptr : Nat) (message : String) (reply : Reply) : Except Failure (Nat × Reply) := do
  let (len, buf) ← expand resolver answer ptr message
  let reply ← reply.offer type (.str buf)
  return (ptr + len, reply)

def readTxt (ptr : Nat) (reply : Reply) : Except Failure (Nat × Reply) := do
  let len := octet answer ptr
  let reply ← reply.offer tTxt (.str (cString answer (ptr + 1) len))
  return (ptr + 1 + len, reply)

def readA (owner : List Char) (ptr : Nat) (reply : Reply) : Except Failure (Nat × Reply) := do
  let address := Entry.addr (getLong answer ptr)
  let reply ← if queryString = owner then reply.store tA address else reply.offer tA address
  return (ptr + 4, reply)

def readSoa (ptr : Nat) (reply : Reply) : Except Failure (Nat × Reply) := do
  let (len, authBuf) ← expand resolver answer ptr "dn_expand() of T_SOA MNAME failed"
  let ptr := ptr + len
  let (len, _) ← expand resolver answer ptr "dn_expand() of T_SOA RNAME failed"
  let reply ← reply.offer tSoa (.str authBuf)
  return (ptr + len + 5 * 4, reply)

-- the pointer stays where it is when the record is not wanted
def readHinfo (ptr : Nat) (reply : Reply) : Except Failure (Nat × Reply) :=
  if reply.wants tHinfo then do
    let len := octet answer ptr
    let reply ← reply.store tHinfo (.str (cString answer (ptr + 1) len))
    let ptr := ptr + 1 + len
    let len := octet answer ptr
    let reply ← reply.store tHinfo (.str (cString answer (ptr + 1) len))
    return (ptr + 1 + len, reply)
  else .ok (ptr, reply)

def mxText (name : List Char) (prio : Nat) : List Char := name ++ ' ' :: Nat.toDigits 10 prio

def readMx (ptr : Nat) (reply : Reply) : Except Failure (Nat × Reply) := do
  let prio := getShort answer ptr
  let ptr := ptr + 2
  let (len, buf) ← expand resolver answer ptr "dn_expand() of T_MX failed"
  let reply ← reply.offer tMx (.str (mxText buf prio))
  return (ptr + len, reply)

def readRdata (owner : List Char) (type rdlen ptr : Nat) (reply : Reply) : Except Failure (Nat × Reply) :=
  if type = tNs then readName resolver answer tNs ptr "dn_expand() of T_NS RDATA failed" reply
  else if queryType = tCname ∧ type = tCname then
    readName resolver answer tCname ptr "dn_expand() of T_CNAME RDATA failed" reply
  else if type = tTxt then readTxt answer ptr reply
  else if type = tA then readA answer queryString owner ptr reply
  else if type = tSoa then readSoa resolver answer ptr reply
  else if type = tHinfo then readHinfo answer ptr reply
  else if type = tPtr then readName resolver answer tPtr ptr "dn_expand() of T_PTR failed" reply
  else if type = tMx then readMx resolver answer ptr reply
  else do
    let ptr ← skip ptr rdlen
    return (ptr, reply)

def readRecords : Nat → Nat → Reply → Except Failure (List Nat × Reply)
  | 0, _, reply => .ok ([], reply)
  | nscount + 1, ptr, reply => do
      let (llen, lbuf) ← expand resolver answer ptr "dn_expand() of NAME failed"
      let ptr := ptr + llen
      let type := getShort answer ptr
      let rdlen := getShort answer (ptr + 8)
      let (ptr, reply) ← readRdata resolver answer queryString queryType lbuf type rdlen (ptr + 10) reply
      let (ptrs, reply) ← readRecords nscount ptr reply
      return (ptr :: ptrs, reply)

def rcode : Nat := octet answer 3 % 16
def qdcount : Nat := getShort answer 4
def ancount : Nat := getShort answer 6
def nscount : Nat := getShort answer 8
def arcount : Nat := getShort answer 10

def rcodeText (rcode : Nat) : String :=
  if rcode = 1 then "format error"
  else if rcode = 2 then "server failure"
  else if rcode = 3 then "non existent domain"
  else if rcode = 4 then "not implemented"
  else if rcode = 5 then "query refused"
  else "unknown error " ++ toString rcode

/-- The questions that are not passed on to the authority section. -/
def missingText : Option String :=
  if queryType = tCname then some "no CNAME record"
  else if queryType = tHinfo then some "no HINFO record"
  else if queryType = tTxt then some "no TXT record"
  else none

/-- How many records are read: those of the first section that has any. -/
def recordCount : Nat :=
  if ancount answer ≠ 0 then ancount answer else if nscount answer ≠ 0 then nscount answer else arcount answer

def firstRecord : Nat :=
  if 0 < qdcount answer then
    match resolver.dnSkipname answer 12 with
    | some len => 12 + len + 4
    | none => 12 - 1 + 4
  else 12

def dnsDoQuery : Except Failure (List Nat × Reply) :=
  if rcode answer ≠ 0 then .error (.message (rcodeText (rcode answer)))
  else
    match ancount answer, missingText queryType with
    | 0, some text => .error (.message text)
    | _, _ => readRecords resolver answer queryString queryType (recordCount answer) (firstRecord resolver answer)
        ⟨none, []⟩

end

end Tnm.Dns
