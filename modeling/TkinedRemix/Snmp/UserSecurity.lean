import TkinedRemix.Snmp.Authentication

/-!
Keys and digests of the user based security model, `tnmSnmpUsm.c`. MD5 and SHA are functions of the octets that
were passed to their contexts. Writing behind the end of a buffer has no result.
-/

namespace Tnm

open Lib Option
open List hiding Vector

inductive AuthAlgorithm where
  | md5
  | sha
deriving DecidableEq

def AuthAlgorithm.keyLength : AuthAlgorithm → Nat
  | .md5 => 16
  | .sha => 20

def AuthAlgorithm.bufferSize : AuthAlgorithm → Nat
  | .md5 => 64
  | .sha => 72

structure Digests where
  final : AuthAlgorithm → Octets → Octets
  length_final : ∀ algorithm octets, (final algorithm octets).length = algorithm.keyLength

def memcpy (buffer : Octets) (offset : Nat) (octets : Octets) : Option Octets :=
  if offset + octets.length ≤ buffer.length then
    some (buffer.take offset ++ octets ++ buffer.drop (offset + octets.length))
  else none

section

variable (digests : Digests) (algorithm : AuthAlgorithm)

/-- The loop of the password to key procedures, 64 octets in each round. -/
def expandPassword (password : Octets) : Nat → Nat → Option Octets
  | 0, _ => some []
  | rounds + 1, index => do
    let buffer ← (range 64).mapM fun i => password[(index + i) % password.length]?
    let rest ← expandPassword password rounds (index + 64)
    return buffer ++ rest

/-- The key behind the loop, 1048576 octets digested. -/
def intermediateKey (password : Octets) : Option Octets :=
  (expandPassword password 16384 0).map (digests.final algorithm)

/-- What the buffer holds before is never read. -/
def passWord2Key (password engine : Octets) : Option Octets := do
  let key ← intermediateKey digests algorithm password
  let buffer ← memcpy (replicate algorithm.bufferSize 0) 0 key
  let buffer ← memcpy buffer algorithm.keyLength engine
  let buffer ← memcpy buffer (algorithm.keyLength + engine.length) key
  return digests.final algorithm (buffer.take (algorithm.keyLength + engine.length + algorithm.keyLength))

def md5PassWord2Key : Octets → Octets → Option Octets := passWord2Key digests .md5

def shaPassWord2Key : Octets → Octets → Option Octets := passWord2Key digests .sha

/-- The arguments are the strings of the objects, and the result has 20 octets for MD5 too. -/
def tnmSnmpLocalizeKey (stack : Vector UInt8 20) (authKey engineID : Octets) : Octets :=
  let digest := digests.final algorithm (authKey ++ engineID ++ authKey)
  digest ++ stack.toList.drop digest.length

theorem expandPassword_isSome {password : Octets} (filled : password ≠ []) (rounds index : Nat) :
    ∃ octets, expandPassword password rounds index = some octets := by
  induction rounds generalizing index with
  | zero => exact ⟨[], rfl⟩
  | succ rounds ih =>
    obtain ⟨rest, later⟩ := ih (index + 64)
    have inside : ∀ i, password[(index + i) % password.length]? =
        some (password.getD ((index + i) % password.length) 0) := by
      intro i
      have := Nat.mod_lt (index + i) (length_pos_iff.mpr filled)
      simp [this]
    refine ⟨((range 64).map fun i => password.getD ((index + i) % password.length) 0) ++ rest, ?_⟩
    simp only [expandPassword, inside, later]
    exact congrArg (Option.bind · _) (mapM_pure ..)

theorem memcpy_append (front behind octets : Octets) : memcpy (front ++ behind) front.length octets =
    if octets.length ≤ behind.length then some (front ++ octets ++ behind.drop octets.length) else none := by
  simp [memcpy]

theorem passWord2Key_eq {password key : Octets} (isKey : intermediateKey digests algorithm password = some key)
    (engine : Octets) : passWord2Key digests algorithm password engine =
      if engine.length ≤ 32 then some (digests.final algorithm (key ++ engine ++ key)) else none := by
  have length : key.length = algorithm.keyLength := by
    obtain ⟨_, _, rfl⟩ := Option.map_eq_some_iff.mp isKey
    exact digests.length_final algorithm _
  have size : algorithm.bufferSize = algorithm.keyLength + (32 + algorithm.keyLength) := by
    cases algorithm <;> rfl
  have first := memcpy_append [] (replicate algorithm.bufferSize 0) key
  have second := memcpy_append key (replicate (32 + algorithm.keyLength) 0) engine
  have third := memcpy_append (key ++ engine) (replicate (32 + algorithm.keyLength - engine.length) 0) key
  simp only [nil_append, length_nil, length_replicate, drop_replicate, length_append, length, size,
    Nat.le_add_right, ↓reduceIte, Nat.add_sub_cancel_left] at first second third
  rw [passWord2Key, isKey, size, Option.bind_eq_bind, Option.bind_some, first, Option.bind_some,
    second]
  by_cases fits : engine.length ≤ 32
  · rw [if_pos (by omega), if_pos fits, Option.bind_some, third, if_pos (by omega)]
    exact congrArg (fun text => some (digests.final algorithm text)) (take_left' (by simp only [length_append, length]))
  · split
    · rw [Option.bind_some, third, if_neg (by omega)]
      rfl
    · rfl

theorem passWord2Key_isSome_iff (password engine : Octets) :
    (passWord2Key digests algorithm password engine).isSome = true ↔ password ≠ [] ∧ engine.length ≤ 32 := by
  rcases eq_or_ne password [] with rfl | filled
  · simp [passWord2Key, intermediateKey, show expandPassword [] 16384 0 = none from rfl]
  · obtain ⟨_, expanded⟩ := expandPassword_isSome filled 16384 0
    rw [passWord2Key_eq digests algorithm (by rw [intermediateKey, expanded]; rfl)]
    split <;> simp [*]

theorem tnmSnmpLocalizeKey_agrees_iff (stack : Vector UInt8 20) (password engine : Octets) :
    (∃ key, intermediateKey digests algorithm password = some key ∧
      passWord2Key digests algorithm password engine = some (tnmSnmpLocalizeKey digests algorithm stack key engine)) ↔
      password ≠ [] ∧ engine.length ≤ 32 ∧ algorithm = .sha := by
  constructor
  · rintro ⟨_, isKey, same⟩
    have both := (passWord2Key_isSome_iff digests algorithm password engine).mp (by simp [same])
    refine ⟨both.1, both.2, ?_⟩
    rw [passWord2Key_eq digests algorithm isKey, if_pos both.2] at same
    have lengths := congrArg length (Option.some.inj same)
    cases algorithm
    · simp [tnmSnmpLocalizeKey, digests.length_final, AuthAlgorithm.keyLength] at lengths
    · rfl
  · rintro ⟨filled, fits, rfl⟩
    obtain ⟨octets, expanded⟩ := expandPassword_isSome filled 16384 0
    have isKey : intermediateKey digests .sha password = some (digests.final .sha octets) := by
      rw [intermediateKey, expanded]
      rfl
    refine ⟨_, isKey, ?_⟩
    rw [passWord2Key_eq digests .sha isKey, if_pos fits]
    simp [tnmSnmpLocalizeKey, digests.length_final, AuthAlgorithm.keyLength]

/-- The octets of this digest are copies of octet 1. -/
def secondOctet : Digests where
  final algorithm octets := replicate algorithm.keyLength (octets.getD 1 0)
  length_final _ _ := length_replicate

/-- Both keys are computed for the engine, and the MD5 key of the localisation has four octets more. -/
theorem tnmSnmpLocalizeKey_tooLong : ∃ key, intermediateKey secondOctet .md5 [1] = some key ∧
    md5PassWord2Key secondOctet [1] (replicate 5 2) = some (replicate 16 (key.getD 1 0)) ∧
    tnmSnmpLocalizeKey secondOctet .md5 (.replicate 20 3) key (replicate 5 2) =
      replicate 16 (key.getD 1 0) ++ replicate 4 3 := by
  obtain ⟨octets, expanded⟩ := expandPassword_isSome (show ([1] : Octets) ≠ [] by decide) 16384 0
  have isKey : intermediateKey secondOctet .md5 [1] = some (replicate 16 (octets.getD 1 0)) := by
    rw [intermediateKey, expanded]
    rfl
  refine ⟨_, isKey, ?_, rfl⟩
  rw [md5PassWord2Key, passWord2Key_eq secondOctet .md5 isKey]
  rfl

/-- The octets behind the key stand as the stack has them, and the first loop leaves octet 0. -/
def md5AuthDigest (stack : Vector UInt8 64) (authKey : Vector UInt8 16) (msg : Octets) : Octets :=
  let extendedAuthKey := authKey.toList ++ stack.toList.drop 16
  let extendedAuthKey := extendedAuthKey.take 1 ++ (extendedAuthKey.drop 1).map (· ^^^ 0x36)
  let digest := digests.final .md5 (extendedAuthKey ++ msg)
  let extendedAuthKey := extendedAuthKey.map (· ^^^ 0x5c)
  digests.final .md5 (extendedAuthKey ++ digest)

def md5AuthOutMsg (stack : Vector UInt8 64) (authKey : Vector UInt8 16) (msg : Octets) (parameters : Nat) :
    Option Octets := do
  let msg ← memcpy msg parameters (replicate 12 0)
  memcpy msg parameters ((md5AuthDigest digests stack authKey msg).take 12)

/-- RFC 2104 -/
def hmacMd5 (key text : Octets) : Octets :=
  let key := key ++ replicate (64 - key.length) 0
  digests.final .md5 (key.map (· ^^^ 0x5c) ++ digests.final .md5 (key.map (· ^^^ 0x36) ++ text))

section

variable (stack : Vector UInt8 64) (authKey : Vector UInt8 16) (front rest : Octets) (field : Vector UInt8 12)

theorem md5AuthOutMsg_eq : md5AuthOutMsg digests stack authKey (front ++ field.toList ++ rest) front.length =
    some (front ++ (md5AuthDigest digests stack authKey (front ++ replicate 12 0 ++ rest)).take 12 ++ rest) := by
  have zeroed := memcpy_append front (field.toList ++ rest) (replicate 12 0)
  simp only [length_replicate, length_append, Vector.length_toList, Nat.le_add_right, ↓reduceIte,
    ← append_assoc] at zeroed
  rw [md5AuthOutMsg, zeroed, Option.bind_eq_bind, Option.bind_some, append_assoc front, memcpy_append]
  simp [md5AuthDigest, digests.length_final, AuthAlgorithm.keyLength]

/-- Octet 1 of the outer key carries both pads. -/
theorem md5AuthOutMsg_wrong :
    (∀ digests, ∃ digest : Vector UInt8 12,
      md5AuthOutMsg digests stack authKey (front ++ field.toList ++ rest) front.length =
        some (front ++ digest.toList ++ rest)) ∧
      ¬ ∀ digests, md5AuthOutMsg digests stack authKey (front ++ field.toList ++ rest) front.length =
        some (front ++ (hmacMd5 digests authKey.toList (front ++ replicate 12 0 ++ rest)).take 12 ++ rest) := by
  simp only [md5AuthOutMsg_eq]
  constructor
  · intro digests
    refine ⟨⟨⟨(md5AuthDigest digests stack authKey (front ++ replicate 12 0 ++ rest)).take 12⟩, ?_⟩, rfl⟩
    simp [md5AuthDigest, digests.length_final, AuthAlgorithm.keyLength]
  · intro same
    have octets := same secondOctet
    rcases key : authKey.toList with _ | ⟨_, _ | ⟨second, _⟩⟩
    · simpa using congrArg length key
    · simpa using congrArg length key
    · simp [hmacMd5, md5AuthDigest, secondOctet, key, AuthAlgorithm.keyLength] at octets

end

theorem md5AuthOutMsg_outerKey : md5AuthOutMsg secondOctet (.replicate 64 0) (.replicate 16 0) (replicate 12 7) 0 =
      some (replicate 12 0x6a) ∧
    hmacMd5 secondOctet (replicate 16 0) (replicate 12 0) = replicate 16 0x5c := by
  decide

variable {σ : Type} (scripts : Scripts σ) (env : TclMib) (packet : Octets) (caller : Option Nat) (entity : Entity σ)

/-- The engine id of a report is stored with any length. -/
theorem storedEngine_fits_iff :
    (∀ session password, ((tnmSnmpDecode scripts env packet caller entity).entity.session session).engineID ≠
          (entity.session session).engineID → password ≠ [] →
        (passWord2Key digests algorithm password
          ((tnmSnmpDecode scripts env packet caller entity).entity.session session).engineID).isSome = true) ↔
      ∀ header params scopedPdu pdu session, receive env packet = some (.usm header params scopedPdu, pdu) →
        pdu.type = .report → reportTarget pdu.requestId caller entity = some session →
        params.engineId ≠ (entity.session session).engineID → params.engineId.length ≤ 32 := by
  have stored : ∀ header params scopedPdu pdu session, receive env packet = some (.usm header params scopedPdu, pdu) →
      pdu.type = .report → reportTarget pdu.requestId caller entity = some session →
      ((tnmSnmpDecode scripts env packet caller entity).entity.session session).engineID = params.engineId := by
    intro header params scopedPdu pdu session received isReport target
    simp [tnmSnmpDecode, received, process, isReport, target, takeReport, takeEngine]
  constructor
  · intro safe header params scopedPdu pdu session received isReport target new
    have engine := stored header params scopedPdu pdu session received isReport target
    have written := safe session [0] (by rwa [engine]) (by decide)
    rw [engine, passWord2Key_isSome_iff] at written
    exact written.2
  · intro fits session _ new filled
    cases received : receive env packet with
    | none => exact absurd (by rw [tnmSnmpDecode, received]) new
    | some found =>
      obtain ⟨message, pdu⟩ := found
      have changed : (process scripts message pdu caller entity).entity.session session ≠ entity.session session := by
        intro same
        rw [tnmSnmpDecode, received] at new
        exact new (congrArg SnmpSession.engineID same)
      obtain ⟨header, params, scopedPdu, rfl, isReport, target, _⟩ := (process_inv ..).changes changed
      have engine := stored header params scopedPdu pdu session received isReport target
      rw [engine] at new ⊢
      rw [passWord2Key_isSome_iff]
      exact ⟨filled, fits header params scopedPdu pdu session received isReport target new⟩

end

def longReport : Octets :=
  [0x30, 0x59, 0x02, 0x01, 0x03,
    0x30, 0x0d, 0x02, 0x01, 0x01, 0x02, 0x02, 0x01, 0xe4, 0x04, 0x01, 0x00, 0x02, 0x01, 0x03,
    0x04, 0x32, 0x30, 0x30, 0x04, 0x21] ++ replicate 33 0x09 ++
    [0x02, 0x01, 0x05, 0x02, 0x01, 0x06, 0x04, 0x01, 0x75, 0x04, 0x00, 0x04, 0x00,
    0x30, 0x11, 0x04, 0x00, 0x04, 0x00, 0xa8, 0x0b, 0x02, 0x01, 0x07, 0x02, 0x01, 0x00, 0x02, 0x01, 0x00,
    0x30, 0x00]

theorem longReport_overflows :
    let outcome := tnmSnmpDecode (quietScripts Unit) bareTcl longReport none (waitingEntity userSession)
    (outcome.entity.session 0).engineID = replicate 33 0x09 ∧
      ∀ digests algorithm password,
        passWord2Key digests algorithm password (outcome.entity.session 0).engineID = none := by
  intro outcome
  have engine : (outcome.entity.session 0).engineID = replicate 33 0x09 := by decide
  refine ⟨engine, fun digests algorithm password => ?_⟩
  rw [← Option.not_isSome_iff_eq_none, passWord2Key_isSome_iff]
  exact fun written => absurd written.2 (by decide)

/-- The engine id is an object, which `TnmHexDec` makes an octet string of its string. -/
structure KeyRequest where
  algorithm : AuthAlgorithm
  password : Octets
  engineID : String

structure KeyCache extends KeyRequest where
  key : Octets

abbrev KeyTriple := AuthAlgorithm × Octets × Option Octets

def KeyRequest.triple (request : KeyRequest) : KeyTriple :=
  (request.algorithm, request.password, tnmHexDec request.engineID)

/-- The string of a cached engine id is compared with the octets of the new one. The last hit stands. -/
def findKey (keyList : List KeyCache) (request : KeyRequest) (engine : Octets) : Option Octets :=
  keyList.foldl (fun found elem =>
    if elem.algorithm = request.algorithm ∧ elem.password = request.password ∧
        elem.engineID.toUTF8.toList = engine then some elem.key
    else found) none

section

open List hiding Vector

variable (digests : Digests) (keyList : List KeyCache) (request : KeyRequest)

/-- What the search found is replaced by the key computed behind it. -/
def computeKey : Option (Option Octets × List KeyCache) :=
  match tnmHexDec request.engineID with
  | none => some (none, keyList)
  | some engine =>
    if engine.length = 0 ∨ request.password.length = 0 then some (none, keyList)
    else do
      let _ := findKey keyList request engine
      let key ← passWord2Key digests request.algorithm request.password engine
      return (some key, ⟨request, key⟩ :: keyList)

/-- Along the requests the cache has no more keys than there were triples, and a key that is cached is returned. -/
def Frugal (earlier : List KeyRequest) (cache : List KeyCache) : List KeyRequest → Prop
  | [] => True
  | request :: rest => ∃ key after, computeKey digests cache request = some (key, after) ∧
      after.length ≤ ((earlier ++ [request]).map KeyRequest.triple).dedup.length ∧
      (∀ elem ∈ cache, elem.triple = request.triple → key = some elem.key ∧ after = cache) ∧
      Frugal (earlier ++ [request]) after rest

/-- A key is computed for the triple. -/
def computes (triple : KeyTriple) : Bool := triple.2.1 != [] && triple.2.2.any (· != [])

def fitsBuffer (triple : KeyTriple) : Bool := triple.2.2.all (·.length ≤ 32)

def keyTriples (requests : List KeyRequest) : List KeyTriple := (requests.map KeyRequest.triple).filter computes

theorem computeKey_skip (skipped : computes request.triple = false) :
    computeKey digests keyList request = some (none, keyList) := by
  unfold computeKey
  cases octets : tnmHexDec request.engineID with
  | none => rfl
  | some engine =>
    simp only [KeyRequest.triple, computes, octets, Bool.and_eq_false_iff] at skipped
    exact if_pos (by simpa [or_comm] using skipped)

theorem computeKey_eq (computed : computes request.triple = true) :
    if fitsBuffer request.triple then ∃ key,
      computeKey digests keyList request = some (some key, ⟨request, key⟩ :: keyList)
    else computeKey digests keyList request = none := by
  unfold computeKey
  cases octets : tnmHexDec request.engineID with
  | none => simp [KeyRequest.triple, computes, octets] at computed
  | some engine =>
    simp only [KeyRequest.triple, computes] at computed
    have isSome := passWord2Key_isSome_iff digests request.algorithm request.password engine
    simp only [KeyRequest.triple, fitsBuffer]
    cases key : passWord2Key digests request.algorithm request.password engine with
    | none => simp_all
    | some key => simp_all

theorem keyTriples_length (requests : List KeyRequest) (nodup : (keyTriples requests).Nodup) :
    (keyTriples requests).length ≤ (requests.map KeyRequest.triple).dedup.length :=
  (subperm_of_subset nodup fun _ member => mem_dedup.mpr (mem_of_mem_filter member)).length_le

theorem frugal_iff {earlier rest : List KeyRequest} {cache : List KeyCache}
    (cached : cache.map (·.triple) = (keyTriples earlier).reverse) (nodup : (keyTriples earlier).Nodup) :
    Frugal digests earlier cache rest ↔
      (keyTriples (earlier ++ rest)).Nodup ∧ ∀ triple ∈ keyTriples rest, fitsBuffer triple = true := by
  induction rest generalizing earlier cache with
  | nil => simpa [Frugal, keyTriples] using nodup
  | cons request rest ih =>
    have hit : request.triple ∈ keyTriples earlier ↔ ∃ elem ∈ cache, elem.triple = request.triple := by
      rw [← mem_reverse, ← cached, List.mem_map]
    have size : cache.length = (keyTriples earlier).length := by simpa using congrArg length cached
    have length := keyTriples_length (earlier ++ [request])
    rw [append_cons earlier]
    cases isComputed : computes request.triple with
    | false =>
      have same : keyTriples (earlier ++ [request]) = keyTriples earlier := by simp [keyTriples, isComputed]
      have missed : ∀ elem ∈ cache, elem.triple = request.triple → none = some elem.key ∧ cache = cache := by
        intro elem member old
        have computed := (mem_filter.mp (hit.mpr ⟨elem, member, old⟩)).2
        rw [isComputed] at computed
        cases computed
      have later := ih (cached.trans (by rw [same])) (same.symm ▸ nodup)
      rw [same, ← size] at length
      simp only [Frugal, computeKey_skip digests cache request isComputed, some.injEq, Prod.mk.injEq]
      constructor
      · rintro ⟨_, _, ⟨rfl, rfl⟩, _, _, frugal⟩
        simpa [keyTriples, isComputed] using later.mp frugal
      · intro condition
        refine ⟨none, cache, ⟨rfl, rfl⟩, length nodup, missed, later.mpr ?_⟩
        simpa [keyTriples, isComputed] using condition
    | true =>
      have same : keyTriples (earlier ++ [request]) = keyTriples earlier ++ [request.triple] := by
        simp [keyTriples, isComputed]
      have fit : (∀ triple ∈ keyTriples (request :: rest), fitsBuffer triple = true) ↔
          fitsBuffer request.triple = true ∧ ∀ triple ∈ keyTriples rest, fitsBuffer triple = true := by
        simp [keyTriples, isComputed]
      have found := computeKey_eq digests cache request isComputed
      rw [fit]
      split at found
      next fits =>
        obtain ⟨key, found⟩ := found
        have later := @ih (earlier ++ [request]) (⟨request, key⟩ :: cache) (by simp [same, cached])
        constructor
        · rintro ⟨_, _, result, _, returned, frugal⟩
          cases found.symm.trans result
          have new : request.triple ∉ keyTriples earlier := by
            intro old
            obtain ⟨elem, member, equal⟩ := hit.mp old
            exact absurd (returned elem member equal).2 (by simp)
          have both := (later (same ▸ concat_eq_append ▸ nodup.concat new)).mp frugal
          exact ⟨both.1, fits, both.2⟩
        · rintro ⟨distinct, _, fitting⟩
          have upTo : (keyTriples (earlier ++ [request])).Nodup := by
            rw [keyTriples, map_append, filter_append] at distinct
            exact distinct.of_append_left
          refine ⟨some key, _, found, ?_, ?_, (later upTo).mpr ⟨distinct, fitting⟩⟩
          · simpa [same, size] using length upTo
          · intro elem member equal
            rw [same] at upTo
            exact absurd (by simp) (disjoint_of_nodup_append upTo (hit.mpr ⟨elem, member, equal⟩))
      next tooLong =>
        constructor
        · rintro ⟨_, _, result, _⟩
          cases found.symm.trans result
        · exact fun condition => absurd condition.2.1 tooLong

theorem keyCache_frugal_iff (requests : List KeyRequest) : Frugal digests [] [] requests ↔
    (keyTriples requests).Nodup ∧ ∀ triple ∈ keyTriples requests, fitsBuffer triple = true :=
  frugal_iff digests rfl nodup_nil

end

/-- The second of two equal requests makes a second entry. -/
theorem computeKey_twice : let request : KeyRequest := ⟨.md5, [1], "02"⟩
    ∃ first second, computeKey secondOctet [] request = some (some first, [⟨request, first⟩]) ∧
      computeKey secondOctet [⟨request, first⟩] request =
        some (some second, [⟨request, second⟩, ⟨request, first⟩]) := by
  intro request
  have fits : fitsBuffer request.triple = true := by decide
  have found := computeKey_eq secondOctet [] request (by decide)
  rw [if_pos fits] at found
  obtain ⟨first, found⟩ := found
  have again := computeKey_eq secondOctet [⟨request, first⟩] request (by decide)
  rw [if_pos fits] at again
  obtain ⟨second, again⟩ := again
  exact ⟨first, second, found, again⟩

end Tnm
