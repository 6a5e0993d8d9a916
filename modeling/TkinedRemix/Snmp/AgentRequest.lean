import TkinedRemix.Lib.Machine
import TkinedRemix.Snmp.AgentCore

/-!
`TnmSnmpAgentRequest` and its cache of replies (`tnmSnmpAgent.c`). Further requests can arrive while one is
processed: requests form a stack of frames, and the stages of a request are steps of a machine. A session stays
open while one of its requests is processed; where one was closed, another can be opened at its address.
-/

namespace Tnm

open Lib Function

def cacheSize : Nat := 64

/-- The sessions that are ever opened, numbered; the cache knows them by their address. -/
structure Sessions where
  version : Nat → SnmpVersion
  address : Nat → Nat

structure CacheElement where
  session : Option Nat
  request : List VarBind
  requestId : Int
  response : Response
  timestamp : Nat
deriving Repr, DecidableEq

abbrev Cache := Nat → CacheElement

def cacheInit : Cache := fun _ => ⟨none, [], 0, emptyResponse, 0⟩

section

variable (sessions : Sessions)

def isSession (session : Nat) (element : CacheElement) : Bool :=
  element.session.map sessions.address == some (sessions.address session)

def matchesEntry (session : Nat) (pdu : Pdu VarBind) (now : Nat) (element : CacheElement) : Bool :=
  element.requestId == pdu.requestId && isSession sessions session element &&
    !(element.timestamp == 0 || decide (now - element.timestamp > 5)) && element.request == pdu.varBinds

/-- `CacheHit`. The type of the request is not compared. -/
def cacheHit (session : Nat) (pdu : Pdu VarBind) (now : Nat) (cache : Cache) : Option Nat :=
  if pdu.requestId = 0 then none
  else (List.range cacheSize).find? fun slot => matchesEntry sessions session pdu now (cache slot)

def cacheClear (session : Nat) (cache : Cache) : Cache := fun slot =>
  if isSession sessions session (cache slot) then { cache slot with timestamp := 0 } else cache slot

end

def reserved (session : Nat) (pdu : Pdu VarBind) (now : Nat) : CacheElement :=
  ⟨some session, pdu.varBinds, 0, emptyResponse, now⟩

def nextSlot (last : Nat) : Nat := (last + 1) % cacheSize

/-- The error status that `TnmSnmpEncode` stores in the PDU of an SNMPv1 session. -/
def v1ErrorStatus (status : Int) : Int :=
  if status ≤ genErr then status
  else if status ∈ [6, 11, 16, 17, 18] then noSuchName
  else if status ∈ [7, 8, 9, 10, 12] then badValue
  else genErr

def encodeStatus (version : SnmpVersion) (response : Response) : Response :=
  if version = .v1 then { response with errorStatus := v1ErrorStatus response.errorStatus } else response

def withRequest (pdu : Pdu VarBind) (response : Response) : Response :=
  { response with varBinds := pdu.varBinds, unclosed := none }

def selectReply (pdu : Pdu VarBind) (response : Response) : Response :=
  if response.errorStatus = noError then response else withRequest pdu response

def failedReply (pdu : Pdu VarBind) (response : Response) : Response :=
  withRequest pdu { response with errorStatus := genErr }

inductive Stage where
  | begun
  | executing (slot : Nat)
  | ending (slot : Nat)
  | resending (slot : Nat)
deriving Repr, DecidableEq

def Stage.slot : Stage → Option Nat
  | .begun => none
  | .executing slot | .ending slot | .resending slot => some slot

/-- A request that is being processed, numbered by its reception. -/
structure Frame where
  number : Nat
  session : Nat
  pdu : Pdu VarBind
  stage : Stage
deriving Repr, DecidableEq

inductive CacheEvent where
  | computed (number session : Nat) (pdu : Pdu VarBind) (response : Response)
  | sent (number session : Nat) (pdu : Pdu VarBind) (response : Response)
  | cached (number session : Nat) (pdu : Pdu VarBind) (response : Response)
deriving Repr, DecidableEq

/-- Frames are kept innermost first and events latest first; `gets` counts the calls of `CacheGet`. -/
structure CacheState (ω : Type) where
  cache : Cache
  last : Nat
  gets : Nat
  clock : Nat
  received : Nat
  frames : List Frame
  log : List CacheEvent
  world : ω

/-- `script` is any script, `respond` and `abort` what a request does to its response. -/
inductive CacheAction (ω : Type) where
  | tick (seconds : Nat)
  | script (world : ω)
  | receive (session : Nat) (pdu : Pdu VarBind)
  | reserve
  | respond (response : Response) (world : ω)
  | abort
  | finish
  | encode (success : Bool)

def CacheState.start {ω : Type} (clock : Nat) (world : ω) : CacheState ω :=
  ⟨cacheInit, 0, 0, clock, 0, [], [], world⟩

section

variable {ω : Type} (sessions : Sessions) (state : CacheState ω)

def setSlot (slot : Nat) (element : CacheElement) : Cache := update state.cache slot element

def clearedFor (session : Nat) (pdu : Pdu VarBind) : Cache :=
  if pdu.type = .set then cacheClear sessions session state.cache else state.cache

def answerCached (session : Nat) (pdu : Pdu VarBind) (slot : Nat) (cache : Cache) : CacheState ω :=
  let response := encodeStatus (sessions.version session) (cache slot).response
  { state with
    cache := update cache slot { cache slot with response }
    received := state.received + 1
    log := .cached state.received session pdu response :: state.log }

def beginRequest (session : Nat) (pdu : Pdu VarBind) (cache : Cache) : CacheState ω :=
  { state with
    cache
    received := state.received + 1
    frames := ⟨state.received, session, pdu, .begun⟩ :: state.frames }

def receiveRequest (session : Nat) (pdu : Pdu VarBind) : CacheState ω :=
  match cacheHit sessions session pdu state.clock (clearedFor sessions state session pdu) with
  | some slot => answerCached sessions state session pdu slot (clearedFor sessions state session pdu)
  | none => beginRequest state session pdu (clearedFor sessions state session pdu)

/-- `CacheGet` for the request on top of the stack. -/
def reserveSlot (frame : Frame) (rest : List Frame) : CacheState ω :=
  { state with
    cache := setSlot state (nextSlot state.last) (reserved frame.session frame.pdu state.clock)
    last := nextSlot state.last
    gets := state.gets + 1
    frames := { frame with stage := .executing (nextSlot state.last) } :: rest }

def finishReply (frame : Frame) (rest : List Frame) (slot : Nat) : CacheState ω :=
  let response := selectReply frame.pdu (state.cache slot).response
  { state with
    cache := setSlot state slot { state.cache slot with requestId := frame.pdu.requestId, response }
    frames := { frame with stage := .ending slot } :: rest
    log := .computed frame.number frame.session frame.pdu response :: state.log }

def sendReply (frame : Frame) (rest : List Frame) (slot : Nat) : CacheState ω :=
  let response := encodeStatus (sessions.version frame.session) (state.cache slot).response
  { state with
    cache := setSlot state slot { state.cache slot with response }
    frames := rest
    log := .sent frame.number frame.session frame.pdu response :: state.log }

def replaceReply (frame : Frame) (rest : List Frame) (slot : Nat) : CacheState ω :=
  let response := failedReply frame.pdu (encodeStatus (sessions.version frame.session) (state.cache slot).response)
  { state with
    cache := setSlot state slot { state.cache slot with response }
    frames := { frame with stage := .resending slot } :: rest
    log := .computed frame.number frame.session frame.pdu response :: state.log }

def dropReply (frame : Frame) (rest : List Frame) (slot : Nat) : CacheState ω :=
  { state with
    cache := setSlot state slot
      { state.cache slot with response := encodeStatus (sessions.version frame.session) (state.cache slot).response }
    frames := rest }

def cacheStep : CacheAction ω → CacheState ω
  | .tick seconds => { state with clock := state.clock + seconds }
  | .script world => { state with world }
  | .receive session pdu => receiveRequest sessions state session pdu
  | .reserve =>
    match state.frames with
    | ⟨number, session, pdu, .begun⟩ :: rest => reserveSlot state ⟨number, session, pdu, .begun⟩ rest
    | _ => state
  | .respond response world =>
    match state.frames with
    | ⟨_, _, _, .executing slot⟩ :: _ =>
      { state with cache := setSlot state slot { state.cache slot with response }, world }
    | _ => state
  | .abort =>
    match state.frames with
    | ⟨_, _, _, .executing _⟩ :: rest => { state with frames := rest }
    | _ => state
  | .finish =>
    match state.frames with
    | ⟨number, session, pdu, .executing slot⟩ :: rest =>
      finishReply state ⟨number, session, pdu, .executing slot⟩ rest slot
    | _ => state
  | .encode success =>
    match state.frames with
    | ⟨number, session, pdu, .ending slot⟩ :: rest =>
      if success ∧ (state.cache slot).response.unclosed = none then
        sendReply sessions state ⟨number, session, pdu, .ending slot⟩ rest slot
      else replaceReply sessions state ⟨number, session, pdu, .ending slot⟩ rest slot
    | ⟨number, session, pdu, .resending slot⟩ :: rest =>
      if success then sendReply sessions state ⟨number, session, pdu, .resending slot⟩ rest slot
      else dropReply sessions state ⟨number, session, pdu, .resending slot⟩ rest slot
    | _ => state

end

end Tnm
