import TkinedRemix.Snmp.PduCore

/-!
Reception of packets: `TnmSnmpDecode` and `Authentic` of `tnmSnmpRecv.c`. Scripts, the agent and the sockets are
parameters; they open, close or reconfigure no session meanwhile and keep no reference to its engine identifier.
-/

namespace Tnm

open Lib Function

inductive TclCode where
  | ok | error | break_ | continue_
deriving Repr, DecidableEq

inductive Appl where
  | generator | responder | notifier | listener
deriving Repr, DecidableEq

/-- `engineShared` is set while something other than the session refers to its engineID object. -/
structure SnmpSession where
  version : SnmpVersion
  type : Appl
  community : Octets
  user : Octets
  securityLevel : UInt8
  engineID : Octets
  engineBoots : Int
  engineTime : Int
  bindings : List Binding
  engineShared : Bool := false
deriving Repr, DecidableEq

structure Pending where
  ptr : Nat
  id : Int
  session : Nat
deriving Repr, DecidableEq

/-- What scripts can change: the pending requests, the instances and the variables. -/
structure World (σ : Type) where
  requests : List Pending
  state : σ

structure Entity (σ : Type) where
  tnmSnmpList : List Nat
  session : Nat → SnmpSession
  world : World σ

structure Reply (σ : Type) where
  world : World σ
  sent : Bool

/-- The scripts of a session by the occasion they run on. -/
structure Scripts (σ : Type) where
  recv : Nat → Pdu VarBind → World σ → World σ
  callback : Nat → Pdu VarBind → World σ → World σ
  notify : Nat → Pdu VarBind → World σ → World σ
  agentRequest : Nat → Pdu VarBind → World σ → Reply σ
  respond : Nat → Pdu VarBind → World σ → Reply σ

inductive RecvEvent where
  | binding (session : Nat)
  | dequeued (session : Nat)
  | callback (session : Nat)
  | notified (session : Nat)
  | agentRequest (session : Nat)
  | responded (session : Nat)
deriving Repr, DecidableEq

def Message.version : Message → SnmpVersion
  | .community version _ _ => version
  | .usm _ _ _ => .v3

def Message.raw : Message → RawPdu
  | .community _ _ raw => raw
  | .usm _ _ scopedPdu => scopedPdu.raw

/-- `none` is a packet that is refused, or one of which no text can be made. -/
def receive (env : TclMib) (packet : Octets) : Option (Message × Pdu VarBind) := do
  let message ← decodeMessage packet
  let pdu ← pduText env message.raw
  some (message, pdu)

def tnmSnmpFlagAuth : UInt8 := 0x01
def tnmSnmpFlagPriv : UInt8 := 0x02

def authentic (session : SnmpSession) (message : Message) (type : PduType) : Bool :=
  message.version == session.version &&
    match message with
    | .community version name _ =>
      version != .v3 && (type == .trap1 || type == .trap2 || type == .inform || session.community == name)
    | .usm header params _ =>
      header.msgFlags &&& tnmSnmpFlagAuth == 0 && header.msgFlags &&& tnmSnmpFlagPriv == 0 &&
        session.user == params.user

def boundCommand (event : SnmpEvent) (session : SnmpSession) : Bool :=
  match session.bindings.find? (·.event == event) with
  | some binding => binding.command.isSome
  | none => false

section

variable {σ : Type} (scripts : Scripts σ)

def evalRecv (session : Nat) (pdu : Pdu VarBind) (entity : Entity σ) : Entity σ × List RecvEvent :=
  if boundCommand .recv (entity.session session) then
    ({ entity with world := scripts.recv session pdu entity.world }, [.binding session])
  else (entity, [])

def isTrapSession (message : Message) (type : PduType) (session : SnmpSession) : Bool :=
  boundCommand .trap session && session.type == .listener && authentic session message type &&
    if type == .trap1 then session.version == .v1 else session.version != .v1

def isInformSession (message : Message) (session : SnmpSession) : Bool :=
  session.version != .v1 && boundCommand .inform session && authentic session message .inform

def isAgentSession (message : Message) (type : PduType) (session : SnmpSession) : Bool :=
  !(type == .getbulk && session.version == .v1) && session.type == .responder && authentic session message type

structure Delivery (σ : Type) where
  entity : Entity σ
  events : List RecvEvent
  type : PduType
  failed : Bool

def serveTrap (pdu : Pdu VarBind) (session : Nat) (entity : Entity σ) : Delivery σ :=
  let (entity, events) := evalRecv scripts session pdu entity
  ⟨{ entity with world := scripts.notify session pdu entity.world }, events ++ [.notified session], pdu.type, false⟩

/-- An answered inform leaves a response behind for the sessions to come. -/
def serveInform (pdu : Pdu VarBind) (session : Nat) (entity : Entity σ) : Delivery σ :=
  let (entity, events) := evalRecv scripts session pdu entity
  let reply := scripts.respond session { pdu with type := .response } (scripts.notify session pdu entity.world)
  ⟨{ entity with world := reply.world },
    events ++ .notified session :: (if reply.sent then [.responded session] else []), .response, !reply.sent⟩

def serveAgent (pdu : Pdu VarBind) (session : Nat) (entity : Entity σ) : Delivery σ :=
  let (entity, events) := evalRecv scripts session pdu entity
  let reply := scripts.agentRequest session pdu entity.world
  ⟨{ entity with world := reply.world },
    events ++ .agentRequest session :: (if reply.sent then [.responded session] else []), pdu.type, !reply.sent⟩

def deliverTo (message : Message) (pdu : Pdu VarBind) (session : Nat) (entity : Entity σ) : Delivery σ :=
  let idle : Delivery σ := ⟨entity, [], pdu.type, false⟩
  if (entity.session session).version ≠ message.version then idle
  else
    match pdu.type with
    | .trap1 | .trap2 =>
      if isTrapSession message pdu.type (entity.session session) then serveTrap scripts pdu session entity else idle
    | .inform =>
      if isInformSession message (entity.session session) then serveInform scripts pdu session entity else idle
    | .getbulk | .get | .getnext | .set =>
      if isAgentSession message pdu.type (entity.session session) then serveAgent scripts pdu session entity
      else idle
    | .response | .report => idle

structure Outcome (σ : Type) where
  entity : Entity σ
  events : List RecvEvent
  code : TclCode
  reqid : Int
  status : Option (Int × Int)

def deliver (message : Message) (pdu : Pdu VarBind) : List Nat → Entity σ → Outcome σ
  | [], entity => ⟨entity, [], .continue_, 0, none⟩
  | session :: rest, entity =>
    let delivery := deliverTo scripts message pdu session entity
    if delivery.failed then ⟨delivery.entity, delivery.events, .error, 0, none⟩
    else
      let later := deliver message { pdu with type := delivery.type } rest delivery.entity
      { later with events := delivery.events ++ later.events }

def tnmSnmpFindRequest (id : Int) (entity : Entity σ) : Option Pending :=
  entity.world.requests.find? (·.id == id)

/-- The session a report is taken for: that of the pending request, or else the waiting one. -/
def reportTarget (requestId : Int) (caller : Option Nat) (entity : Entity σ) : Option Nat :=
  match tnmSnmpFindRequest requestId entity with
  | some request => some request.session
  | none => caller

/-- The fields a report sets, of a session whose engineID object is not shared: see `aborts`. -/
def takeEngine (params : UsmParams) (session : SnmpSession) : SnmpSession :=
  { session with engineID := params.engineId, engineBoots := params.engineBoots, engineTime := params.engineTime }

/-- `TnmSetOctetStringObj` panics on a shared object: such a report ends the process behind its recv binding. -/
def aborts (message : Message) (pdu : Pdu VarBind) (caller : Option Nat) (entity : Entity σ) : Bool :=
  match pdu.type, message with
  | .report, .usm _ _ _ =>
    match reportTarget pdu.requestId caller entity with
    | some session => (entity.session session).engineShared
    | none => false
  | _, _ => false

def takeReport (params : UsmParams) (pdu : Pdu VarBind) (session : Nat) (entity : Entity σ) : Outcome σ :=
  let (entity, events) := evalRecv scripts session pdu entity
  ⟨{ entity with session := update entity.session session (takeEngine params (entity.session session)) },
    events, .break_, 0, none⟩

def deletePending (ptr : Nat) (world : World σ) : World σ :=
  { world with requests := world.requests.eraseP (·.ptr == ptr) }

def syncResponse (pdu : Pdu VarBind) (session : Nat) (entity : Entity σ) : Outcome σ :=
  let (entity, events) := evalRecv scripts session pdu entity
  if pdu.errorStatus ≠ 0 then ⟨entity, events, .error, pdu.requestId, some (pdu.errorStatus, pdu.errorIndex)⟩
  else ⟨entity, events, .ok, pdu.requestId, none⟩

def asyncResponse (pdu : Pdu VarBind) (request : Pending) (entity : Entity σ) : Outcome σ :=
  let (entity, events) := evalRecv scripts request.session pdu entity
  let world := scripts.callback request.session pdu (deletePending request.ptr entity.world)
  ⟨{ entity with world }, events ++ [.dequeued request.session, .callback request.session], .ok, 0, none⟩

def takeResponse (message : Message) (pdu : Pdu VarBind) (caller : Option Nat) (entity : Entity σ) : Outcome σ :=
  match tnmSnmpFindRequest pdu.requestId entity with
  | none =>
    match caller with
    | none => ⟨entity, [], .continue_, 0, none⟩
    | some session =>
      if authentic (entity.session session) message pdu.type then syncResponse scripts pdu session entity
      else ⟨entity, [], .continue_, pdu.requestId, none⟩
  | some request =>
    if authentic (entity.session request.session) message pdu.type then asyncResponse scripts pdu request entity
    else ⟨entity, [], .continue_, 0, none⟩

/-- `TnmSnmpDecode` behind `DecodeMessage`; the caller is the session of a request that waits. -/
def process (message : Message) (pdu : Pdu VarBind) (caller : Option Nat) (entity : Entity σ) : Outcome σ :=
  match pdu.type with
  | .report =>
    match message with
    | .usm _ params _ =>
      match reportTarget pdu.requestId caller entity with
      | none => ⟨entity, [], .continue_, 0, none⟩
      | some session => takeReport scripts params pdu session entity
    | .community _ _ _ => deliver scripts message pdu entity.tnmSnmpList entity
  | .response => takeResponse scripts message pdu caller entity
  | _ => deliver scripts message pdu entity.tnmSnmpList entity

def tnmSnmpDecode (env : TclMib) (packet : Octets) (caller : Option Nat) (entity : Entity σ) : Outcome σ :=
  match receive env packet with
  | none => ⟨entity, [], .error, 0, none⟩
  | some (message, pdu) => process scripts message pdu caller entity

end

end Tnm
