import TkinedRemix.Lib.Machine

/-!
The queue of asynchronous requests (`tnmSnmpUtil.c`, `tnmSnmpNet.c`). Closed sessions stay where they are, as
freed memory does. Scripts are the actions that happen between two procedures.
-/

namespace Tnm

open Lib Function

structure Request where
  ptr : Nat
  id : Int
  session : Nat
  sends : Nat
  timer : Bool
deriving Repr, DecidableEq

structure QueueSession where
  retries : Nat
  window : Nat
  active : Int
  waiting : Int
deriving Repr, DecidableEq

inductive QueueEvent where
  | submitted (ptr session : Nat)
  | sent (ptr : Nat)
  | callback (ptr : Nat) (queued : Bool)
deriving Repr, DecidableEq

structure Manager where
  queueHead : List Request
  tnmSnmpList : List Nat
  session : Nat → QueueSession
  nextSession : Nat
  nextPtr : Nat
  answering : List Nat
  log : List QueueEvent

def Manager.init : Manager where
  queueHead := []
  tnmSnmpList := []
  session := fun _ => ⟨0, 0, 0, 0⟩
  nextSession := 0
  nextPtr := 0
  answering := []
  log := []

def isActive (request : Request) : Bool := request.sends != 0

def activeRequests (queue : List Request) : Nat := queue.countP isActive

def waitingRequests (queue : List Request) : Nat := queue.countP fun request => !isActive request

def activeOf (session : Nat) (queue : List Request) : Nat :=
  queue.countP fun request => request.session == session && isActive request

def waitingOf (session : Nat) (queue : List Request) : Nat :=
  queue.countP fun request => request.session == session && !isActive request

/-- The first branch of `TnmSnmpTimeoutProc`: the packet is sent and a timer is installed. -/
def transmit (request : Request) : Request := { request with sends := request.sends + 1, timer := true }

def moveToActive (session : QueueSession) : QueueSession :=
  { session with active := session.active + 1, waiting := session.waiting - 1 }

structure Activation where
  queue : List Request
  session : Nat → QueueSession
  sent : List Nat

/-- The loop that activates waiting requests; one that was never sent is below its limit. -/
def activate (window : Nat) : List Request → Nat → Nat → (Nat → QueueSession) → Activation
  | [], _, _, session => ⟨[], session, []⟩
  | request :: rest, active, waiting, session =>
    if waiting = 0 ∨ (window ≠ 0 ∧ window ≤ active) then ⟨request :: rest, session, []⟩
    else if !isActive request ∧
        ((session request.session).active < (session request.session).window ∨
          (session request.session).window = 0) then
      let later := activate window rest (active + 1) (waiting - 1)
        (update session request.session (moveToActive (session request.session)))
      ⟨transmit request :: later.queue, later.session, request.ptr :: later.sent⟩
    else
      let later := activate window rest active waiting session
      ⟨request :: later.queue, later.session, later.sent⟩

def processQueue (caller : Nat) (manager : Manager) : Manager :=
  let activation := activate (manager.session caller).window manager.queueHead
    (activeRequests manager.queueHead) (waitingRequests manager.queueHead) manager.session
  { manager with
    queueHead := activation.queue
    session := activation.session
    log := manager.log ++ activation.sent.map .sent }

def countWaiting (session : QueueSession) : QueueSession := { session with waiting := session.waiting + 1 }

def tnmSnmpQueueRequest (caller : Nat) (request : Option Request) (manager : Manager) : Manager :=
  match request with
  | none => processQueue caller manager
  | some request =>
    processQueue caller
      { manager with
        queueHead := manager.queueHead ++ [{ request with session := caller }]
        session := update manager.session caller (countWaiting (manager.session caller)) }

def uncount (request : Request) (session : QueueSession) : QueueSession :=
  if isActive request then { session with active := session.active - 1 }
  else { session with waiting := session.waiting - 1 }

def tnmSnmpDeleteRequest (ptr : Nat) (manager : Manager) : Manager :=
  match manager.queueHead.find? (·.ptr == ptr) with
  | none => manager
  | some request =>
    let queueHead := manager.queueHead.eraseP (·.ptr == ptr)
    if request.session ∈ manager.tnmSnmpList then
      tnmSnmpQueueRequest request.session none
        { manager with
          queueHead
          session := update manager.session request.session
            (uncount request (manager.session request.session)) }
    else { manager with queueHead }

def isQueued (ptr : Nat) (manager : Manager) : Bool := manager.queueHead.any (·.ptr == ptr)

/-- The request procedure runs behind `TnmSnmpDeleteRequest`, whatever that has found. -/
def runCallback (ptr : Nat) (manager : Manager) : Manager :=
  { manager with log := manager.log ++ [.callback ptr (isQueued ptr manager)] }

def tnmSnmpTimeoutProc (ptr : Nat) (manager : Manager) : Manager :=
  match manager.queueHead.find? (·.ptr == ptr) with
  | none => manager
  | some request =>
    if request.timer = false then manager
    else if request.sends < 1 + (manager.session request.session).retries then
      { manager with
        queueHead := manager.queueHead.map fun other => if other.ptr == ptr then transmit other else other
        log := manager.log ++ [.sent ptr] }
    else runCallback ptr (tnmSnmpDeleteRequest ptr manager)

def tnmSnmpDeleteSession (session : Nat) (manager : Manager) : Manager :=
  { manager with
    tnmSnmpList := manager.tnmSnmpList.filter (· != session)
    queueHead := manager.queueHead.filter (·.session != session) }

def tnmSnmpCreateSession (window retries : Nat) (manager : Manager) : Manager :=
  { manager with
    tnmSnmpList := manager.tnmSnmpList ++ [manager.nextSession]
    session := update manager.session manager.nextSession ⟨retries, window, 0, 0⟩
    nextSession := manager.nextSession + 1 }

/-- The asynchronous end of `TnmSnmpEncode`. -/
def submitRequest (session : Nat) (id : Int) (manager : Manager) : Manager :=
  if session ∈ manager.tnmSnmpList then
    tnmSnmpQueueRequest session (some ⟨manager.nextPtr, id, session, 0, false⟩)
      { manager with
        nextPtr := manager.nextPtr + 1
        log := manager.log ++ [.submitted manager.nextPtr session] }
  else manager

inductive QueueAction where
  | createSession (window retries : Nat)
  | setWindow (session window : Nat)
  | setRetries (session retries : Nat)
  | submit (session : Nat) (id : Int)
  | wait (session : Nat)
  | timeout (ptr : Nat)
  /-- An authentic response has found its request; the bindings of the session run next. -/
  | respond (id : Int)
  /-- The bindings have returned: the request is deleted and its procedure runs. -/
  | answer
  | deleteRequest (ptr : Nat)
  | deleteSession (session : Nat)
deriving Repr, DecidableEq

def queueStep (manager : Manager) : QueueAction → Manager
  | .createSession window retries => tnmSnmpCreateSession window retries manager
  | .setWindow session window =>
    { manager with
      session := update manager.session session { manager.session session with window } }
  | .setRetries session retries =>
    { manager with
      session := update manager.session session { manager.session session with retries } }
  | .submit session id => submitRequest session id manager
  | .wait session => if session ∈ manager.tnmSnmpList then tnmSnmpQueueRequest session none manager else manager
  | .timeout ptr => tnmSnmpTimeoutProc ptr manager
  | .respond id =>
    match manager.queueHead.find? (·.id == id) with
    | none => manager
    | some request => { manager with answering := request.ptr :: manager.answering }
  | .answer =>
    match manager.answering with
    | [] => manager
    | ptr :: answering => runCallback ptr (tnmSnmpDeleteRequest ptr { manager with answering })
  | .deleteRequest ptr => tnmSnmpDeleteRequest ptr manager
  | .deleteSession session => tnmSnmpDeleteSession session manager

def queueRun : List QueueAction → Manager := run queueStep Manager.init

end Tnm
