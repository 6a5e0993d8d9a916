import TkinedRemix.Snmp.Authentication
import TkinedRemix.Lib.Machine

/-!
Synchronous requests: the loop at the end of `TnmSnmpEncode` that sends a request and waits for its response.
-/

namespace Tnm

open Lib

inductive SyncOutcome where
  | success
  | agentError (status : Option (Int × Int))
  | noResponse
  | failed
  | aborted
deriving Repr, DecidableEq

inductive SyncEvent where
  | timeout (sends : Bool)
  | packet (octets : Octets) (sends : Bool)
  | recvError
deriving Repr, DecidableEq

structure SyncRequest where
  session : Nat
  requestId : Int
  retries : Nat

structure SyncState (σ : Type) where
  retry : Nat
  transmissions : Nat
  entity : Entity σ
  outcome : Option SyncOutcome

section

variable {σ : Type} (scripts : Scripts σ) (env : TclMib) (request : SyncRequest)

def sendPacket (sends : Bool) (state : SyncState σ) : SyncState σ :=
  { state with
    transmissions := state.transmissions + 1
    outcome := if sends then none else some .failed }

def syncStart (entity : Entity σ) (sends : Bool) : SyncState σ := sendPacket sends ⟨0, 0, entity, none⟩

/-- The packet is one that `TnmSnmpDecode` does not survive. -/
def packetAborts (octets : Octets) (state : SyncState σ) : Bool :=
  match receive env octets with
  | some (message, pdu) => aborts message pdu (some request.session) state.entity
  | none => false

/-- Status and index stay unset when `TnmSnmpDecode` fails without storing them. -/
def syncStep (state : SyncState σ) (event : SyncEvent) : SyncState σ :=
  match state.outcome with
  | some _ => state
  | none =>
    match event with
    | .recvError => { state with outcome := some .failed }
    | .timeout sends =>
      if state.retry + 1 ≤ request.retries then sendPacket sends { state with retry := state.retry + 1 }
      else { state with retry := state.retry + 1, outcome := some .noResponse }
    | .packet octets sends =>
      let decoded := tnmSnmpDecode scripts env octets (some request.session) state.entity
      if packetAborts env request octets state then { state with outcome := some .aborted }
      else match decoded.code with
      | .break_ =>
        if state.retry ≤ request.retries + 1 then
          sendPacket sends { state with retry := state.retry + 1, entity := decoded.entity }
        else { state with retry := state.retry + 1, entity := decoded.entity }
      | .ok =>
        if decoded.reqid = request.requestId then
          { state with entity := decoded.entity, outcome := some .success }
        else { state with entity := decoded.entity }
      | .continue_ => { state with entity := decoded.entity }
      | .error => { state with entity := decoded.entity, outcome := some (.agentError decoded.status) }

def syncRun (entity : Entity σ) (sends : Bool) (events : List SyncEvent) : SyncState σ :=
  run (syncStep scripts env request) (syncStart entity sends) events

theorem tnmSnmpDecode_break {packet : Octets} {caller : Option Nat} {entity : Entity σ}
    (isBreak : (tnmSnmpDecode scripts env packet caller entity).code = .break_) :
    ∃ header params scopedPdu pdu, receive env packet = some (.usm header params scopedPdu, pdu) ∧
      pdu.type = .report := by
  rw [tnmSnmpDecode] at isBreak
  split at isBreak
  · simp at isBreak
  next message pdu received =>
    have processed := process_inv scripts message pdu caller entity
    generalize process scripts message pdu caller entity = outcome at processed isBreak
    cases processed with
    | @report header params scopedPdu _ isUsm isReport =>
      exact ⟨header, params, scopedPdu, pdu, by rw [received, isUsm], isReport⟩
    | ignored => simp at isBreak
    | sync =>
      simp only [syncResponse] at isBreak
      split at isBreak <;> simp at isBreak
    | async => simp [asyncResponse] at isBreak
    | delivered =>
      rcases (deliver_result scripts message pdu entity.tnmSnmpList entity).1 with goesOn | ⟨fails, _⟩
      · simp [goesOn] at isBreak
      · simp [fails] at isBreak

inductive SyncTurn (state : SyncState σ) : SyncEvent → SyncState σ → Prop
  | ended (event) : state.outcome ≠ none → SyncTurn state event state
  | recvError : SyncTurn state .recvError { state with outcome := some .failed }
  | retried (sends) : state.retry + 1 ≤ request.retries →
      SyncTurn state (.timeout sends) (sendPacket sends { state with retry := state.retry + 1 })
  | gaveUp (sends) : ¬ state.retry + 1 ≤ request.retries →
      SyncTurn state (.timeout sends) { state with retry := state.retry + 1, outcome := some .noResponse }
  | aborted {octets} (sends) : packetAborts env request octets state = true →
      SyncTurn state (.packet octets sends) { state with outcome := some .aborted }
  | resent {octets} (sends entity) :
      (tnmSnmpDecode scripts env octets (some request.session) state.entity).code = .break_ →
      state.retry ≤ request.retries + 1 →
      SyncTurn state (.packet octets sends) (sendPacket sends { state with retry := state.retry + 1, entity })
  | reported {octets} (sends entity) :
      SyncTurn state (.packet octets sends) { state with retry := state.retry + 1, entity }
  | answered {octets} (sends entity) :
      (tnmSnmpDecode scripts env octets (some request.session) state.entity).code = .ok →
      (tnmSnmpDecode scripts env octets (some request.session) state.entity).reqid = request.requestId →
      SyncTurn state (.packet octets sends) { state with entity, outcome := some .success }
  | passed {octets} (sends entity) : SyncTurn state (.packet octets sends) { state with entity }
  | refused {octets} (sends entity) :
      (tnmSnmpDecode scripts env octets (some request.session) state.entity).code = .error →
      SyncTurn state (.packet octets sends) { state with
        entity
        outcome := some (.agentError
          (tnmSnmpDecode scripts env octets (some request.session) state.entity).status) }

theorem syncStep_inv (state : SyncState σ) (event : SyncEvent) :
    SyncTurn scripts env request state event (syncStep scripts env request state event) := by
  unfold syncStep
  split
  · exact .ended event (by simp [*])
  · cases event with
    | recvError => exact .recvError
    | timeout sends =>
      simp only
      split
      · exact .retried sends ‹_›
      · exact .gaveUp sends ‹_›
    | packet _ sends =>
      simp only
      split
      · exact .aborted sends ‹_›
      split
      · split
        · exact .resent sends _ ‹_› ‹_›
        · exact .reported sends _
      · split
        · exact .answered sends _ ‹_› ‹_›
        · exact .passed sends _
      · exact .passed sends _
      · exact .refused sends _ ‹_›

/-- A report comes only while the request was sent no more often than it may be retried. -/
def ReportsEarly (state : SyncState σ) : SyncEvent → Prop
  | .packet octets _ =>
    (∃ header params scopedPdu pdu, receive env octets = some (.usm header params scopedPdu, pdu) ∧
      pdu.type = .report) → state.transmissions ≤ request.retries
  | _ => True

/-- `extra` is the number of transmissions beyond those that the retries allow. -/
theorem syncStep_transmissions {extra : Nat} (state : SyncState σ) (event : SyncEvent)
    (early : ReportsEarly env request state event ∨ 2 ≤ extra)
    (bounded : state.transmissions ≤ state.retry + 1 ∧ state.transmissions ≤ request.retries + 1 + extra) :
    (syncStep scripts env request state event).transmissions ≤ (syncStep scripts env request state event).retry + 1 ∧
      (syncStep scripts env request state event).transmissions ≤ request.retries + 1 + extra := by
  have turn := syncStep_inv scripts env request state event
  generalize syncStep scripts env request state event = after at turn
  cases turn with
  | ended | recvError | aborted | answered | passed | refused => exact bounded
  | retried =>
    simp only [sendPacket]
    omega
  | resent _ _ isBreak =>
    have few := early.imp_left fun early => early (tnmSnmpDecode_break scripts env isBreak)
    simp only [sendPacket]
    omega
  | gaveUp | reported => exact ⟨Nat.le_succ_of_le bounded.1, bounded.2⟩

end

/-- A request is sent at most two times more often than the retries allow. -/
theorem sync_transmissions {σ : Type} (scripts : Scripts σ) (env : TclMib) (request : SyncRequest) (entity : Entity σ)
    (sends : Bool) (events : List SyncEvent) :
    (syncRun scripts env request entity sends events).transmissions ≤ request.retries + 3 ∧
      (Meets (syncStep scripts env request) (ReportsEarly env request) (syncStart entity sends) events →
        (syncRun scripts env request entity sends events).transmissions ≤ request.retries + 1) := by
  have start : ∀ extra, (syncStart entity sends).transmissions ≤ (syncStart entity sends).retry + 1 ∧
      (syncStart entity sends).transmissions ≤ request.retries + 1 + extra := by
    simp only [syncStart, sendPacket]
    omega
  constructor
  · exact (run_invariant (fun state event _ => syncStep_transmissions scripts env request state event (.inr le_rfl))
      (start 2) (Meets.of_forall fun _ _ _ => trivial)).2
  · exact fun early => (run_invariant (fun state event early =>
      syncStep_transmissions scripts env request state event (.inl early)) (start 0) early).2

/-- Two retries: a report and a timeout, each with a retry left. -/
theorem sync_transmissions_reported :
    let request : SyncRequest := ⟨0, 1, 2⟩
    let events : List SyncEvent := [.packet reportSample true, .timeout true, .timeout true]
    (syncRun (quietScripts Unit) bareTcl request (waitingEntity userSession) true events).transmissions = 3 ∧
      (syncRun (quietScripts Unit) bareTcl request (waitingEntity userSession) true events).transmissions ≤ 2 + 1 := by
  refine ⟨by decide, (sync_transmissions _ _ ⟨0, 1, 2⟩ _ _ _).2 ⟨fun _ => ?_, trivial, trivial, trivial⟩⟩
  exact Nat.le_succ 1

/-- No retries, and two reports: the request is sent three times. -/
theorem twoReports_threeTransmissions : (syncRun (quietScripts Unit) bareTcl ⟨0, 1, 0⟩ (waitingEntity userSession) true
      [.packet reportSample true, .packet reportSample true]).transmissions = 3 := by
  decide

/-- The packet is a response with this request id, status and index. -/
def IsAnswer (env : TclMib) (packet : Octets) (requestId status index : Int) : Prop :=
  ∃ message pdu, receive env packet = some (message, pdu) ∧ pdu.type = .response ∧ pdu.requestId = requestId ∧
    pdu.errorStatus = status ∧ pdu.errorIndex = index

section

variable {σ : Type} (scripts : Scripts σ) (env : TclMib) (request : SyncRequest)

/-- The packets that can not end the request in the place of its response. -/
def AnswersOwn (state : SyncState σ) : SyncEvent → Prop
  | .packet octets sends => sends = true ∧ ∃ message pdu, receive env octets = some (message, pdu) ∧
      aborts message pdu (some request.session) state.entity = false ∧
      (pdu.type = .response →
        match tnmSnmpFindRequest pdu.requestId state.entity with
        | some other => authentic (state.entity.session other.session) message pdu.type = true → request.requestId ≠ 0
        | none => authentic (state.entity.session request.session) message pdu.type = true →
            pdu.errorStatus ≠ 0 → pdu.requestId = request.requestId) ∧
      (pdu.type ≠ .response → scripts.Replies ∨
        ∀ session ∈ state.entity.tnmSnmpList, takes message pdu.type (state.entity.session session) = false)
  | .timeout sends => sends = true
  | .recvError => False

variable {state : SyncState σ} {octets : Octets} {sends : Bool}

theorem answers_own (own : AnswersOwn scripts env request state (.packet octets sends)) :
    let decoded := tnmSnmpDecode scripts env octets (some request.session) state.entity
    (decoded.code = .ok → decoded.reqid = request.requestId → ∃ index, IsAnswer env octets request.requestId 0 index) ∧
      (decoded.code = .error → ∃ status index, decoded.status = some (status, index) ∧ status ≠ 0 ∧
        IsAnswer env octets request.requestId status index) := by
  obtain ⟨_, message, pdu, received, _, responses, others⟩ := own
  rw [tnmSnmpDecode_received scripts received]
  have processed := process_inv scripts message pdu (some request.session) state.entity
  generalize process scripts message pdu (some request.session) state.entity = outcome at processed
  cases processed with
  | report => simp [takeReport]
  | ignored => simp
  | sync isResponse found isCaller isAuthentic =>
    cases isCaller
    have waited := responses isResponse
    rw [found] at waited
    simp only [syncResponse]
    split
    next hasError =>
      exact ⟨by simp, fun _ => ⟨pdu.errorStatus, pdu.errorIndex, rfl, hasError, message, pdu, received, isResponse,
        waited isAuthentic hasError, rfl, rfl⟩⟩
    next noError =>
      exact ⟨fun _ sameId => ⟨pdu.errorIndex, message, pdu, received, isResponse, sameId, by simpa using noError, rfl⟩,
        by simp⟩
  | async isResponse found isAuthentic =>
    have other := responses isResponse
    rw [found] at other
    exact ⟨fun _ sameId => absurd sameId.symm (other isAuthentic), by simp [asyncResponse]⟩
  | delivered notResponse =>
    rcases (deliver_result scripts message pdu state.entity.tnmSnmpList state.entity).1 with goesOn | ⟨fails, silent⟩
    · simp [goesOn]
    · rcases others notResponse with replies | refused
      · exact absurd replies silent
      · rw [deliver_refused scripts message pdu refused] at fails
        cases fails

def isTimeout : SyncEvent → Bool
  | .timeout _ => true
  | _ => false

structure Answered (events : List SyncEvent) (state : SyncState σ) : Prop where
  success : state.outcome = some .success →
    ∃ octets sends index, .packet octets sends ∈ events ∧ IsAnswer env octets request.requestId 0 index
  agentError : ∀ stored, state.outcome = some (.agentError stored) →
    ∃ octets sends status index, .packet octets sends ∈ events ∧ stored = some (status, index) ∧ status ≠ 0 ∧
      IsAnswer env octets request.requestId status index
  socket : state.outcome ≠ some .failed
  alive : state.outcome ≠ some .aborted
  waiting : state.outcome = none → events.countP isTimeout ≤ state.retry ∧ events.countP isTimeout ≤ request.retries

variable {env request}

theorem Answered.later {events : List SyncEvent} {after : SyncState σ} {event : SyncEvent}
    (answered : Answered env request events state) (same : after.outcome = state.outcome)
    (waiting : after.outcome = none → (events ++ [event]).countP isTimeout ≤ after.retry ∧
      (events ++ [event]).countP isTimeout ≤ request.retries) :
    Answered env request (events ++ [event]) after := by
  refine ⟨?_, ?_, by rw [same]; exact answered.socket, by rw [same]; exact answered.alive, waiting⟩
  · rw [same]
    intro success
    obtain ⟨octets, sends, index, member, isAnswer⟩ := answered.success success
    exact ⟨octets, sends, index, List.mem_append_left _ member, isAnswer⟩
  · rw [same]
    intro stored agentError
    obtain ⟨octets, sends, status, index, member, isAnswer⟩ := answered.agentError stored agentError
    exact ⟨octets, sends, status, index, List.mem_append_left _ member, isAnswer⟩

theorem Answered.waited {events : List SyncEvent} (answered : Answered env request events state)
    (isWaiting : state.outcome = none) : (events ++ [SyncEvent.packet octets sends]).countP isTimeout ≤ state.retry ∧
      (events ++ [SyncEvent.packet octets sends]).countP isTimeout ≤ request.retries := by
  simpa [isTimeout] using answered.waiting isWaiting

variable (env request)

theorem syncStep_answered (events : List SyncEvent) (state : SyncState σ) (event : SyncEvent)
    (own : AnswersOwn scripts env request state event) (answered : Answered env request events state) :
    Answered env request (events ++ [event]) (syncStep scripts env request state event) := by
  by_cases isWaiting : state.outcome = none
  · have turn := syncStep_inv scripts env request state event
    generalize syncStep scripts env request state event = after at turn
    cases turn with
    | ended _ hasEnded => exact absurd isWaiting hasEnded
    | recvError => exact own.elim
    | retried sends =>
      have sent : sends = true := own
      have waited := answered.waiting isWaiting
      refine answered.later (by simp [sendPacket, sent, isWaiting]) fun _ => ?_
      simp only [sendPacket, List.countP_append, List.countP_singleton, isTimeout, if_true]
      omega
    | gaveUp => exact ⟨by simp, by simp, by simp, by simp, by simp⟩
    | aborted _ dies =>
      obtain ⟨_, message, pdu, received, survives, _⟩ := own
      rw [packetAborts, received] at dies
      exact absurd dies (by simp [survives])
    | resent =>
      refine answered.later (by simp [sendPacket, own.1, isWaiting]) fun _ => ?_
      exact ⟨Nat.le_succ_of_le (answered.waited isWaiting).1, (answered.waited isWaiting).2⟩
    | reported =>
      refine answered.later rfl fun _ => ?_
      exact ⟨Nat.le_succ_of_le (answered.waited isWaiting).1, (answered.waited isWaiting).2⟩
    | @answered octets sends _ isOk sameId =>
      refine ⟨fun _ => ?_, by simp, by simp, by simp, by simp⟩
      obtain ⟨index, isAnswer⟩ := (answers_own scripts env request own).1 isOk sameId
      exact ⟨octets, sends, index, by simp, isAnswer⟩
    | passed => exact answered.later rfl fun _ => answered.waited isWaiting
    | @refused octets sends _ isError =>
      obtain ⟨status, index, stored, hasError, isAnswer⟩ := (answers_own scripts env request own).2 isError
      refine ⟨by simp, fun other same => ?_, by simp, by simp, by simp⟩
      obtain rfl : other = some (status, index) := by
        rw [stored] at same
        simpa using same.symm
      exact ⟨octets, sends, status, index, by simp, rfl, hasError, isAnswer⟩
  · have unchanged : syncStep scripts env request state event = state := by
      unfold syncStep
      split
      · rfl
      next isNone =>
        exact absurd isNone isWaiting
    rw [unchanged]
    exact answered.later rfl fun isNone => absurd isNone isWaiting

end

/-- A request ends with the response that has its id, with its status and index, or with noResponse. -/
theorem sync_answered {σ : Type} (scripts : Scripts σ) (env : TclMib) (request : SyncRequest) (entity : Entity σ)
    (events : List SyncEvent)
    (own : Meets (syncStep scripts env request) (AnswersOwn scripts env request) (syncStart entity true) events) :
    match (syncRun scripts env request entity true events).outcome with
    | some .success => ∃ octets sends index, .packet octets sends ∈ events ∧
        IsAnswer env octets request.requestId 0 index
    | some (.agentError stored) => ∃ octets sends status index, .packet octets sends ∈ events ∧
        stored = some (status, index) ∧ status ≠ 0 ∧ IsAnswer env octets request.requestId status index
    | some .noResponse => True
    | some .failed | some .aborted => False
    | none => events.countP isTimeout ≤ request.retries := by
  have start : Answered env request [] (syncStart entity true) :=
    ⟨by simp [syncStart, sendPacket], by simp [syncStart, sendPacket], by simp [syncStart, sendPacket],
      by simp [syncStart, sendPacket], by simp⟩
  have answered : Answered env request ([] ++ events) (syncRun scripts env request entity true events) :=
    run_history (syncStep_answered scripts env request) start own
  split
  · exact answered.success ‹_›
  · exact answered.agentError _ ‹_›
  · trivial
  · exact answered.socket ‹_›
  · exact answered.alive ‹_›
  · exact (answered.waiting ‹_›).2

def responseSample (requestId status : UInt8) : Octets :=
  [0x30, 0x13, 0x02, 0x01, 0x00, 0x04, 0x01, 0x70, 0xa2, 0x0b, 0x02, 0x01, requestId, 0x02, 0x01, status,
    0x02, 0x01, 0x01, 0x30, 0x00]

def responsePdu (requestId status : Int) : Pdu VarBind :=
  { type := .response, requestId, errorStatus := status, errorIndex := 1, trapOid := "", varBinds := [] }

def responseMessage (requestId status : Int) : Message :=
  .community .v1 [0x70]
    ⟨{ type := .response, requestId, errorStatus := status, errorIndex := 1, trapOid := "", varBinds := [] }, none⟩

/-- The second transmission is answered; a response to some other request came before. -/
theorem sync_answered_retried :
    let events : List SyncEvent :=
      [.timeout true, .packet (responseSample 8 0) true, .packet (responseSample 7 5) true]
    (syncRun (quietScripts Unit) bareTcl ⟨0, 7, 1⟩ (agents [0]) true events).outcome =
        some (.agentError (some (5, 1))) ∧
      ∃ octets sends status index, .packet octets sends ∈ events ∧ some (5, 1) = some (status, index) ∧ status ≠ 0 ∧
        IsAnswer bareTcl octets 7 status index := by
  intro events
  have ended : (syncRun (quietScripts Unit) bareTcl ⟨0, 7, 1⟩ (agents [0]) true events).outcome =
      some (.agentError (some (5, 1))) := by decide
  have own : Meets (syncStep (quietScripts Unit) bareTcl ⟨0, 7, 1⟩)
      (AnswersOwn (quietScripts Unit) bareTcl ⟨0, 7, 1⟩) (syncStart (agents [0]) true) events := by
    refine ⟨rfl,
      ⟨rfl, responseMessage 8 0, responsePdu 8 0, by decide, by decide, fun _ => ?_, fun other => absurd rfl other⟩,
      ⟨rfl, responseMessage 7 5, responsePdu 7 5, by decide, by decide, fun _ => ?_, fun other => absurd rfl other⟩,
        trivial⟩
    · exact fun _ hasError => absurd rfl hasError
    · exact fun _ _ => rfl
  have answered := sync_answered (quietScripts Unit) bareTcl ⟨0, 7, 1⟩ (agents [0]) events own
  exact ⟨ended, answered⟩

/-- Request 7 is ended by a packet that cannot be decoded, and by the response to request 8. -/
theorem otherPackets_end : (syncRun (quietScripts Unit) bareTcl ⟨0, 7, 1⟩ (agents [0]) true [.packet [] true]).outcome =
        some (.agentError none) ∧
      (syncRun (quietScripts Unit) bareTcl ⟨0, 7, 1⟩ (agents [0]) true [.packet (responseSample 8 5) true]).outcome =
        some (.agentError (some (5, 1))) := by
  decide

end Tnm
