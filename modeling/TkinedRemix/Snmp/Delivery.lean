import TkinedRemix.Snmp.Reception

/-!
Who takes a packet: the loop over the open sessions serves those that accept it, until an inform is answered or
a reply fails.
-/

namespace Tnm

open List

def isAgentType (type : PduType) : Bool :=
  type == .get || type == .getnext || type == .getbulk || type == .set

def RecvEvent.session : RecvEvent → Nat
  | .binding session | .dequeued session | .callback session | .notified session | .agentRequest session
  | .responded session => session

def isOperation : RecvEvent → Bool
  | .agentRequest _ | .notified _ => true
  | _ => false

def isResponded : RecvEvent → Bool
  | .responded _ => true
  | _ => false

def operations (events : List RecvEvent) : Nat := events.countP isOperation

def responses (events : List RecvEvent) : Nat := events.countP isResponded

def takes (message : Message) (type : PduType) (session : SnmpSession) : Bool :=
  match type with
  | .trap1 | .trap2 => isTrapSession message type session
  | .inform => isInformSession message session
  | .getbulk | .get | .getnext | .set => isAgentSession message type session
  | .response | .report => false

theorem authentic_version {session : SnmpSession} {message : Message} {type : PduType}
    (isAuthentic : authentic session message type = true) : session.version = message.version := by
  simp only [authentic, Bool.and_eq_true, beq_iff_eq] at isAuthentic
  exact isAuthentic.1.symm

theorem takes_authentic {session : SnmpSession} {message : Message} {type : PduType}
    (taken : takes message type session = true) : authentic session message type = true := by
  cases type <;>
    simp only [takes, isTrapSession, isInformSession, isAgentSession, Bool.and_eq_true] at taken <;>
    tauto

section

variable {σ : Type} (scripts : Scripts σ) (message : Message) (pdu : Pdu VarBind)

@[simp] theorem evalRecv_session (session : Nat) (entity : Entity σ) :
    (evalRecv scripts session pdu entity).1.session = entity.session := by
  rw [evalRecv]
  split <;> rfl

theorem evalRecv_events (session : Nat) (entity : Entity σ) : (evalRecv scripts session pdu entity).2 =
      if boundCommand .recv (entity.session session) then [.binding session] else [] := by
  rw [evalRecv]
  split <;> rfl

def serve (session : Nat) (entity : Entity σ) : Delivery σ :=
  match pdu.type with
  | .trap1 | .trap2 => serveTrap scripts pdu session entity
  | .inform => serveInform scripts pdu session entity
  | _ => serveAgent scripts pdu session entity

section

variable (session : Nat) (entity : Entity σ)
include session entity

theorem deliverTo_eq : deliverTo scripts message pdu session entity =
      if takes message pdu.type (entity.session session) then serve scripts pdu session entity
      else ⟨entity, [], pdu.type, false⟩ := by
  rw [deliverTo]
  by_cases versions : (entity.session session).version ≠ message.version
  · have refused : takes message pdu.type (entity.session session) = false := by
      by_contra taken
      exact versions (authentic_version (takes_authentic (by simpa using taken)))
    rw [if_pos versions, refused, if_neg (by simp)]
  · rw [if_neg versions]
    cases type : pdu.type <;> simp only [takes, serve, type, Bool.false_eq_true, if_false]

theorem serve_session : (serve scripts pdu session entity).entity.session = entity.session := by
  rw [serve]
  split <;> simp [serveTrap, serveInform, serveAgent]

theorem serve_type : (serve scripts pdu session entity).type = if pdu.type = .inform then .response else pdu.type := by
  cases type : pdu.type <;> simp [serve, type, serveTrap, serveInform, serveAgent]

theorem serve_shape : ∃ operation reply,
    (serve scripts pdu session entity).events = (evalRecv scripts session pdu entity).2 ++ operation :: reply ∧
      (operation = .notified session ∨ operation = .agentRequest session ∧
        pdu.type ≠ .trap1 ∧ pdu.type ≠ .trap2 ∧ pdu.type ≠ .inform) ∧
      (reply = [] ∨ reply = [.responded session]) := by
  rw [serve]
  split
  · exact ⟨_, [], rfl, .inl rfl, .inl rfl⟩
  · exact ⟨_, [], rfl, .inl rfl, .inl rfl⟩
  · exact ⟨_, _, rfl, .inl rfl, by split <;> simp⟩
  · exact ⟨_, _, rfl, .inr ⟨rfl, ‹_›, ‹_›, ‹_›⟩, by split <;> simp⟩

theorem serve_events : operations (serve scripts pdu session entity).events = 1 ∧
      responses (serve scripts pdu session entity).events ≤ 1 ∧
      ∀ event ∈ (serve scripts pdu session entity).events, event.session = session := by
  obtain ⟨_, _, events, operates, replies⟩ := serve_shape scripts pdu session entity
  rw [events, evalRecv_events]
  rcases operates with rfl | ⟨rfl, _⟩ <;> rcases replies with rfl | rfl <;> split <;>
    simp [operations, responses, countP_cons, isOperation, isResponded, RecvEvent.session]

end

theorem operations_append (first second : List RecvEvent) :
    operations (first ++ second) = operations first + operations second :=
  countP_append

theorem responses_append (first second : List RecvEvent) :
    responses (first ++ second) = responses first + responses second :=
  countP_append

def Delivery.stop (served : Delivery σ) : Outcome σ := ⟨served.entity, served.events, .error, 0, none⟩

def Delivery.followed (served : Delivery σ) (later : Outcome σ) : Outcome σ :=
  { later with events := served.events ++ later.events }

@[simp] theorem Delivery.stop_events (served : Delivery σ) : served.stop.events = served.events := rfl

@[simp] theorem Delivery.followed_events (served : Delivery σ) (later : Outcome σ) :
    (served.followed later).events = served.events ++ later.events := rfl

def Pdu.withType (type : PduType) (pdu : Pdu VarBind) : Pdu VarBind := { pdu with type }

theorem deliver_cons (session : Nat) (rest : List Nat) (entity : Entity σ) :
    deliver scripts message pdu (session :: rest) entity = if takes message pdu.type (entity.session session) then
        if (serve scripts pdu session entity).failed then (serve scripts pdu session entity).stop
        else (serve scripts pdu session entity).followed (deliver scripts message
          (pdu.withType (serve scripts pdu session entity).type) rest (serve scripts pdu session entity).entity)
      else deliver scripts message pdu rest entity := by
  rw [deliver, deliverTo_eq]
  split
  · rfl
  · simp

theorem served_pdu (session : Nat) (entity : Entity σ) : pdu.withType (serve scripts pdu session entity).type =
      if pdu.type = .inform then pdu.withType .response else pdu := by
  rw [serve_type]
  split <;> rfl

variable {sessions : List Nat} {entity : Entity σ}

theorem deliver_refused (refused : ∀ session ∈ sessions, takes message pdu.type (entity.session session) = false) :
    deliver scripts message pdu sessions entity = ⟨entity, [], .continue_, 0, none⟩ := by
  induction sessions with
  | nil => rfl
  | cons session _ ih =>
    rw [deliver_cons, refused session (by simp)]
    exact ih fun other member => refused other (by simp [member])

theorem deliver_response (isResponse : pdu.type = .response) :
    deliver scripts message pdu sessions entity = ⟨entity, [], .continue_, 0, none⟩ := by
  refine deliver_refused scripts message pdu fun session _ => ?_
  rw [isResponse]
  rfl

@[simp] theorem deliver_session (sessions : List Nat) (entity : Entity σ) :
    (deliver scripts message pdu sessions entity).entity.session = entity.session := by
  induction sessions generalizing pdu entity with
  | nil => rfl
  | cons session _ ih =>
    rw [deliver_cons]
    have served := serve_session scripts pdu session entity
    split_ifs
    · exact served
    · exact (ih _ _).trans served
    · exact ih pdu entity

theorem deliver_forall {holds : RecvEvent → Prop}
    (served : ∀ session ∈ sessions, takes message pdu.type (entity.session session) = true →
      ∀ state : Entity σ, ∀ event ∈ (serve scripts pdu session state).events, holds event) :
    ∀ event ∈ (deliver scripts message pdu sessions entity).events, holds event := by
  induction sessions generalizing entity with
  | nil => simp [deliver]
  | cons session _ ih =>
    obtain ⟨first, others⟩ := forall_mem_cons.mp served
    rw [deliver_cons]
    split_ifs with taken
    · exact first taken entity
    · refine forall_mem_append.mpr ⟨first taken entity, ?_⟩
      rw [served_pdu]
      split_ifs with isInform
      · rw [deliver_response _ _ _ rfl]
        simp
      · exact ih (by rw [serve_session]; exact others)
    · exact ih others

theorem deliver_events : ∀ event ∈ (deliver scripts message pdu sessions entity).events, event.session ∈ sessions ∧
      takes message pdu.type (entity.session event.session) = true := by
  refine deliver_forall scripts message pdu fun session member taken state event inServed => ?_
  rw [(serve_events scripts pdu session state).2.2 event inServed]
  exact ⟨member, taken⟩

def fits (type : PduType) : RecvEvent → Bool
  | .agentRequest _ => isAgentType type
  | .callback _ | .dequeued _ => false
  | _ => true

theorem deliver_fits : ∀ event ∈ (deliver scripts message pdu sessions entity).events, fits pdu.type event = true := by
  refine deliver_forall scripts message pdu fun session _ taken state => ?_
  obtain ⟨operation, _, events, operates, replies⟩ := serve_shape scripts pdu session state
  have operation_fits : fits pdu.type operation = true := by
    rcases operates with rfl | ⟨rfl, _⟩
    · rfl
    · cases type : pdu.type <;> simp_all [fits, takes, isAgentType]
  rw [events, evalRecv_events]
  rcases replies with rfl | rfl <;> split <;> simpa [fits] using operation_fits

def takers (message : Message) (type : PduType) (configured : Nat → SnmpSession) (sessions : List Nat) : List Nat :=
  sessions.filter fun session => takes message type (configured session)

def Scripts.Replies : Prop :=
  ∀ session pdu world,
    (scripts.agentRequest session pdu world).sent = true ∧ (scripts.respond session pdu world).sent = true

theorem serve_of_replies (replies : scripts.Replies) (session : Nat) (entity : Entity σ) :
    (serve scripts pdu session entity).failed = false := by
  rw [serve]
  split
  · rfl
  · rfl
  · simp [serveInform, (replies _ _ _).2]
  · simp [serveAgent, (replies _ _ _).1]

theorem deliver_counts (notInform : pdu.type ≠ .inform) (sessions : List Nat) (entity : Entity σ) :
    operations (deliver scripts message pdu sessions entity).events ≤
        (takers message pdu.type entity.session sessions).length ∧
      responses (deliver scripts message pdu sessions entity).events ≤
        (takers message pdu.type entity.session sessions).length ∧
      (scripts.Replies → (takers message pdu.type entity.session sessions).length ≤
        operations (deliver scripts message pdu sessions entity).events) := by
  induction sessions generalizing entity with
  | nil => exact ⟨le_refl _, le_refl _, fun _ => le_refl _⟩
  | cons session _ ih =>
    have served := serve_events scripts pdu session entity
    rw [deliver_cons, served_pdu, takers, filter_cons]
    split
    · rw [length_cons]
      split
      next failed =>
        rw [Delivery.stop_events]
        refine ⟨by omega, by omega, fun replies => ?_⟩
        rw [serve_of_replies _ _ replies] at failed
        cases failed
      next =>
        have later := ih (serve scripts pdu session entity).entity
        rw [serve_session, takers] at later
        rw [Delivery.followed_events, operations_append, responses_append]
        refine ⟨by omega, by omega, fun replies => ?_⟩
        have all := later.2.2 replies
        omega
    · exact ih entity

theorem deliver_inform (isInform : pdu.type = .inform) (sessions : List Nat) (entity : Entity σ) :
    (deliver scripts message pdu sessions entity).events =
      (sessions.find? fun session => takes message pdu.type (entity.session session)).elim []
        fun session => (serve scripts pdu session entity).events := by
  induction sessions with
  | nil => rfl
  | cons first _ ih =>
    rw [deliver_cons, find?_cons]
    cases taken : takes message pdu.type (entity.session first) with
    | false =>
      exact ih
    | true =>
      rw [if_pos rfl, Option.elim_some]
      split
      · rfl
      · rw [served_pdu, if_pos isInform, Delivery.followed_events, deliver_response _ _ _ rfl, append_nil]

theorem deliver_inform_counts_le (isInform : pdu.type = .inform) (sessions : List Nat) (entity : Entity σ) :
    operations (deliver scripts message pdu sessions entity).events ≤ 1 ∧
      responses (deliver scripts message pdu sessions entity).events ≤ 1 := by
  rw [deliver_inform scripts message pdu isInform]
  cases sessions.find? _ with
  | none => exact ⟨Nat.zero_le _, Nat.zero_le _⟩
  | some session =>
    have served := serve_events scripts pdu session entity
    exact ⟨served.1.le, served.2.1⟩

theorem exists_of_operations {events : List RecvEvent} (some : operations events ≠ 0) : ∃ event, event ∈ events := by
  obtain ⟨event, member, _⟩ := countP_pos_iff.mp (Nat.pos_of_ne_zero some)
  exact ⟨event, member⟩

theorem serve_reaches (session : Nat) (entity : Entity σ) :
    ∃ event ∈ (serve scripts pdu session entity).events, event.session = session := by
  obtain ⟨once, _, owned⟩ := serve_events scripts pdu session entity
  obtain ⟨event, member⟩ := exists_of_operations (by rw [once]; decide)
  exact ⟨event, member, owned event member⟩

theorem deliver_reaches (replies : scripts.Replies) (notInform : pdu.type ≠ .inform) {session : Nat}
    (member : session ∈ sessions) (taken : takes message pdu.type (entity.session session) = true) :
    ∃ event ∈ (deliver scripts message pdu sessions entity).events, event.session = session := by
  induction sessions generalizing entity with
  | nil => simp at member
  | cons first _ ih =>
    rw [deliver_cons, served_pdu, serve_of_replies _ _ replies]
    rcases mem_cons.mp member with rfl | later
    · obtain ⟨event, inServed, owned⟩ := serve_reaches scripts pdu session entity
      rw [taken]
      exact ⟨event, by simp [inServed], owned⟩
    · split
      · rw [← serve_session scripts pdu first entity] at taken
        obtain ⟨event, inLater, owned⟩ := ih later taken
        exact ⟨event, by simp [inLater], owned⟩
      · exact ih later taken

theorem deliver_result (sessions : List Nat) (entity : Entity σ) :
    ((deliver scripts message pdu sessions entity).code = .continue_ ∨
        (deliver scripts message pdu sessions entity).code = .error ∧ ¬ scripts.Replies) ∧
      (deliver scripts message pdu sessions entity).status = none := by
  induction sessions generalizing pdu entity with
  | nil => exact ⟨.inl rfl, rfl⟩
  | cons _ _ ih =>
    rw [deliver_cons]
    split_ifs with taken failed
    · refine ⟨.inr ⟨rfl, fun replies => ?_⟩, rfl⟩
      rw [serve_of_replies _ _ replies] at failed
      exact absurd failed (by decide)
    · exact ih _ _
    · exact ih pdu entity

end

theorem process_request {σ : Type} (scripts : Scripts σ) (message : Message) {pdu : Pdu VarBind} (caller : Option Nat)
    (entity : Entity σ) (isRequest : isAgentType pdu.type = true ∨ pdu.type = .inform) :
    process scripts message pdu caller entity = deliver scripts message pdu entity.tnmSnmpList entity := by
  unfold process
  cases type : pdu.type with
  | report | response =>
    rw [type] at isRequest
    exact absurd isRequest (by decide)
  | _ => rfl

def quietScripts (σ : Type) : Scripts σ where
  recv := fun _ _ world => world
  callback := fun _ _ world => world
  notify := fun _ _ world => world
  agentRequest := fun _ _ world => ⟨world, true⟩
  respond := fun _ _ world => ⟨world, true⟩

/-- A request is executed by one session at most and answered once at most. -/
theorem request_once_iff (env : TclMib) {packet : Octets} {message : Message} {pdu : Pdu VarBind}
    (received : receive env packet = some (message, pdu)) (isRequest : isAgentType pdu.type = true ∨ pdu.type = .inform)
    (caller : Option Nat) {σ : Type} (entity : Entity σ) :
    (∀ scripts, operations (tnmSnmpDecode scripts env packet caller entity).events ≤ 1 ∧
        responses (tnmSnmpDecode scripts env packet caller entity).events ≤ 1) ↔
      pdu.type = .inform ∨ (takers message pdu.type entity.session entity.tnmSnmpList).length ≤ 1 := by
  have delivered : ∀ scripts, tnmSnmpDecode scripts env packet caller entity =
      deliver scripts message pdu entity.tnmSnmpList entity := by
    intro scripts
    rw [tnmSnmpDecode, received]
    exact process_request scripts message caller entity isRequest
  constructor
  · intro always
    by_cases isInform : pdu.type = .inform
    · exact .inl isInform
    · have once := (always (quietScripts σ)).1
      rw [delivered] at once
      exact .inr (((deliver_counts _ _ _ isInform _ _).2.2 fun _ _ _ => ⟨rfl, rfl⟩).trans once)
  · intro single scripts
    rw [delivered]
    by_cases isInform : pdu.type = .inform
    · exact deliver_inform_counts_le scripts message pdu isInform _ entity
    · have counts := deliver_counts scripts message pdu isInform entity.tnmSnmpList entity
      have one := single.resolve_left isInform
      exact ⟨counts.1.trans one, counts.2.1.trans one⟩

def getSample : Octets :=
  [0x30, 0x13, 0x02, 0x01, 0x00, 0x04, 0x01, 0x70, 0xa0, 0x0b, 0x02, 0x01, 0x07, 0x02, 0x01, 0x00, 0x02, 0x01, 0x00,
    0x30, 0x00]

def getSamplePdu : Pdu VarBind :=
  { type := .get, requestId := 7, errorStatus := 0, errorIndex := 0, trapOid := "", varBinds := [] }

def getSampleMessage : Message :=
  .community .v1 [0x70]
    ⟨{ type := .get, requestId := 7, errorStatus := 0, errorIndex := 0, trapOid := "", varBinds := [] }, none⟩

theorem getSample_received : receive bareTcl getSample = some (getSampleMessage, getSamplePdu) := by decide

def agentSession : SnmpSession where
  version := .v1
  type := .responder
  community := [0x70]
  user := []
  securityLevel := 0
  engineID := []
  engineBoots := 0
  engineTime := 0
  bindings := []

def agents (tnmSnmpList : List Nat) : Entity Unit := ⟨tnmSnmpList, fun _ => agentSession, ⟨[], ()⟩⟩

theorem request_once_iff_agent : isAgentType getSamplePdu.type = true ∧
      ∀ scripts, operations (tnmSnmpDecode scripts bareTcl getSample none (agents [0])).events ≤ 1 ∧
        responses (tnmSnmpDecode scripts bareTcl getSample none (agents [0])).events ≤ 1 :=
  ⟨by decide, (request_once_iff bareTcl getSample_received (.inl (by decide)) none (agents [0])).mpr
    (.inr (by decide))⟩

/-- Two agents with the same community: both execute the request and both answer it. -/
theorem twoAgents_twice :
    operations (tnmSnmpDecode (quietScripts Unit) bareTcl getSample none (agents [0, 1])).events = 2 ∧
      responses (tnmSnmpDecode (quietScripts Unit) bareTcl getSample none (agents [0, 1])).events = 2 := by
  decide

end Tnm
