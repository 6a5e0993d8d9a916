import TkinedRemix.Snmp.Delivery

/-!
What a packet needs to reach a session: `Authentic` compares the community or the user, and refuses messages
that are flagged. SNMPv3 reports are taken before any check.
-/

namespace Tnm

variable {σ : Type} {message : Message}

theorem authentic_community {session : SnmpSession} {type : PduType}
    (isAuthentic : authentic session message type = true) (noUser : session.version ≠ .v3)
    (noNotification : type ≠ .trap1 ∧ type ≠ .trap2 ∧ type ≠ .inform) :
    ∃ raw, message = .community session.version session.community raw := by
  have versions := authentic_version isAuthentic
  cases message with
  | usm => exact absurd versions noUser
  | community version _ raw =>
    simp only [authentic, Message.version, Bool.and_eq_true, beq_iff_eq, Bool.or_eq_true] at isAuthentic
    obtain ⟨sameVersion, _, (((isTrap | isTrap) | isInform) | sameName)⟩ := isAuthentic
    · exact absurd isTrap noNotification.1
    · exact absurd isTrap noNotification.2.1
    · exact absurd isInform noNotification.2.2
    · exact ⟨raw, by rw [sameVersion, sameName]⟩

variable {pdu : Pdu VarBind}

theorem tnmSnmpDecode_received (scripts : Scripts σ) {env : TclMib} {packet : Octets}
    (received : receive env packet = some (message, pdu)) (caller : Option Nat) (entity : Entity σ) :
    tnmSnmpDecode scripts env packet caller entity = process scripts message pdu caller entity := by
  rw [tnmSnmpDecode, received]

@[simp] theorem syncResponse_session (scripts : Scripts σ) (pdu : Pdu VarBind) (session : Nat) (entity : Entity σ) :
    (syncResponse scripts pdu session entity).entity.session = entity.session := by
  simp only [syncResponse]
  split <;> simp

theorem syncResponse_events (scripts : Scripts σ) (pdu : Pdu VarBind) (session : Nat) (entity : Entity σ) :
    (syncResponse scripts pdu session entity).events = (evalRecv scripts session pdu entity).2 := by
  simp only [syncResponse]
  split <;> rfl

inductive Processed (scripts : Scripts σ) (message : Message) (pdu : Pdu VarBind) (caller : Option Nat)
    (entity : Entity σ) : Outcome σ → Prop
  | report {header params scopedPdu session} : message = .usm header params scopedPdu → pdu.type = .report →
      reportTarget pdu.requestId caller entity = some session →
      Processed scripts message pdu caller entity (takeReport scripts params pdu session entity)
  | ignored (reqid) : (pdu.type = .report ∨ pdu.type = .response) →
      Processed scripts message pdu caller entity ⟨entity, [], .continue_, reqid, none⟩
  | sync {session} : pdu.type = .response → tnmSnmpFindRequest pdu.requestId entity = none → caller = some session →
      authentic (entity.session session) message pdu.type = true →
      Processed scripts message pdu caller entity (syncResponse scripts pdu session entity)
  | async {request} : pdu.type = .response → tnmSnmpFindRequest pdu.requestId entity = some request →
      authentic (entity.session request.session) message pdu.type = true →
      Processed scripts message pdu caller entity (asyncResponse scripts pdu request entity)
  | delivered : pdu.type ≠ .response →
      Processed scripts message pdu caller entity (deliver scripts message pdu entity.tnmSnmpList entity)

theorem process_inv (scripts : Scripts σ) (message : Message) (pdu : Pdu VarBind) (caller : Option Nat)
    (entity : Entity σ) : Processed scripts message pdu caller entity (process scripts message pdu caller entity) := by
  unfold process
  cases type : pdu.type with
  | report =>
    cases message with
    | community => exact .delivered (by simp [type])
    | usm =>
      cases target : reportTarget pdu.requestId caller entity with
      | none => exact .ignored 0 (.inl type)
      | some => exact .report rfl type target
  | response =>
    simp only [takeResponse]
    cases found : tnmSnmpFindRequest pdu.requestId entity with
    | none =>
      cases caller with
      | none => exact .ignored 0 (.inr type)
      | some =>
        simp only
        split
        · exact .sync type found rfl ‹_›
        · exact .ignored _ (.inr type)
    | some =>
      simp only
      split
      · exact .async type found ‹_›
      · exact .ignored 0 (.inr type)
  | _ => exact .delivered (by simp [type])

variable {scripts : Scripts σ} {session : Nat} {entity : Entity σ} {caller : Option Nat} {outcome : Outcome σ}

theorem Processed.guarded (processed : Processed scripts message pdu caller entity outcome)
    (event : .agentRequest session ∈ outcome.events ∨ .callback session ∈ outcome.events) :
    authentic (entity.session session) message pdu.type = true ∧
      pdu.type ≠ .trap1 ∧ pdu.type ≠ .trap2 ∧ pdu.type ≠ .inform := by
  cases processed with
  | report =>
    simp only [takeReport, evalRecv_events] at event
    split at event <;> simp at event
  | ignored => simp at event
  | sync =>
    simp only [syncResponse_events, evalRecv_events] at event
    split at event <;> simp at event
  | @async request isResponse _ isAuthentic =>
    have owner : session = request.session := by
      simp only [asyncResponse, evalRecv_events] at event
      split at event <;> simpa using event
    rw [owner, isResponse]
    rw [isResponse] at isAuthentic
    exact ⟨isAuthentic, by decide⟩
  | delivered =>
    rcases event with requested | called
    · refine ⟨takes_authentic (deliver_events scripts message pdu _ requested).2, ?_⟩
      have isAgent := deliver_fits scripts message pdu _ requested
      cases type : pdu.type <;> simp_all [fits, isAgentType]
    · exact absurd (deliver_fits scripts message pdu _ called) (by simp [fits])

/-- The pending requests and the waiting caller belong to open sessions. -/
structure Entity.Open (entity : Entity σ) (caller : Option Nat) : Prop where
  requests : ∀ request ∈ entity.world.requests, request.session ∈ entity.tnmSnmpList
  waiting : ∀ session, caller = some session → session ∈ entity.tnmSnmpList

theorem evalRecv_unbound (scripts : Scripts σ) (pdu : Pdu VarBind)
    (unbound : boundCommand .recv (entity.session session) = false) :
    evalRecv scripts session pdu entity = (entity, []) := by
  rw [evalRecv, unbound, if_neg (by simp)]

theorem reportTarget_open {requestId : Int} (isOpen : entity.Open caller)
    (target : reportTarget requestId caller entity = some session) : session ∈ entity.tnmSnmpList := by
  unfold reportTarget at target
  cases found : tnmSnmpFindRequest requestId entity with
  | none =>
    rw [found] at target
    exact isOpen.waiting session target
  | some request =>
    rw [found] at target
    cases target
    exact isOpen.requests request (List.mem_of_find?_eq_some found)

theorem Processed.refused (processed : Processed scripts message pdu caller entity outcome)
    (isOpen : entity.Open caller)
    (refused : ∀ session ∈ entity.tnmSnmpList, authentic (entity.session session) message pdu.type = false)
    (unbound : ∀ header params scopedPdu session, message = .usm header params scopedPdu → pdu.type = .report →
      reportTarget pdu.requestId caller entity = some session → boundCommand .recv (entity.session session) = false) :
    outcome.entity.world = entity.world := by
  cases processed with
  | report isUsm isReport target =>
    rw [takeReport, evalRecv_unbound scripts pdu (unbound _ _ _ _ isUsm isReport target)]
  | ignored => rfl
  | sync _ _ isCaller isAuthentic =>
    rw [refused _ (isOpen.waiting _ isCaller)] at isAuthentic
    exact absurd isAuthentic (by decide)
  | async _ found isAuthentic =>
    rw [refused _ (isOpen.requests _ (List.mem_of_find?_eq_some found))] at isAuthentic
    exact absurd isAuthentic (by decide)
  | delivered =>
    rw [deliver_refused scripts message pdu fun session member => ?_]
    by_contra taken
    have isAuthentic := takes_authentic (by simpa using taken)
    rw [refused session member] at isAuthentic
    exact absurd isAuthentic (by decide)

def submittingScripts (σ : Type) : Scripts σ :=
  { quietScripts σ with recv := fun session _ world => { world with requests := ⟨0, 0, session⟩ :: world.requests } }

def reportSample : Octets :=
  [0x30, 0x39, 0x02, 0x01, 0x03,
    0x30, 0x0d, 0x02, 0x01, 0x01, 0x02, 0x02, 0x01, 0xe4, 0x04, 0x01, 0x00, 0x02, 0x01, 0x03,
    0x04, 0x12, 0x30, 0x10, 0x04, 0x01, 0x09, 0x02, 0x01, 0x05, 0x02, 0x01, 0x06, 0x04, 0x01, 0x75, 0x04, 0x00,
    0x04, 0x00,
    0x30, 0x11, 0x04, 0x00, 0x04, 0x00, 0xa8, 0x0b, 0x02, 0x01, 0x07, 0x02, 0x01, 0x00, 0x02, 0x01, 0x00,
    0x30, 0x00]

def waitingEntity (session : SnmpSession) : Entity Unit :=
  ⟨[0], fun _ => { session with bindings := [⟨.recv, some "script"⟩] }, ⟨[⟨1, 7, 0⟩], ()⟩⟩

/-- The report is accepted by no session, and a script of the SNMPv1 session runs for it. -/
theorem reportSample_runsScript : (∃ message pdu, receive bareTcl reportSample = some (message, pdu) ∧
      ∀ session ∈ (waitingEntity agentSession).tnmSnmpList,
        authentic ((waitingEntity agentSession).session session) message pdu.type = false) ∧
    (tnmSnmpDecode (submittingScripts Unit) bareTcl reportSample none
      (waitingEntity agentSession)).entity.world.requests = [⟨0, 0, 0⟩, ⟨1, 7, 0⟩] := by
  constructor
  · cases received : receive bareTcl reportSample with
    | none => exact absurd received (by decide)
    | some found =>
      refine ⟨found.1, found.2, rfl, ?_⟩
      have refused : ((receive bareTcl reportSample).map fun found =>
          authentic ((waitingEntity agentSession).session 0) found.1 found.2.type) = some false := by decide
      rw [received] at refused
      intro session member
      obtain rfl : session = 0 := by simpa [waitingEntity] using member
      simpa using refused
  · decide

def tnmSnmpAuthMask : UInt8 := 0x0f
def tnmSnmpPrivMask : UInt8 := 0xf0

def authConfigured (session : SnmpSession) : Bool := session.securityLevel &&& tnmSnmpAuthMask != 0

def privConfigured (session : SnmpSession) : Bool := session.securityLevel &&& tnmSnmpPrivMask != 0

/-- The message is one of the user and the security level the session is configured for. -/
structure Secure (verifies : SnmpSession → Octets → Prop) (session : SnmpSession) (packet : Octets)
    (header : MsgHeader) (params : UsmParams) : Prop where
  user : params.user = session.user
  auth : (header.msgFlags &&& tnmSnmpFlagAuth != 0) = authConfigured session
  priv : (header.msgFlags &&& tnmSnmpFlagPriv != 0) = privConfigured session
  digest : authConfigured session = true → verifies session packet

/-- Packets other than reports that reach a session. -/
def Reaches (message : Message) (pdu : Pdu VarBind) (caller : Option Nat) (entity : Entity σ) (session : Nat) : Prop :=
  match pdu.type with
  | .response =>
    authentic (entity.session session) message pdu.type = true ∧
      match tnmSnmpFindRequest pdu.requestId entity with
      | some request => request.session = session
      | none => caller = some session ∧ boundCommand .recv (entity.session session) = true
  | .inform =>
    entity.tnmSnmpList.find? (fun session => takes message pdu.type (entity.session session)) = some session
  | _ => session ∈ entity.tnmSnmpList ∧ takes message pdu.type (entity.session session) = true

theorem authentic_usm {session : SnmpSession} {type : PduType} (isV3 : session.version = .v3)
    (isAuthentic : authentic session message type = true) :
    ∃ header params scopedPdu, message = .usm header params scopedPdu ∧ params.user = session.user ∧
      (header.msgFlags &&& tnmSnmpFlagAuth != 0) = false ∧ (header.msgFlags &&& tnmSnmpFlagPriv != 0) = false := by
  have versions := authentic_version isAuthentic
  cases message with
  | community version =>
    have isCommunity : version = .v3 := versions.symm.trans isV3
    simp [authentic, isCommunity] at isAuthentic
  | usm header params scopedPdu =>
    simp only [authentic, Bool.and_eq_true, beq_iff_eq] at isAuthentic
    exact ⟨header, params, scopedPdu, rfl, isAuthentic.2.2.symm, by simp [isAuthentic.2.1.1],
      by simp [isAuthentic.2.1.2]⟩

theorem secure_iff_of_authentic {verifies : SnmpSession → Octets → Prop} {session : SnmpSession} {packet : Octets}
    {header : MsgHeader} {params : UsmParams} (sameUser : params.user = session.user)
    (noAuth : (header.msgFlags &&& tnmSnmpFlagAuth != 0) = false)
    (noPriv : (header.msgFlags &&& tnmSnmpFlagPriv != 0) = false) :
    Secure verifies session packet header params ↔ authConfigured session = false ∧ privConfigured session = false := by
  constructor
  · intro secure
    exact ⟨secure.auth ▸ noAuth, secure.priv ▸ noPriv⟩
  · rintro ⟨auth, priv⟩
    exact ⟨sameUser, noAuth.trans auth.symm, noPriv.trans priv.symm,
      fun configured => absurd configured (by simp [auth])⟩

theorem reaches_authentic (reaches : Reaches message pdu caller entity session) :
    authentic (entity.session session) message pdu.type = true := by
  unfold Reaches at reaches
  cases type : pdu.type with
  | response =>
    simp only [type] at reaches
    exact reaches.1
  | inform =>
    simp only [type] at reaches
    have taken := List.find?_some reaches
    exact takes_authentic taken
  | _ =>
    simp only [type] at reaches
    exact takes_authentic reaches.2

theorem Processed.event {event : RecvEvent} (processed : Processed scripts message pdu caller entity outcome)
    (member : event ∈ outcome.events) :
    Reaches message pdu caller entity event.session ∨
      (∃ header params scopedPdu, message = .usm header params scopedPdu) ∧ pdu.type = .report ∧
        reportTarget pdu.requestId caller entity = some event.session ∧
        boundCommand .recv (entity.session event.session) = true := by
  cases processed with
  | @report header params scopedPdu _ isUsm isReport target =>
    simp only [takeReport, evalRecv_events] at member
    split at member
    · rw [List.mem_singleton.mp member]
      exact .inr ⟨⟨header, params, scopedPdu, isUsm⟩, isReport, target, ‹_›⟩
    · simp at member
  | ignored => simp at member
  | @sync session isResponse found isCaller isAuthentic =>
    left
    have bound : boundCommand .recv (entity.session session) = true ∧ event = .binding session := by
      simp only [syncResponse_events, evalRecv_events] at member
      split at member <;> simp_all
    rw [bound.2, Reaches]
    simp only [isResponse, found]
    rw [isResponse] at isAuthentic
    exact ⟨isAuthentic, isCaller, bound.1⟩
  | @async request isResponse found isAuthentic =>
    left
    have owner : event.session = request.session := by
      simp only [asyncResponse, evalRecv_events] at member
      split at member <;> simp at member <;> rcases member with rfl | rfl | rfl <;> rfl
    rw [owner, Reaches]
    simp only [isResponse, found]
    rw [isResponse] at isAuthentic
    exact ⟨isAuthentic, trivial⟩
  | delivered notResponse =>
    left
    obtain ⟨inList, taken⟩ := deliver_events scripts message pdu event member
    unfold Reaches
    cases type : pdu.type with
    | response => exact absurd type notResponse
    | inform =>
      rw [deliver_inform scripts message pdu type] at member
      rw [type] at member
      cases first : entity.tnmSnmpList.find? fun session => takes message .inform (entity.session session) with
      | none => simp [first] at member
      | some session =>
        rw [first] at member
        rw [(serve_events scripts pdu session entity).2.2 event member]
    | _ => exact ⟨inList, type ▸ taken⟩

/-- No session does anything for a packet that it does not accept, which for one of SNMPv1 or SNMPv2c takes its
version and community. -/
theorem community_required_iff (env : TclMib) (packet : Octets) {caller : Option Nat} {entity : Entity σ}
    (isOpen : entity.Open caller) : (∀ scripts, (∀ session, (entity.session session).version ≠ .v3 →
        (.agentRequest session ∈ (tnmSnmpDecode scripts env packet caller entity).events ∨
          .callback session ∈ (tnmSnmpDecode scripts env packet caller entity).events) → ∃ raw pdu, receive env packet =
          some (.community (entity.session session).version (entity.session session).community raw, pdu)) ∧
      (∀ message pdu session, receive env packet = some (message, pdu) →
        authentic (entity.session session) message pdu.type = false →
        ∀ event ∈ (tnmSnmpDecode scripts env packet caller entity).events, event.session ≠ session) ∧
      ((∀ message pdu, receive env packet = some (message, pdu) →
          ∀ session ∈ entity.tnmSnmpList, authentic (entity.session session) message pdu.type = false) →
        (tnmSnmpDecode scripts env packet caller entity).entity.world = entity.world)) ↔
    ∀ header params scopedPdu pdu session, receive env packet = some (.usm header params scopedPdu, pdu) →
      pdu.type = .report → reportTarget pdu.requestId caller entity = some session →
      boundCommand .recv (entity.session session) = true →
      authentic (entity.session session) (.usm header params scopedPdu) pdu.type = true := by
  constructor
  · intro always header params scopedPdu pdu session received isReport target bound
    by_contra refused
    refine (always (quietScripts σ)).2.1 _ pdu session received (by simpa using refused) (.binding session) ?_ rfl
    rw [tnmSnmpDecode_received _ received]
    simp [process, isReport, target, takeReport, evalRecv_events, bound]
  · intro accepted scripts
    cases received : receive env packet with
    | none =>
      rw [tnmSnmpDecode, received]
      simp
    | some found =>
      obtain ⟨message, pdu⟩ := found
      rw [tnmSnmpDecode, received]
      have processed := process_inv scripts message pdu caller entity
      refine ⟨?_, ?_, ?_⟩
      · intro session noUser event
        obtain ⟨isAuthentic, noNotification⟩ := processed.guarded event
        obtain ⟨raw, isCommunity⟩ := authentic_community isAuthentic noUser noNotification
        exact ⟨raw, pdu, by rw [isCommunity]⟩
      · rintro _ _ _ same refused event member rfl
        cases same
        have isAuthentic : authentic (entity.session event.session) message pdu.type = true := by
          rcases processed.event member with reaches | ⟨⟨header, params, scopedPdu, rfl⟩, isReport, target, bound⟩
          · exact reaches_authentic reaches
          · exact accepted header params scopedPdu pdu _ received isReport target bound
        exact absurd isAuthentic (by simp [refused])
      · intro refused
        refine processed.refused isOpen (refused message pdu rfl) ?_
        rintro header params scopedPdu session rfl isReport target
        by_contra bound
        have isAuthentic := accepted header params scopedPdu pdu session received isReport target (by simpa using bound)
        rw [refused _ pdu rfl session (reportTarget_open isOpen target)] at isAuthentic
        exact absurd isAuthentic (by decide)

theorem community_required_iff_agent : (agents [0]).Open none ∧ ∀ scripts,
        (∀ session, ((agents [0]).session session).version ≠ .v3 →
          (.agentRequest session ∈ (tnmSnmpDecode scripts bareTcl getSample none (agents [0])).events ∨
            .callback session ∈ (tnmSnmpDecode scripts bareTcl getSample none (agents [0])).events) →
          ∃ raw pdu, receive bareTcl getSample = some (.community ((agents [0]).session session).version
            ((agents [0]).session session).community raw, pdu)) ∧
        (∀ message pdu session, receive bareTcl getSample = some (message, pdu) →
          authentic ((agents [0]).session session) message pdu.type = false →
          ∀ event ∈ (tnmSnmpDecode scripts bareTcl getSample none (agents [0])).events, event.session ≠ session) ∧
        ((∀ message pdu, receive bareTcl getSample = some (message, pdu) →
            ∀ session ∈ (agents [0]).tnmSnmpList, authentic ((agents [0]).session session) message pdu.type = false) →
          (tnmSnmpDecode scripts bareTcl getSample none (agents [0])).entity.world = (agents [0]).world) := by
  have isOpen : (agents [0]).Open none := ⟨by simp [agents], by simp⟩
  refine ⟨isOpen, (community_required_iff bareTcl getSample isOpen).mpr ?_⟩
  intro _ _ _ _ _ received
  cases getSample_received.symm.trans received

theorem Processed.changes (processed : Processed scripts message pdu caller entity outcome)
    (changed : outcome.entity.session session ≠ entity.session session) :
    ∃ header params scopedPdu, message = .usm header params scopedPdu ∧ pdu.type = .report ∧
      reportTarget pdu.requestId caller entity = some session ∧
      takeEngine params (entity.session session) ≠ entity.session session := by
  cases processed with
  | @report header params scopedPdu target isUsm isReport isTarget =>
    simp only [takeReport, evalRecv_session] at changed
    by_cases same : session = target
    · subst same
      rw [Function.update_self] at changed
      exact ⟨header, params, scopedPdu, isUsm, isReport, isTarget, changed⟩
    · exact absurd (Function.update_of_ne same _ _) changed
  | ignored => exact absurd rfl changed
  | sync => simp at changed
  | async => simp [asyncResponse] at changed
  | delivered => simp at changed

theorem process_reaches (replies : scripts.Replies) (reaches : Reaches message pdu caller entity session) :
    ∃ event ∈ (process scripts message pdu caller entity).events, event.session = session := by
  have isAuthentic := reaches_authentic reaches
  unfold Reaches at reaches
  unfold process
  cases type : pdu.type with
  | response =>
    simp only [type] at reaches isAuthentic
    simp only [takeResponse]
    cases found : tnmSnmpFindRequest pdu.requestId entity with
    | none =>
      simp only [found] at reaches
      obtain ⟨_, rfl, bound⟩ := reaches
      refine ⟨.binding session, ?_, rfl⟩
      simp [type, isAuthentic, syncResponse_events, evalRecv_events, bound]
    | some request =>
      simp only [found] at reaches
      obtain ⟨_, rfl⟩ := reaches
      refine ⟨.callback request.session, ?_, rfl⟩
      simp [type, isAuthentic, asyncResponse]
  | inform =>
    simp only [type] at reaches
    rw [deliver_inform scripts message pdu type, type, reaches]
    exact serve_reaches scripts pdu session entity
  | report =>
    simp only [type] at reaches
    exact absurd reaches.2 (by simp [takes])
  | _ =>
    simp only [type] at reaches
    exact deliver_reaches scripts message pdu replies (by simp [type]) reaches.1 (by rw [type]; exact reaches.2)

/-- A packet changes an SNMPv3 session or runs something of it only with the security the session asks for. -/
theorem security_required_iff (verifies : SnmpSession → Octets → Prop) (env : TclMib) (packet : Octets)
    (caller : Option Nat) (entity : Entity σ) : (∀ scripts session, (entity.session session).version = .v3 →
      ((tnmSnmpDecode scripts env packet caller entity).entity.session session ≠ entity.session session ∨
        ∃ event ∈ (tnmSnmpDecode scripts env packet caller entity).events, event.session = session) →
      ∃ header params scopedPdu pdu, receive env packet = some (.usm header params scopedPdu, pdu) ∧
        Secure verifies (entity.session session) packet header params) ↔
    ∀ header params scopedPdu pdu session, receive env packet = some (.usm header params scopedPdu, pdu) →
      (entity.session session).version = .v3 →
      (pdu.type = .report → reportTarget pdu.requestId caller entity = some session →
        (takeEngine params (entity.session session) ≠ entity.session session ∨
          boundCommand .recv (entity.session session) = true) →
        Secure verifies (entity.session session) packet header params) ∧
      (Reaches (.usm header params scopedPdu) pdu caller entity session →
        authConfigured (entity.session session) = false ∧ privConfigured (entity.session session) = false) := by
  constructor
  · intro always header params scopedPdu pdu session received isV3
    have secured : ((tnmSnmpDecode (quietScripts σ) env packet caller entity).entity.session session ≠
          entity.session session ∨
        ∃ event ∈ (tnmSnmpDecode (quietScripts σ) env packet caller entity).events, event.session = session) →
        Secure verifies (entity.session session) packet header params := by
      intro touched
      obtain ⟨_, _, _, _, same, secure⟩ := always (quietScripts σ) session isV3 touched
      cases received.symm.trans same
      exact secure
    rw [tnmSnmpDecode, received] at secured
    constructor
    · intro isReport target touched
      apply secured
      simp only [process, isReport, target, takeReport, evalRecv_session, Function.update_self, evalRecv_events]
      rcases touched with engine | bound
      · exact .inl engine
      · exact .inr ⟨.binding session, by simp [bound], rfl⟩
    · intro reaches
      have secure := secured (.inr (process_reaches (fun _ _ _ => ⟨rfl, rfl⟩) reaches))
      obtain ⟨_, _, _, same, sameUser, noAuth, noPriv⟩ := authentic_usm isV3 (reaches_authentic reaches)
      cases same
      exact (secure_iff_of_authentic sameUser noAuth noPriv).mp secure
  · intro condition _ session isV3 touched
    cases received : receive env packet with
    | none =>
      rw [tnmSnmpDecode, received] at touched
      simp at touched
    | some found =>
      obtain ⟨message, pdu⟩ := found
      rw [tnmSnmpDecode, received] at touched
      have cases : Reaches message pdu caller entity session ∨
          ∃ header params scopedPdu, message = .usm header params scopedPdu ∧ pdu.type = .report ∧
            reportTarget pdu.requestId caller entity = some session ∧
            (takeEngine params (entity.session session) ≠ entity.session session ∨
              boundCommand .recv (entity.session session) = true) := by
        rcases touched with changed | ⟨_, member, rfl⟩
        · obtain ⟨header, params, scopedPdu, isUsm, isReport, target, engine⟩ := (process_inv ..).changes changed
          exact .inr ⟨header, params, scopedPdu, isUsm, isReport, target, .inl engine⟩
        · rcases (process_inv ..).event member with reaches | ⟨⟨header, params, scopedPdu, isUsm⟩, isReport, target,
            bound⟩
          · exact .inl reaches
          · exact .inr ⟨header, params, scopedPdu, isUsm, isReport, target, .inr bound⟩
      rcases cases with reaches | ⟨header, params, scopedPdu, rfl, isReport, target, touches⟩
      · obtain ⟨header, params, scopedPdu, rfl, sameUser, noAuth, noPriv⟩ :=
          authentic_usm isV3 (reaches_authentic reaches)
        refine ⟨header, params, scopedPdu, pdu, rfl, (secure_iff_of_authentic sameUser noAuth noPriv).mpr ?_⟩
        exact (condition header params scopedPdu pdu session received isV3).2 reaches
      · refine ⟨header, params, scopedPdu, pdu, rfl, ?_⟩
        exact (condition header params scopedPdu pdu session received isV3).1 isReport target touches

def userSession : SnmpSession :=
  { agentSession with version := .v3, type := .generator, user := [0x76], securityLevel := 0x01 }

/-- An unauthenticated report of user u sets the engine of a session of user v. -/
theorem reportSample_setsEngine :
    let outcome := tnmSnmpDecode (quietScripts Unit) bareTcl reportSample none (waitingEntity userSession)
    ((outcome.entity.session 0).engineID, (outcome.entity.session 0).engineBoots,
      (outcome.entity.session 0).engineTime) =
        ([0x09], 5, 6) ∧
      ∀ verifies header params scopedPdu pdu,
        receive bareTcl reportSample = some (.usm header params scopedPdu, pdu) →
        ¬ Secure verifies ((waitingEntity userSession).session 0) reportSample header params := by
  refine ⟨by decide, fun verifies header params scopedPdu pdu received secure => ?_⟩
  have user : ((receive bareTcl reportSample).map fun found =>
      found.1.casesOn (fun _ _ _ => []) fun _ params _ => params.user) = some [0x75] := by decide
  rw [received] at user
  have named : params.user = [0x75] := by simpa using user
  rw [secure.user] at named
  exact absurd named (by decide)

end Tnm
