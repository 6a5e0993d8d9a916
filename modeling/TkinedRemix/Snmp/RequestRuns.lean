import TkinedRemix.Snmp.RequestQueue

/-!
Runs of the request queue. One relation says what the activation loop can do; every invariant is derived from it.
-/

namespace Tnm

open Lib List Function

inductive Activates : List Request → (Nat → QueueSession) → Activation → Prop
  | stop (queue session) : Activates queue session ⟨queue, session, []⟩
  | send {request rest session later} : isActive request = false →
      ((session request.session).active < (session request.session).window ∨
        (session request.session).window = 0) →
      Activates rest (update session request.session (moveToActive (session request.session))) later →
      Activates (request :: rest) session
        ⟨transmit request :: later.queue, later.session, request.ptr :: later.sent⟩
  | skip {request rest session later} : Activates rest session later →
      Activates (request :: rest) session ⟨request :: later.queue, later.session, later.sent⟩

theorem activate_activates (window : Nat) (queue : List Request) (active waiting : Nat)
    (session : Nat → QueueSession) : Activates queue session (activate window queue active waiting session) := by
  induction queue generalizing active waiting session with
  | nil => exact .stop [] session
  | cons _ _ ih =>
    rw [activate]
    split_ifs with _ open_
    · exact .stop _ session
    · exact .send (by simpa using open_.1) open_.2 (ih _ _ _)
    · exact .skip (ih _ _ _)

theorem isActive_transmit (request : Request) : isActive (transmit request) = true := by
  simp [isActive, transmit]

section

variable {queue : List Request} {session : Nat → QueueSession} {result : Activation}

section

variable (activates : Activates queue session result)
include activates

theorem Activates.ptrs : result.queue.map (·.ptr) = queue.map (·.ptr) := by
  induction activates with
  | stop => rfl
  | send _ _ _ ih =>
    rw [map_cons, ih]
    rfl
  | skip _ ih => rw [map_cons, map_cons, ih]

theorem Activates.limits (sid : Nat) :
    (result.session sid).window = (session sid).window ∧ (result.session sid).retries = (session sid).retries := by
  induction activates with
  | stop => exact ⟨rfl, rfl⟩
  | @send request _ session _ _ _ _ ih =>
    rw [ih.1, ih.2]
    by_cases same : sid = request.session
    · subst same
      simp [moveToActive]
    · simp [update_of_ne same]
  | skip _ ih => exact ih

theorem Activates.counters (sid : Nat) :
    (result.session sid).active - activeOf sid result.queue = (session sid).active - activeOf sid queue ∧
      (result.session sid).waiting - waitingOf sid result.queue = (session sid).waiting - waitingOf sid queue := by
  induction activates with
  | stop => exact ⟨rfl, rfl⟩
  | @send request _ session _ waits _ _ ih =>
    have sent := isActive_transmit request
    have kept : (transmit request).session = request.session := rfl
    by_cases same : sid = request.session
    · subst same
      simp only [update_self, moveToActive] at ih
      simp only [activeOf, waitingOf, countP_cons, sent, kept, waits, beq_self_eq_true, Bool.and_self,
        Bool.not_true, Bool.not_false, Bool.and_false, if_true, if_false, Bool.false_eq_true] at ih ⊢
      omega
    · rw [update_of_ne same] at ih
      have other : (request.session == sid) = false := beq_false_of_ne (Ne.symm same)
      simp only [activeOf, waitingOf, countP_cons, kept, other] at ih ⊢
      exact ih
  | @skip _ _ _ _ _ ih =>
    simp only [activeOf, waitingOf, countP_cons] at ih ⊢
    omega

theorem Activates.window_kept (sid : Nat) (nonzero : (session sid).window ≠ 0)
    (within : (session sid).active ≤ (session sid).window) :
    (result.session sid).active ≤ (result.session sid).window := by
  induction activates with
  | stop => exact within
  | @send request _ session _ _ _ _ ih =>
    by_cases same : sid = request.session
    · subst same
      refine ih (by simpa [moveToActive] using nonzero) ?_
      simp only [update_self, moveToActive]
      omega
    · rw [update_of_ne same] at ih
      exact ih nonzero within
  | skip _ ih => exact ih nonzero within

theorem Activates.sent_sublist : result.sent.Sublist (queue.map (·.ptr)) := by
  induction activates with
  | stop => exact nil_sublist _
  | send _ _ _ ih => exact ih.cons_cons _
  | skip _ ih => exact ih.cons _

theorem Activates.sent_waiting :
    ∀ ptr ∈ result.sent, ∃ request ∈ queue, request.ptr = ptr ∧ isActive request = false := by
  induction activates with
  | stop => simp
  | @send request _ _ _ waits _ _ ih =>
    intro ptr member
    rcases mem_cons.mp member with rfl | inLater
    · exact ⟨request, by simp, rfl, waits⟩
    · obtain ⟨other, inRest, properties⟩ := ih ptr inLater
      exact ⟨other, by simp [inRest], properties⟩
  | skip _ ih =>
    intro ptr member
    obtain ⟨other, inRest, properties⟩ := ih ptr member
    exact ⟨other, by simp [inRest], properties⟩

theorem Activates.origin (distinct : (queue.map (·.ptr)).Nodup) :
    ∀ after ∈ result.queue, ∃ before ∈ queue, (after = before ∧ result.sent.count before.ptr = 0) ∨
        (isActive before = false ∧ after = transmit before ∧ result.sent.count before.ptr = 1) := by
  induction activates with
  | stop =>
    intro after member
    exact ⟨after, member, .inl ⟨rfl, rfl⟩⟩
  | @send request _ _ later waits _ inner ih =>
    rw [map_cons, nodup_cons] at distinct
    have fresh : later.sent.count request.ptr = 0 :=
      count_eq_zero.mpr fun member => distinct.1 (inner.sent_sublist.subset member)
    intro after member
    rcases mem_cons.mp member with rfl | inLater
    · exact ⟨request, by simp, .inr ⟨waits, rfl, by simp [fresh]⟩⟩
    · obtain ⟨before, isBefore, kind⟩ := ih distinct.2 after inLater
      have apart : request.ptr ≠ before.ptr := by
        intro same
        exact distinct.1 (List.mem_map.mpr ⟨before, isBefore, same.symm⟩)
      rw [← count_cons_of_ne apart] at kind
      exact ⟨before, by simp [isBefore], kind⟩
  | @skip request _ _ later inner ih =>
    rw [map_cons, nodup_cons] at distinct
    have fresh : later.sent.count request.ptr = 0 :=
      count_eq_zero.mpr fun member => distinct.1 (inner.sent_sublist.subset member)
    intro after member
    rcases mem_cons.mp member with rfl | inLater
    · exact ⟨after, by simp, .inl ⟨rfl, fresh⟩⟩
    · obtain ⟨before, isBefore, kind⟩ := ih distinct.2 after inLater
      exact ⟨before, by simp [isBefore], kind⟩

end

end

theorem activate_total (window : Nat) (nonzero : window ≠ 0) (queue : List Request) (active waiting : Nat)
    (session : Nat → QueueSession) : active + activeRequests (activate window queue active waiting session).queue ≤
      activeRequests queue + max active window := by
  induction queue generalizing active waiting session with
  | nil => simp [activate, activeRequests]
  | cons request _ ih =>
    rw [activate]
    split
    · simp only
      omega
    next below =>
      split
      · have later := ih (active + 1) (waiting - 1)
          (update session request.session (moveToActive (session request.session)))
        simp only [activeRequests, countP_cons] at later ⊢
        split <;> omega
      · have later := ih active waiting session
        simp only [activeRequests, countP_cons] at later ⊢
        omega

theorem activate_progress (window : Nat) (queue : List Request) (waiting : Nat) (session : Nat → QueueSession)
    (counted : waiting ≠ 0) (idle : ∀ request ∈ queue, (session request.session).active = 0)
    (waits : ∃ request ∈ queue, isActive request = false) :
    ∃ request ∈ (activate window queue 0 waiting session).queue, isActive request = true := by
  induction queue with
  | nil => simp at waits
  | cons request =>
    have going : ¬ (waiting = 0 ∨ (window ≠ 0 ∧ window ≤ 0)) := by omega
    rw [activate, if_neg going]
    split
    · exact ⟨transmit request, by simp, isActive_transmit request⟩
    next closed =>
      by_cases active : isActive request = true
      · exact ⟨request, by simp, active⟩
      · have room := idle request (by simp)
        have unsent : isActive request = false := by simpa using active
        refine absurd ⟨by simp [unsent], ?_⟩ closed
        omega

def enqueue (session : Nat) (id : Int) (manager : Manager) : Manager :=
  { manager with
    nextPtr := manager.nextPtr + 1
    log := manager.log ++ [.submitted manager.nextPtr session]
    queueHead := manager.queueHead ++ [⟨manager.nextPtr, id, session, 0, false⟩]
    session := update manager.session session (countWaiting (manager.session session)) }

def withdraw (front : List Request) (request : Request) (back : List Request) (manager : Manager) : Manager :=
  { manager with
    queueHead := front ++ back
    session := update manager.session request.session
      (uncount request (manager.session request.session)) }

def resend (front : List Request) (request : Request) (back : List Request) (manager : Manager) : Manager :=
  { manager with
    queueHead := front ++ transmit request :: back
    log := manager.log ++ [.sent request.ptr] }

inductive QueueStep (manager : Manager) : QueueAction → Manager → Prop
  | idle (action) : QueueStep manager action manager
  | createSession (window retries) :
      QueueStep manager (.createSession window retries) (tnmSnmpCreateSession window retries manager)
  | setWindow (session window) : QueueStep manager (.setWindow session window) { manager with
      session := update manager.session session { manager.session session with window } }
  | setRetries (session retries) : QueueStep manager (.setRetries session retries) { manager with
      session := update manager.session session { manager.session session with retries } }
  | submit {session} (id) : session ∈ manager.tnmSnmpList →
      QueueStep manager (.submit session id) (processQueue session (enqueue session id manager))
  | wait {session} : session ∈ manager.tnmSnmpList →
      QueueStep manager (.wait session) (processQueue session manager)
  | resent {front request back} : manager.queueHead = front ++ request :: back → request.timer = true →
      request.sends < 1 + (manager.session request.session).retries →
      QueueStep manager (.timeout request.ptr) (resend front request back manager)
  | expired {front request back} : manager.queueHead = front ++ request :: back → request.timer = true →
      ¬ request.sends < 1 + (manager.session request.session).retries →
      QueueStep manager (.timeout request.ptr)
        (runCallback request.ptr (processQueue request.session (withdraw front request back manager)))
  | respond {request} (id) : request ∈ manager.queueHead →
      QueueStep manager (.respond id) { manager with answering := request.ptr :: manager.answering }
  | answered {front request back answering} : manager.answering = request.ptr :: answering →
      manager.queueHead = front ++ request :: back →
      QueueStep manager .answer (runCallback request.ptr
        (processQueue request.session (withdraw front request back { manager with answering })))
  | late {ptr answering} : manager.answering = ptr :: answering → isQueued ptr manager = false →
      QueueStep manager .answer (runCallback ptr { manager with answering })
  | deleteRequest {front request back} : manager.queueHead = front ++ request :: back →
      QueueStep manager (.deleteRequest request.ptr)
        (processQueue request.session (withdraw front request back manager))
  | deleteSession (session) : QueueStep manager (.deleteSession session) (tnmSnmpDeleteSession session manager)

variable {request : Request}

theorem find_split {queue : List Request} {ptr : Nat} (found : queue.find? (·.ptr == ptr) = some request) :
    ∃ front back, queue = front ++ request :: back ∧ request.ptr = ptr ∧
      queue.eraseP (·.ptr == ptr) = front ++ back := by
  obtain ⟨isPtr, front, back, rfl, before⟩ := find?_eq_some_iff_append.mp found
  refine ⟨front, back, rfl, by simpa using isPtr, ?_⟩
  rw [eraseP_append_right _ (by simpa using before), eraseP_cons, isPtr]
  rfl

variable {front back : List Request}

theorem apart_of_nodup (distinct : ((front ++ request :: back).map (·.ptr)).Nodup) :
    ∀ other ∈ front ++ back, other.ptr ≠ request.ptr := by
  simp only [map_append] at distinct
  obtain ⟨_, inner, crossed⟩ := nodup_append.mp distinct
  intro other member same
  rcases mem_append.mp member with earlier | later
  · exact crossed _ (List.mem_map.mpr ⟨other, earlier, rfl⟩) _ (by simp) same
  · exact (nodup_cons.mp inner).1 (List.mem_map.mpr ⟨other, later, same⟩)

theorem map_split (change : Request → Request) (distinct : ((front ++ request :: back).map (·.ptr)).Nodup) :
    (front ++ request :: back).map (fun other => if other.ptr == request.ptr then change other else other) =
      front ++ change request :: back := by
  have unchanged : ∀ part : List Request, (∀ other ∈ part, other ∈ front ++ back) →
      part.map (fun other => if other.ptr == request.ptr then change other else other) = part := by
    intro _ isPart
    rw [map_congr_left (g := id), List.map_id]
    intro other member
    rw [beq_false_of_ne (apart_of_nodup distinct other (isPart other member))]
    rfl
  rw [map_append, map_cons, beq_self_eq_true, if_pos rfl,
    unchanged front fun other member => by simp [member], unchanged back fun other member => by simp [member]]

theorem tnmSnmpDeleteRequest_cases (ptr : Nat) (manager : Manager)
    (owned : ∀ request ∈ manager.queueHead, request.session ∈ manager.tnmSnmpList) :
    (isQueued ptr manager = false ∧ tnmSnmpDeleteRequest ptr manager = manager) ∨
      ∃ front request back, manager.queueHead = front ++ request :: back ∧ request.ptr = ptr ∧
        tnmSnmpDeleteRequest ptr manager = processQueue request.session (withdraw front request back manager) := by
  rw [tnmSnmpDeleteRequest]
  split
  next missing =>
    exact .inl ⟨by simpa [isQueued] using missing, rfl⟩
  next request found =>
    obtain ⟨front, back, split, isPtr, erased⟩ := find_split found
    rw [erased, if_pos (owned request (by simp [split]))]
    exact .inr ⟨front, request, back, split, isPtr, rfl⟩

def QueueEvent.ptr : QueueEvent → Nat
  | .submitted ptr _ | .sent ptr | .callback ptr _ => ptr

structure QueueOk (manager : Manager) : Prop where
  owned : ∀ request ∈ manager.queueHead, request.session ∈ manager.tnmSnmpList
  known : ∀ session ∈ manager.tnmSnmpList, session < manager.nextSession
  counters : ∀ session ∈ manager.tnmSnmpList,
    (manager.session session).active = activeOf session manager.queueHead ∧
      (manager.session session).waiting = waitingOf session manager.queueHead
  ordered : (manager.queueHead.map (·.ptr)).Pairwise (· < ·)
  fresh : ∀ request ∈ manager.queueHead, request.ptr < manager.nextPtr
  timers : ∀ request ∈ manager.queueHead, request.timer = isActive request
  sends : ∀ request ∈ manager.queueHead, request.sends = manager.log.count (.sent request.ptr)
  logged : ∀ event ∈ manager.log, event.ptr < manager.nextPtr
  answers : ∀ ptr ∈ manager.answering, ptr < manager.nextPtr

variable {manager : Manager}

theorem QueueOk.distinct (ok : QueueOk manager) : (manager.queueHead.map (·.ptr)).Nodup :=
  ok.ordered.imp fun below => Nat.ne_of_lt below

theorem QueueOk.step (ok : QueueOk manager) (action : QueueAction) :
    QueueStep manager action (queueStep manager action) := by
  have owned := ok.owned
  have distinct := ok.distinct
  cases action with
  | createSession window retries => exact .createSession window retries
  | setWindow session window => exact .setWindow session window
  | setRetries session retries => exact .setRetries session retries
  | submit _ id =>
    rw [queueStep, submitRequest]
    split
    · exact .submit id ‹_›
    · exact .idle _
  | wait =>
    rw [queueStep]
    split
    · exact .wait ‹_›
    · exact .idle _
  | timeout =>
    rw [queueStep, tnmSnmpTimeoutProc]
    split
    · exact .idle _
    next request found =>
      obtain ⟨front, back, split, rfl, erased⟩ := find_split found
      split_ifs with idle below
      · exact .idle _
      · rw [split] at distinct
        rw [split, map_split transmit distinct]
        exact .resent split (by simpa using idle) below
      · rw [tnmSnmpDeleteRequest, found]
        simp only
        rw [erased, if_pos (owned request (by simp [split]))]
        exact .expired split (by simpa using idle) below
  | respond id =>
    rw [queueStep]
    split
    · exact .idle _
    · exact .respond id (mem_of_find?_eq_some ‹_›)
  | answer =>
    rw [queueStep]
    split
    · exact .idle _
    next ptr answering pending =>
      rcases tnmSnmpDeleteRequest_cases ptr { manager with answering } owned with
        ⟨absent, unchanged⟩ | ⟨front, request, back, split, rfl, removed⟩
      · rw [unchanged]
        exact .late pending absent
      · rw [removed]
        exact .answered pending split
  | deleteRequest ptr =>
    rw [queueStep]
    rcases tnmSnmpDeleteRequest_cases ptr manager owned with
      ⟨_, unchanged⟩ | ⟨front, request, back, split, rfl, removed⟩
    · rw [unchanged]
      exact .idle _
    · rw [removed]
      exact .deleteRequest split
  | deleteSession session => exact .deleteSession session

theorem count_sent (sent : List Nat) (ptr : Nat) : (sent.map QueueEvent.sent).count (.sent ptr) = sent.count ptr := by
  induction sent with
  | nil => rfl
  | cons _ _ ih => simp [count_cons, ih]

theorem processQueue_activates (caller : Nat) (manager : Manager) :
    ∃ result, Activates manager.queueHead manager.session result ∧ processQueue caller manager = { manager with
        queueHead := result.queue
        session := result.session
        log := manager.log ++ result.sent.map .sent } :=
  ⟨_, activate_activates _ _ _ _ _, rfl⟩

/-- The requests of `sent` are transmitted, by the queue or by their timers. -/
structure Transmits (sent : List Nat) (before after : Manager) : Prop where
  same : after =
    { before with queueHead := after.queueHead, session := after.session, log := before.log ++ sent.map .sent }
  ptrs : after.queueHead.map (·.ptr) = before.queueHead.map (·.ptr)
  origin : ∀ later ∈ after.queueHead, ∃ earlier ∈ before.queueHead, (later = earlier ∧ sent.count earlier.ptr = 0) ∨
    (later = transmit earlier ∧ sent.count earlier.ptr = 1)
  subset : sent ⊆ before.queueHead.map (·.ptr)
  counters : ∀ sid, (after.session sid).active - activeOf sid after.queueHead =
      (before.session sid).active - activeOf sid before.queueHead ∧
    (after.session sid).waiting - waitingOf sid after.queueHead =
      (before.session sid).waiting - waitingOf sid before.queueHead

theorem processQueue_transmits (caller : Nat) (ok : QueueOk manager) :
    ∃ result, Activates manager.queueHead manager.session result ∧
      (processQueue caller manager).session = result.session ∧
      Transmits result.sent manager (processQueue caller manager) := by
  obtain ⟨result, activates, processed⟩ := processQueue_activates caller manager
  rw [processed]
  refine ⟨result, activates, rfl, rfl, activates.ptrs, ?_, activates.sent_sublist.subset, activates.counters⟩
  intro later member
  obtain ⟨earlier, isBefore, kept | ⟨_, sent⟩⟩ := activates.origin ok.distinct later member
  · exact ⟨earlier, isBefore, .inl kept⟩
  · exact ⟨earlier, isBefore, .inr sent⟩

theorem resend_transmits (split : manager.queueHead = front ++ request :: back) (timer : request.timer = true)
    (ok : QueueOk manager) : Transmits [request.ptr] manager (resend front request back manager) := by
  have active : isActive request = true := by rw [← ok.timers request (by simp [split]), timer]
  have distinct := ok.distinct
  rw [split] at distinct
  refine ⟨rfl, by simp [resend, split, transmit], ?_, by simp [split], fun sid => ?_⟩
  · intro later member
    by_cases isRequest : later = transmit request
    · exact ⟨request, by simp [split], .inr ⟨isRequest, count_singleton_self⟩⟩
    · have other : later ∈ front ++ back := by simpa [resend, isRequest] using member
      refine ⟨later, by rw [split]; simp at other ⊢; tauto, .inl ⟨rfl, ?_⟩⟩
      exact count_eq_zero.mpr fun same => apart_of_nodup distinct later other (mem_singleton.mp same)
  · have sent := isActive_transmit request
    have kept : (transmit request).session = request.session := rfl
    simp [resend, split, activeOf, waitingOf, countP_cons, sent, kept, active]

theorem Transmits.ok {sent : List Nat} {after : Manager} (transmits : Transmits sent manager after)
    (ok : QueueOk manager) :
    QueueOk after := by
  have origin := transmits.origin
  have ptrs := transmits.ptrs
  have counters := transmits.counters
  rw [transmits.same]
  refine ⟨?_, ok.known, ?_, ptrs ▸ ok.ordered, ?_, ?_, ?_, ?_, ok.answers⟩
  · intro later member
    obtain ⟨earlier, isBefore, ⟨rfl, _⟩ | ⟨rfl, _⟩⟩ := origin later member
    · exact ok.owned later isBefore
    · exact ok.owned earlier isBefore
  · intro session isOpen
    have moved := counters session
    have counted := ok.counters session isOpen
    simp only
    omega
  · intro later member
    obtain ⟨earlier, isBefore, ⟨rfl, _⟩ | ⟨rfl, _⟩⟩ := origin later member
    · exact ok.fresh later isBefore
    · exact ok.fresh earlier isBefore
  · intro later member
    obtain ⟨earlier, isBefore, ⟨rfl, _⟩ | ⟨rfl, _⟩⟩ := origin later member
    · exact ok.timers later isBefore
    · rfl
  · intro later member
    obtain ⟨earlier, isBefore, ⟨rfl, count⟩ | ⟨rfl, count⟩⟩ := origin later member
    · rw [count_append, count_sent, count, ok.sends later isBefore]
      rfl
    · have samePtr : (transmit earlier).ptr = earlier.ptr := rfl
      rw [count_append, count_sent, samePtr, count, ← ok.sends earlier isBefore]
      rfl
  · refine forall_mem_append.mpr ⟨ok.logged, fun event added => ?_⟩
    obtain ⟨_, isSent, rfl⟩ := List.mem_map.mp added
    obtain ⟨request, inQueue, rfl⟩ := List.mem_map.mp (transmits.subset isSent)
    exact ok.fresh request inQueue

theorem processQueue_ok (caller : Nat) (ok : QueueOk manager) : QueueOk (processQueue caller manager) := by
  obtain ⟨_, _, _, transmits⟩ := processQueue_transmits caller ok
  exact transmits.ok ok

theorem enqueue_ok {session : Nat} (id : Int) (isOpen : session ∈ manager.tnmSnmpList) (ok : QueueOk manager) :
    QueueOk (enqueue session id manager) := by
  have unsent : manager.log.count (.sent manager.nextPtr) = 0 :=
    count_eq_zero.mpr fun member => lt_irrefl _ (ok.logged _ member)
  refine ⟨?_, ok.known, ?_, ?_, ?_, ?_, ?_, ?_, fun ptr member => Nat.lt_succ_of_lt (ok.answers ptr member)⟩
  · exact forall_mem_append.mpr ⟨ok.owned, forall_mem_singleton.mpr isOpen⟩
  · intro other otherOpen
    have counted := ok.counters other otherOpen
    simp only [enqueue, activeOf, waitingOf] at counted ⊢
    by_cases same : other = session
    · subst same
      simp only [countWaiting]
      simp [isActive] at counted ⊢
      omega
    · rw [update_of_ne same]
      have apart : (session == other) = false := beq_false_of_ne (Ne.symm same)
      simp [apart, counted]
  · simp only [enqueue, map_append]
    refine pairwise_append.mpr ⟨ok.ordered, pairwise_singleton _ _, ?_⟩
    intro _ isFirst _ isSecond
    obtain ⟨request, member, rfl⟩ := List.mem_map.mp isFirst
    rw [mem_singleton.mp isSecond]
    exact ok.fresh request member
  · exact forall_mem_append.mpr ⟨fun request earlier => Nat.lt_succ_of_lt (ok.fresh request earlier),
      forall_mem_singleton.mpr (Nat.lt_succ_self _)⟩
  · exact forall_mem_append.mpr ⟨ok.timers, forall_mem_singleton.mpr rfl⟩
  · intro request member
    rw [enqueue, count_append]
    rcases mem_append.mp member with earlier | last
    · rw [ok.sends request earlier]
      simp
    · rw [mem_singleton.mp last]
      rw [unsent]
      simp
  · exact forall_mem_append.mpr ⟨fun event earlier => Nat.lt_succ_of_lt (ok.logged event earlier),
      forall_mem_singleton.mpr (Nat.lt_succ_self _)⟩

theorem withdraw_subset (split : manager.queueHead = front ++ request :: back) :
    ∀ other ∈ (withdraw front request back manager).queueHead, other ∈ manager.queueHead := by
  rw [split]
  exact forall_mem_append.mpr ⟨fun other earlier => by simp [earlier], fun other later => by simp [later]⟩

theorem withdraw_ok (split : manager.queueHead = front ++ request :: back) (ok : QueueOk manager) :
    QueueOk (withdraw front request back manager) := by
  have kept := withdraw_subset split
  refine ⟨fun other member => ok.owned other (kept other member), ok.known, ?_, ?_,
    fun other member => ok.fresh other (kept other member), fun other member => ok.timers other (kept other member),
    fun other member => ok.sends other (kept other member), ok.logged, ok.answers⟩
  · intro other otherOpen
    have counted := ok.counters other otherOpen
    rw [split] at counted
    simp only [withdraw, activeOf, waitingOf, countP_append, countP_cons] at counted ⊢
    by_cases same : other = request.session
    · subst same
      simp only [update_self, uncount, beq_self_eq_true, Bool.true_and] at counted ⊢
      cases active : isActive request <;>
      · simp only [active, Bool.not_false, Bool.not_true, if_true, Bool.false_eq_true, if_false] at counted ⊢
        omega
    · rw [update_of_ne same]
      have apart : (request.session == other) = false := beq_false_of_ne (Ne.symm same)
      simpa [apart] using counted
  · have ordered := ok.ordered
    rw [split] at ordered
    refine ordered.sublist ?_
    simp [withdraw]

theorem withdrawn_absent (caller : Nat) (split : manager.queueHead = front ++ request :: back) (ok : QueueOk manager) :
    isQueued request.ptr (processQueue caller (withdraw front request back manager)) = false := by
  have distinct := ok.distinct
  rw [split] at distinct
  obtain ⟨_, activates, processed⟩ := processQueue_activates caller (withdraw front request back manager)
  rw [processed, isQueued, List.any_eq_false]
  intro other member same
  have inPtrs : other.ptr ∈ (front ++ back).map (·.ptr) := by
    have ptrs := activates.ptrs
    rw [withdraw] at ptrs
    rw [← ptrs]
    exact List.mem_map.mpr ⟨other, member, rfl⟩
  obtain ⟨before, isBefore, samePtr⟩ := List.mem_map.mp inPtrs
  refine apart_of_nodup distinct before isBefore ?_
  rw [samePtr]
  simpa using same

theorem runCallback_ok {ptr : Nat} (known : ptr < manager.nextPtr) (ok : QueueOk manager) :
    QueueOk (runCallback ptr manager) := by
  refine ⟨ok.owned, ok.known, ok.counters, ok.ordered, ok.fresh, ok.timers, ?_, ?_, ok.answers⟩
  · intro request member
    rw [runCallback]
    simpa using ok.sends request member
  · exact forall_mem_append.mpr ⟨ok.logged, forall_mem_singleton.mpr known⟩

theorem tnmSnmpDeleteSession_ok (session : Nat) (ok : QueueOk manager) :
    QueueOk (tnmSnmpDeleteSession session manager) := by
  have kept : ∀ request ∈ manager.queueHead.filter (·.session != session),
      request ∈ manager.queueHead ∧ request.session ≠ session := by
    simp
  refine ⟨?_, ?_, ?_, ?_, fun request member => ok.fresh request (kept request member).1,
    fun request member => ok.timers request (kept request member).1,
    fun request member => ok.sends request (kept request member).1, ok.logged, ok.answers⟩
  · intro request member
    simp [tnmSnmpDeleteSession, ok.owned request (kept request member).1, (kept request member).2]
  · intro other member
    exact ok.known other (mem_filter.mp member).1
  · intro other member
    obtain ⟨isOpen, apart⟩ := mem_filter.mp member
    have others : ∀ kind : Request → Bool,
      manager.queueHead.countP (fun request => request.session == other && kind request) =
        manager.queueHead.countP fun request => (request.session == other && kind request) &&
            request.session != session := by
      intro kind
      refine countP_congr fun request _ => ?_
      simp only [Bool.and_eq_true, beq_iff_eq]
      refine (and_iff_left_of_imp fun same => ?_).symm
      rw [same.1]
      exact apart
    have counted := ok.counters other isOpen
    simp only [tnmSnmpDeleteSession, activeOf, waitingOf, countP_filter, others] at counted ⊢
    exact counted
  · exact ok.ordered.sublist (filter_sublist.map _)

theorem countP_of_absent {session : Nat} {queue : List Request} (kind : Request → Bool)
    (absent : ∀ request ∈ queue, request.session ≠ session) :
    queue.countP (fun request => request.session == session && kind request) = 0 := by
  rw [countP_eq_zero]
  intro request member
  simp [absent request member]

theorem tnmSnmpCreateSession_ok (window retries : Nat) (ok : QueueOk manager) :
    QueueOk (tnmSnmpCreateSession window retries manager) := by
  have absent : ∀ request ∈ manager.queueHead, request.session ≠ manager.nextSession :=
    fun request member => Nat.ne_of_lt (ok.known _ (ok.owned request member))
  refine ⟨?_, ?_, ?_, ok.ordered, ok.fresh, ok.timers, ok.sends, ok.logged, ok.answers⟩
  · intro request member
    simp [tnmSnmpCreateSession, ok.owned request member]
  · exact forall_mem_append.mpr ⟨fun session earlier => Nat.lt_succ_of_lt (ok.known session earlier),
      forall_mem_singleton.mpr (Nat.lt_succ_self _)⟩
  · intro session member
    simp only [tnmSnmpCreateSession]
    rcases mem_append.mp member with earlier | last
    · rw [update_of_ne (Nat.ne_of_lt (ok.known session earlier))]
      exact ok.counters session earlier
    · rw [mem_singleton.mp last, update_self, activeOf, waitingOf,
        countP_of_absent _ absent, countP_of_absent _ absent]
      exact ⟨rfl, rfl⟩

theorem configure_ok (session : Nat) {changed : QueueSession} (ok : QueueOk manager)
    (active : changed.active = (manager.session session).active)
    (waiting : changed.waiting = (manager.session session).waiting) :
    QueueOk { manager with session := update manager.session session changed } := by
  refine ⟨ok.owned, ok.known, ?_, ok.ordered, ok.fresh, ok.timers, ok.sends, ok.logged, ok.answers⟩
  intro other member
  by_cases same : other = session
  · subst same
    simpa only [update_self, active, waiting] using ok.counters other member
  · simpa only [update_of_ne same] using ok.counters other member

theorem answering_ok {answering : List Nat} (ok : QueueOk manager) (known : ∀ ptr ∈ answering, ptr < manager.nextPtr) :
    QueueOk { manager with answering } :=
  ⟨ok.owned, ok.known, ok.counters, ok.ordered, ok.fresh, ok.timers, ok.sends, ok.logged, known⟩

theorem QueueOk.answered {ptr : Nat} {answering : List Nat} (ok : QueueOk manager)
    (pending : manager.answering = ptr :: answering) : QueueOk { manager with answering } :=
  answering_ok ok fun other member => ok.answers other (pending ▸ mem_cons_of_mem _ member)

theorem QueueStep.ok {action : QueueAction} {after : Manager} (step : QueueStep manager action after)
    (ok : QueueOk manager) :
    QueueOk after := by
  cases step with
  | idle => exact ok
  | createSession window retries => exact tnmSnmpCreateSession_ok window retries ok
  | setWindow session | setRetries session => exact configure_ok session ok rfl rfl
  | submit id isOpen => exact processQueue_ok _ (enqueue_ok id isOpen ok)
  | wait => exact processQueue_ok _ ok
  | resent split timer => exact (resend_transmits split timer ok).ok ok
  | expired split =>
    exact runCallback_ok (ok.fresh _ (by simp [split])) (processQueue_ok _ (withdraw_ok split ok))
  | respond _ member => exact answering_ok ok (forall_mem_cons.mpr ⟨ok.fresh _ member, ok.answers⟩)
  | answered pending split =>
    exact runCallback_ok (ok.fresh _ (by simp [split])) (processQueue_ok _ (withdraw_ok split (ok.answered pending)))
  | late pending => exact runCallback_ok (ok.answers _ (by simp [pending])) (ok.answered pending)
  | deleteRequest split => exact processQueue_ok _ (withdraw_ok split ok)
  | deleteSession session => exact tnmSnmpDeleteSession_ok session ok

theorem init_ok : QueueOk Manager.init := by
  constructor <;> simp [Manager.init]

end Tnm
