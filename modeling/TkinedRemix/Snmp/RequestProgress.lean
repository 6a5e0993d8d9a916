import TkinedRemix.Snmp.RequestRuns

/-!
Progress of the request queue: `TnmSnmpQueueRequest` never leaves requests waiting without an active one.
-/

namespace Tnm

open Lib List Function

def someActive (queue : List Request) : Prop := ∃ request ∈ queue, isActive request = true

def someWaiting (queue : List Request) : Prop := ∃ request ∈ queue, isActive request = false

def Progresses (manager : Manager) : Prop := someWaiting manager.queueHead → someActive manager.queueHead

variable {manager : Manager} {queue : List Request}

theorem activeRequests_eq_zero (none : ¬ someActive queue) : activeRequests queue = 0 := by
  rw [activeRequests, countP_eq_zero]
  exact fun request member active => none ⟨request, member, active⟩

variable {result : Activation}

theorem Activates.someActive {session : Nat → QueueSession} (activates : Activates queue session result)
    (active : someActive queue) : someActive result.queue := by
  induction activates with
  | stop => exact active
  | @send request => exact ⟨transmit request, by simp, isActive_transmit request⟩
  | @skip _ _ _ _ _ ih =>
    obtain ⟨other, member, isSent⟩ := active
    rcases mem_cons.mp member with rfl | inRest
    · exact ⟨other, by simp, isSent⟩
    · obtain ⟨after, inLater, wasSent⟩ := ih ⟨other, inRest, isSent⟩
      exact ⟨after, by simp [inLater], wasSent⟩

theorem processQueue_progresses (caller : Nat) (ok : QueueOk manager) : Progresses (processQueue caller manager) := by
  intro waiting
  have activates := activate_activates (manager.session caller).window manager.queueHead
    (activeRequests manager.queueHead) (waitingRequests manager.queueHead) manager.session
  by_cases active : someActive manager.queueHead
  · exact activates.someActive active
  · obtain ⟨later, inLater, unsent⟩ := waiting
    obtain ⟨request, member, kind⟩ := activates.origin ok.distinct later inLater
    have waits : isActive request = false := by
      rcases kind with ⟨rfl, _⟩ | ⟨waits, _⟩
      · exact unsent
      · exact waits
    have idle := activeRequests_eq_zero active
    have counted : waitingRequests manager.queueHead ≠ 0 := by
      exact Nat.ne_of_gt (countP_pos_iff.mpr ⟨request, member, by simp [waits]⟩)
    rw [processQueue, idle]
    refine activate_progress _ _ _ _ counted (fun other isQueued => ?_) ⟨request, member, waits⟩
    rw [(ok.counters other.session (ok.owned other isQueued)).1]
    refine Int.natCast_eq_zero.mpr (countP_eq_zero.mpr fun third isThird both => active ⟨third, isThird, ?_⟩)
    simpa using (Bool.and_eq_true _ _ ▸ both).2

theorem resend_progresses (front : List Request) (request : Request) (back : List Request) :
    Progresses (resend front request back manager) :=
  fun _ => ⟨transmit request, by simp [resend], isActive_transmit request⟩

/-- A session is closed while another one has an active request, or none that waits. -/
def RestartsQueue (manager : Manager) : QueueAction → Prop
  | .deleteSession session =>
    someWaiting (manager.queueHead.filter (·.session != session)) →
      someActive (manager.queueHead.filter (·.session != session))
  | _ => True

theorem QueueStep.progresses {action : QueueAction} {after : Manager} (step : QueueStep manager action after)
    (restarts : RestartsQueue manager action) (ok : QueueOk manager ∧ Progresses manager) :
    QueueOk after ∧ Progresses after := by
  refine ⟨step.ok ok.1, ?_⟩
  cases step with
  | idle | createSession | setWindow | setRetries | respond | late => exact ok.2
  | submit id isOpen => exact processQueue_progresses _ (enqueue_ok id isOpen ok.1)
  | wait => exact processQueue_progresses _ ok.1
  | resent => exact resend_progresses _ _ _
  | expired split | deleteRequest split => exact processQueue_progresses _ (withdraw_ok split ok.1)
  | answered pending split =>
    exact processQueue_progresses _ (withdraw_ok split (ok.1.answered pending))
  | deleteSession => exact restarts

theorem queueStep_progresses (manager : Manager) (action : QueueAction) (restarts : RestartsQueue manager action)
    (ok : QueueOk manager ∧ Progresses manager) :
    QueueOk (queueStep manager action) ∧ Progresses (queueStep manager action) :=
  (ok.1.step action).progresses restarts ok

def Descends (before after : Manager) : Prop :=
  ∀ later ∈ after.queueHead, ∃ earlier ∈ before.queueHead,
    earlier.ptr = later.ptr ∧ earlier.session = later.session ∧ earlier.sends ≤ later.sends

variable {before after : Manager}

theorem Descends.of_subset (subset : ∀ request ∈ after.queueHead, request ∈ before.queueHead) : Descends before after :=
  fun later member => ⟨later, subset later member, rfl, rfl, le_refl _⟩

variable {first second third : Manager}

theorem Descends.trans (front : Descends first second) (back : Descends second third) : Descends first third := by
  intro later member
  obtain ⟨middle, inMiddle, samePtr, sameSession, sends⟩ := back later member
  obtain ⟨earlier, inFirst, firstPtr, firstSession, firstSends⟩ := front middle inMiddle
  exact ⟨earlier, inFirst, firstPtr.trans samePtr, firstSession.trans sameSession, firstSends.trans sends⟩

theorem Transmits.descends {sent : List Nat} (transmits : Transmits sent before after) : Descends before after := by
  intro later member
  obtain ⟨earlier, isBefore, ⟨rfl, _⟩ | ⟨rfl, _⟩⟩ := transmits.origin later member
  · exact ⟨later, isBefore, rfl, rfl, le_refl _⟩
  · exact ⟨earlier, isBefore, rfl, rfl, Nat.le_succ _⟩

theorem processQueue_descends (caller : Nat) (ok : QueueOk manager) :
    Descends manager (processQueue caller manager) := by
  obtain ⟨_, _, _, transmits⟩ := processQueue_transmits caller ok
  exact transmits.descends

variable {front back : List Request} {request : Request}

theorem withdraw_descends (caller : Nat) (split : manager.queueHead = front ++ request :: back) (ok : QueueOk manager) :
    Descends manager (processQueue caller (withdraw front request back manager)) :=
  (Descends.of_subset (withdraw_subset split)).trans (processQueue_descends _ (withdraw_ok split ok))

section

variable {action : QueueAction} (step : QueueStep manager action after)
include step

theorem QueueStep.origin (ok : QueueOk manager) : ∀ later ∈ after.queueHead, later.ptr = manager.nextPtr ∨
    ∃ earlier ∈ manager.queueHead, earlier.ptr = later.ptr ∧ earlier.session = later.session ∧
      earlier.sends ≤ later.sends := by
  cases step with
  | idle | createSession | setWindow | setRetries | respond | late =>
    exact fun later member => .inr ⟨later, member, rfl, rfl, le_refl _⟩
  | submit id isOpen =>
    intro later member
    obtain ⟨middle, inMiddle, samePtr, sameSession, sends⟩ :=
      processQueue_descends _ (enqueue_ok id isOpen ok) later member
    rcases mem_append.mp inMiddle with earlier | last
    · exact .inr ⟨middle, earlier, samePtr, sameSession, sends⟩
    · rw [← samePtr, mem_singleton.mp last]
      exact .inl rfl
  | wait => exact fun later member => .inr (processQueue_descends _ ok later member)
  | resent split timer => exact fun later member => .inr ((resend_transmits split timer ok).descends later member)
  | expired split | deleteRequest split => exact fun later member => .inr (withdraw_descends _ split ok later member)
  | @answered _ request _ answering pending split =>
    have descends := @withdraw_descends { manager with answering } _ _ _ request.session split (ok.answered pending)
    exact fun later member => .inr (descends later member)
  | deleteSession =>
    exact fun later member => .inr ⟨later, (mem_filter.mp member).1, rfl, rfl, le_refl _⟩

theorem QueueStep.nextPtr : manager.nextPtr ≤ after.nextPtr := by
  cases step with
  | submit => exact Nat.le_succ _
  | _ => exact le_refl _

theorem QueueStep.nextSession : manager.nextSession ≤ after.nextSession := by
  cases step with
  | createSession => exact Nat.le_succ _
  | _ => exact le_refl _

end

theorem QueueOk.eq_of_ptr (ok : QueueOk manager) {first second : Request} (isFirst : first ∈ manager.queueHead)
    (isSecond : second ∈ manager.queueHead) (same : first.ptr = second.ptr) : first = second :=
  inj_on_of_nodup_map ok.distinct isFirst isSecond same

theorem isQueued_eq_true {ptr : Nat} :
    isQueued ptr manager = true ↔ ∃ request ∈ manager.queueHead, request.ptr = ptr := by
  simp [isQueued]

def FixedLimits : QueueAction → Prop
  | .setWindow _ _ | .setRetries _ _ => False
  | _ => True

theorem uncount_limits (request : Request) (session : QueueSession) :
    (uncount request session).window = session.window ∧ (uncount request session).retries = session.retries ∧
      (uncount request session).active ≤ session.active := by
  rw [uncount]
  split
  · exact ⟨rfl, rfl, Int.sub_le_self _ (by decide)⟩
  · exact ⟨rfl, rfl, le_refl _⟩

def SameLimits (session : Nat) (before after : Manager) : Prop :=
  (after.session session).window = (before.session session).window ∧
    (after.session session).retries = (before.session session).retries

variable {session : Nat}

theorem SameLimits.trans (front : SameLimits session first second) (back : SameLimits session second third) :
    SameLimits session first third :=
  ⟨back.1.trans front.1, back.2.trans front.2⟩

theorem sameLimits_update {other : Nat} {changed : QueueSession}
    (updated : after.session = update manager.session other changed)
    (window : changed.window = (manager.session other).window)
    (retries : changed.retries = (manager.session other).retries) : SameLimits session manager after := by
  rw [SameLimits, updated]
  by_cases same : session = other
  · subst same
    rw [update_self]
    exact ⟨window, retries⟩
  · rw [update_of_ne same]
    exact ⟨rfl, rfl⟩

theorem processQueue_limits (caller session : Nat) : SameLimits session manager (processQueue caller manager) := by
  obtain ⟨_, activates, processed⟩ := processQueue_activates caller manager
  rw [processed]
  exact activates.limits session

theorem withdraw_limits (front : List Request) (request : Request) (back : List Request) (session : Nat) :
    SameLimits session manager (withdraw front request back manager) :=
  sameLimits_update rfl (uncount_limits request _).1 (uncount_limits request _).2.1

theorem QueueStep.limits {action : QueueAction} (step : QueueStep manager action after) (fixed : FixedLimits action)
    (known : session < manager.nextSession) : SameLimits session manager after := by
  cases step with
  | idle | resent | respond | late | deleteSession => exact ⟨rfl, rfl⟩
  | setWindow | setRetries => exact fixed.elim
  | createSession =>
    simp [SameLimits, tnmSnmpCreateSession, update_of_ne (Nat.ne_of_lt known)]
  | @submit caller id =>
    have enqueued : SameLimits session manager (enqueue caller id manager) := sameLimits_update rfl rfl rfl
    exact enqueued.trans (processQueue_limits _ session)
  | wait => exact processQueue_limits _ session
  | expired | deleteRequest => exact (withdraw_limits _ _ _ session).trans (processQueue_limits _ session)
  | @answered front request back answering =>
    have withdrawn := @withdraw_limits { manager with answering } front request back session
    exact withdrawn.trans (processQueue_limits _ session)

theorem timeout_step (ok : QueueOk manager) (member : request ∈ manager.queueHead) (active : isActive request = true) :
    isQueued request.ptr (queueStep manager (.timeout request.ptr)) = false ∨
      (request.sends < 1 + (manager.session request.session).retries ∧
        transmit request ∈ (queueStep manager (.timeout request.ptr)).queueHead) := by
  have timer : request.timer = true := by rw [ok.timers request member, active]
  rw [queueStep, tnmSnmpTimeoutProc]
  split
  next missing =>
    exact absurd (find?_eq_none.mp missing request member) (by simp)
  next found isFound =>
    have same : found = request := by
      refine ok.eq_of_ptr (mem_of_find?_eq_some isFound) member ?_
      simpa using find?_some isFound
    subst same
    rw [timer, if_neg (by decide)]
    split
    next below =>
      refine .inr ⟨below, List.mem_map.mpr ⟨found, member, ?_⟩⟩
      rw [beq_self_eq_true, if_pos rfl]
    · rcases tnmSnmpDeleteRequest_cases found.ptr manager ok.owned with
        ⟨absent, _⟩ | ⟨front, other, back, split, samePtr, removed⟩
      · rw [isQueued, List.any_eq_false] at absent
        exact absurd (beq_self_eq_true found.ptr) (absent found member)
      · left
        rw [removed, ← samePtr]
        exact withdrawn_absent _ split ok

def HasRoom (session : Nat) (manager : Manager) : Prop :=
  (manager.session session).active < (manager.session session).window ∨ (manager.session session).window = 0

structure HeadKept (session : Nat) (before after : Manager) : Prop where
  active : ∀ later ∈ after.queueHead, isActive later = true → (later.session = session ∨ HasRoom session before) →
    ∃ earlier ∈ before.queueHead,
      earlier.ptr = later.ptr ∧ earlier.session = later.session ∧ isActive earlier = true
  counter : (after.session session).active ≤ (before.session session).active
  window : (after.session session).window = (before.session session).window

theorem HeadKept.hasRoom (kept : HeadKept session before after) (room : HasRoom session before) :
    HasRoom session after := by
  have counter := kept.counter
  rw [HasRoom, kept.window]
  rcases room with _ | unlimited
  · exact .inl (by omega)
  · exact .inr unlimited

theorem HeadKept.trans (front : HeadKept session first second) (back : HeadKept session second third) :
    HeadKept session first third := by
  refine ⟨?_, back.counter.trans front.counter, back.window.trans front.window⟩
  intro later member active condition
  obtain ⟨middle, inMiddle, samePtr, sameSession, wasActive⟩ :=
    back.active later member active (condition.imp_right front.hasRoom)
  obtain ⟨earlier, inFirst, firstPtr, firstSession, atFirst⟩ :=
    front.active middle inMiddle wasActive (condition.imp_left sameSession.trans)
  exact ⟨earlier, inFirst, firstPtr.trans samePtr, firstSession.trans sameSession, atFirst⟩

theorem HeadKept.of_subset (subset : ∀ request ∈ after.queueHead, isActive request = true → request ∈ before.queueHead)
    (counter : (after.session session).active ≤ (before.session session).active)
    (window : (after.session session).window = (before.session session).window) : HeadKept session before after :=
  ⟨fun later member active _ => ⟨later, subset later member active, rfl, rfl, active⟩, counter, window⟩

theorem Activates.full {session : Nat → QueueSession} {sid : Nat} (activates : Activates queue session result)
    (full : ¬ ((session sid).active < (session sid).window ∨ (session sid).window = 0)) :
    result.session sid = session sid ∧ ∀ later ∈ result.queue, later.session = sid → later ∈ queue := by
  induction activates with
  | stop => exact ⟨rfl, fun later member _ => member⟩
  | @send request _ session _ _ room _ ih =>
    have apart : sid ≠ request.session := by
      rintro rfl
      exact full room
    rw [update_of_ne apart] at ih
    refine ⟨(ih full).1, fun other member isSession => ?_⟩
    rcases mem_cons.mp member with rfl | inLater
    · exact absurd isSession.symm apart
    · exact mem_cons_of_mem _ ((ih full).2 other inLater isSession)
  | @skip _ _ _ _ _ ih =>
    refine ⟨(ih full).1, fun other member isSession => ?_⟩
    rcases mem_cons.mp member with rfl | inLater
    · exact mem_cons_self
    · exact mem_cons_of_mem _ ((ih full).2 other inLater isSession)

variable {rest : List Request}

theorem processQueue_head (caller : Nat) (queue : manager.queueHead = request :: rest)
    (waits : isActive request = false) : (∃ tail, (processQueue caller manager).queueHead = transmit request :: tail) ∨
      HeadKept request.session manager (processQueue caller manager) := by
  rw [processQueue, queue, activate]
  split
  · refine .inr (.of_subset (fun other member _ => ?_) (le_refl _) rfl)
    rw [queue]
    exact member
  · split
    · exact .inl ⟨_, rfl⟩
    next closed =>
      have full : ¬ HasRoom request.session manager := fun room => closed ⟨by simp [waits], room⟩
      have untouched := (activate_activates (manager.session caller).window rest (activeRequests (request :: rest))
        (waitingRequests (request :: rest)) manager.session).full full
      refine .inr ⟨?_, le_of_eq (congrArg _ untouched.1), congrArg _ untouched.1⟩
      intro later member active condition
      rcases condition with isSession | room
      · rcases mem_cons.mp member with rfl | inLater
        · exact absurd active (by simp [waits])
        · refine ⟨later, ?_, rfl, rfl, active⟩
          rw [queue]
          exact mem_cons_of_mem _ (untouched.2 later inLater isSession)
      · exact absurd room full

def Settled (ptr : Nat) (manager : Manager) : Prop :=
  ∀ request ∈ manager.queueHead, request.ptr = ptr → isActive request = true

theorem processQueue_settled (caller : Nat) (queue : manager.queueHead = request :: rest)
    (waits : isActive request = false) (ok : QueueOk manager) : Settled request.ptr (processQueue caller manager) ∨
      HeadKept request.session manager (processQueue caller manager) := by
  rcases processQueue_head caller queue waits with ⟨_, sent⟩ | kept
  · refine .inl fun other member samePtr => ?_
    have isHead : transmit request ∈ (processQueue caller manager).queueHead := by simp [sent]
    rw [(processQueue_ok caller ok).eq_of_ptr member isHead samePtr]
    exact isActive_transmit request
  · exact .inr kept

theorem settled_of_absent {ptr : Nat} (absent : isQueued ptr manager = false) : Settled ptr manager := by
  intro request member same
  rw [isQueued, List.any_eq_false] at absent
  exact absurd (beq_iff_eq.mpr same) (absent request member)

theorem withdraw_settled {head : Request} (caller : Nat) (queue : manager.queueHead = head :: rest)
    (waits : isActive head = false) (split : manager.queueHead = front ++ request :: back) (ok : QueueOk manager) :
    Settled head.ptr (processQueue caller (withdraw front request back manager)) ∨
      HeadKept head.session manager (processQueue caller (withdraw front request back manager)) := by
  cases front with
  | nil =>
    rw [queue, nil_append, List.cons.injEq] at split
    have isHead : manager.queueHead = [] ++ head :: rest := queue
    rw [← split.1, ← split.2]
    exact .inl (settled_of_absent (withdrawn_absent caller isHead ok))
  | cons first others =>
    have isFirst : head = first := by
      rw [queue, cons_append, List.cons.injEq] at split
      exact split.1
    subst isFirst
    have withdrawn : HeadKept head.session manager (withdraw (head :: others) request back manager) := by
      refine .of_subset (fun other member _ => withdraw_subset split other member) ?_
        (withdraw_limits (head :: others) request back head.session).1
      simp only [withdraw]
      by_cases same : head.session = request.session
      · rw [same, update_self]
        exact (uncount_limits request _).2.2
      · rw [update_of_ne same]
    have remains : (withdraw (head :: others) request back manager).queueHead = head :: (others ++ back) := rfl
    exact (processQueue_settled caller remains waits (withdraw_ok split ok)).imp_right withdrawn.trans

theorem enqueue_headKept {other : Nat} (id : Int) : HeadKept other manager (enqueue session id manager) := by
  have limits : SameLimits other manager (enqueue session id manager) := sameLimits_update rfl rfl rfl
  refine .of_subset (fun request member active => ?_) ?_ limits.1
  · rcases mem_append.mp member with earlier | last
    · exact earlier
    · rw [mem_singleton.mp last] at active
      exact absurd active (by simp [isActive])
  · simp only [enqueue]
    by_cases same : other = session
    · rw [same, update_self]
      exact le_refl _
    · rw [update_of_ne same]

theorem QueueStep.head {head : Request} {action : QueueAction} (step : QueueStep manager action after)
    (fixed : FixedLimits action) (ok : QueueOk manager) (queue : manager.queueHead = head :: rest)
    (waits : isActive head = false) : Settled head.ptr after ∨ HeadKept head.session manager after := by
  have isMember : head ∈ manager.queueHead := by simp [queue]
  cases step with
  | idle | respond | late => exact .inr (.of_subset (fun _ member _ => member) (le_refl _) rfl)
  | setWindow | setRetries => exact fixed.elim
  | createSession =>
    have apart : head.session ≠ manager.nextSession := Nat.ne_of_lt (ok.known _ (ok.owned head isMember))
    refine .inr (.of_subset (fun _ member _ => member) ?_ ?_) <;>
      simp [tnmSnmpCreateSession, update_of_ne apart]
  | @submit session id isOpen =>
    have remains : (enqueue session id manager).queueHead =
        head :: (rest ++ [⟨manager.nextPtr, id, session, 0, false⟩]) := by
      rw [enqueue, queue]
      rfl
    exact (processQueue_settled _ remains waits (enqueue_ok id isOpen ok)).imp_right (enqueue_headKept id).trans
  | wait => exact processQueue_settled _ queue waits ok
  | @resent _ request _ split timer =>
    have active : isActive request = true := by rw [← ok.timers request (by simp [split]), timer]
    refine .inr ⟨fun later member isSent _ => ?_, le_refl _, rfl⟩
    rcases mem_append.mp member with inFront | others
    · exact ⟨later, by simp [split, inFront], rfl, rfl, isSent⟩
    · rcases mem_cons.mp others with rfl | inBack
      · exact ⟨request, by simp [split], rfl, rfl, active⟩
      · exact ⟨later, by simp [split, inBack], rfl, rfl, isSent⟩
  | @expired _ request _ split =>
    rcases withdraw_settled request.session queue waits split ok with settled | kept
    · exact .inl settled
    · exact .inr ⟨kept.active, kept.counter, kept.window⟩
  | @answered _ request _ answering pending split =>
    rcases @withdraw_settled { manager with answering } _ _ _ _ _ request.session queue waits split
      (ok.answered pending) with
      settled | kept
    · exact .inl settled
    · exact .inr ⟨kept.active, kept.counter, kept.window⟩
  | deleteRequest split => exact withdraw_settled _ queue waits split ok
  | deleteSession =>
    exact .inr (.of_subset (fun _ member _ => (mem_filter.mp member).1) (le_refl _) rfl)

end Tnm
