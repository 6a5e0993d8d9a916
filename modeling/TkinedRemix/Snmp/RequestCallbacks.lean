import TkinedRemix.Snmp.RequestRuns

/-!
Callbacks and transmissions of a request, over whole runs. The bindings that `TnmSnmpDecode` evaluates may
process events that delete the request first.
-/

namespace Tnm

open Lib List Function

def isCallback (ptr : Nat) : QueueEvent → Bool
  | .callback other _ => other == ptr
  | _ => false

def callbacks (ptr : Nat) (log : List QueueEvent) : Nat := log.countP (isCallback ptr)

structure LogOk (manager : Manager) : Prop where
  queue : QueueOk manager
  submitted : ∀ request ∈ manager.queueHead, .submitted request.ptr request.session ∈ manager.log
  single : ∀ ptr first second,
    .submitted ptr first ∈ manager.log → .submitted ptr second ∈ manager.log → first = second
  opened : ∀ ptr session, .submitted ptr session ∈ manager.log → session < manager.nextSession
  limit : ∀ ptr session, .submitted ptr session ∈ manager.log →
    manager.log.count (.sent ptr) ≤ (manager.session session).retries + 1
  pending : ∀ request ∈ manager.queueHead, callbacks request.ptr manager.log = 0
  once : ∀ ptr, callbacks ptr manager.log ≤ 1
  gone : ∀ ptr, .callback ptr true ∉ manager.log

variable {manager : Manager}

theorem callbacks_append (ptr : Nat) (first second : List QueueEvent) :
    callbacks ptr (first ++ second) = callbacks ptr first + callbacks ptr second :=
  countP_append

theorem callbacks_sent (ptr : Nat) (sent : List Nat) : callbacks ptr (sent.map .sent) = 0 := by
  simp [callbacks, isCallback]

theorem callbacks_of_fresh (ok : QueueOk manager) : callbacks manager.nextPtr manager.log = 0 := by
  rw [callbacks, countP_eq_zero]
  intro event member
  have known := ok.logged event member
  cases event with
  | callback ptr =>
    have apart : ptr ≠ manager.nextPtr := Nat.ne_of_lt known
    simp [isCallback, apart]
  | _ => simp [isCallback]

theorem count_activated {result : Activation} (ok : QueueOk manager)
    (activates : Activates manager.queueHead manager.session result) (ptr : Nat) :
    result.sent.count ptr = 0 ∨ (result.sent.count ptr = 1 ∧ manager.log.count (.sent ptr) = 0) := by
  by_cases member : ptr ∈ result.sent
  · obtain ⟨request, inQueue, rfl, waits⟩ := activates.sent_waiting ptr member
    refine .inr ⟨count_eq_one_of_mem (ok.distinct.sublist activates.sent_sublist) member, ?_⟩
    rw [← ok.sends request inQueue]
    simpa [isActive] using waits
  · exact .inl (count_eq_zero.mpr member)

theorem Transmits.log {sent : List Nat} {after : Manager} (transmits : Transmits sent manager after)
    (ok : LogOk manager)
    (limit : ∀ ptr session, .submitted ptr session ∈ manager.log →
      manager.log.count (.sent ptr) + sent.count ptr ≤ (after.session session).retries + 1) : LogOk after := by
  have queue := transmits.ok ok.queue
  have origin := transmits.origin
  rw [transmits.same] at queue ⊢
  have before : ∀ ptr session, .submitted ptr session ∈ manager.log ++ sent.map .sent →
      .submitted ptr session ∈ manager.log := by
    simp
  refine ⟨queue, ?_, ?_, ?_, ?_, ?_, ?_, ?_⟩
  · intro later member
    refine mem_append_left _ ?_
    obtain ⟨earlier, isBefore, ⟨rfl, _⟩ | ⟨rfl, _⟩⟩ := origin later member
    · exact ok.submitted later isBefore
    · exact ok.submitted earlier isBefore
  · intro ptr first second isFirst isSecond
    exact ok.single ptr first second (before ptr first isFirst) (before ptr second isSecond)
  · intro ptr session member
    exact ok.opened ptr session (before ptr session member)
  · intro ptr session member
    rw [count_append, count_sent]
    exact limit ptr session (before ptr session member)
  · intro later member
    rw [callbacks_append, callbacks_sent]
    obtain ⟨earlier, isBefore, ⟨rfl, _⟩ | ⟨rfl, _⟩⟩ := origin later member
    · exact ok.pending later isBefore
    · exact ok.pending earlier isBefore
  · intro ptr
    rw [callbacks_append, callbacks_sent]
    exact ok.once ptr
  · intro ptr member
    exact ok.gone ptr (by simpa using member)

theorem processQueue_log (caller : Nat) (ok : LogOk manager) : LogOk (processQueue caller manager) := by
  obtain ⟨_, activates, sessions, transmits⟩ := processQueue_transmits caller ok.queue
  refine transmits.log ok fun ptr session member => ?_
  have below := ok.limit ptr session member
  rw [sessions, (activates.limits session).2]
  rcases count_activated ok.queue activates ptr with _ | ⟨_, _⟩ <;> omega

theorem enqueue_log {session : Nat} (id : Int) (isOpen : session ∈ manager.tnmSnmpList) (ok : LogOk manager) :
    LogOk (enqueue session id manager) := by
  have known : ∀ ptr other, .submitted ptr other ∈ manager.log → ptr ≠ manager.nextPtr := by
    intro ptr other member
    exact Nat.ne_of_lt (ok.queue.logged _ member)
  have unsent : manager.log.count (.sent manager.nextPtr) = 0 :=
    count_eq_zero.mpr fun member => lt_irrefl _ (ok.queue.logged _ member)
  have either : ∀ ptr other, .submitted ptr other ∈ manager.log ++ [.submitted manager.nextPtr session] →
      .submitted ptr other ∈ manager.log ∨ (ptr = manager.nextPtr ∧ other = session) := by
    simp
  refine ⟨enqueue_ok id isOpen ok.queue, ?_, ?_, ?_, ?_, ?_, ?_, ?_⟩
  · exact forall_mem_append.mpr
      ⟨fun request earlier => mem_append_left _ (ok.submitted request earlier), by simp [enqueue]⟩
  · intro ptr first second isFirst isSecond
    rcases either ptr first isFirst with firstBefore | ⟨firstPtr, rfl⟩
    · rcases either ptr second isSecond with secondBefore | ⟨secondPtr, _⟩
      · exact ok.single ptr first second firstBefore secondBefore
      · exact absurd secondPtr (known ptr first firstBefore)
    · rcases either ptr second isSecond with secondBefore | ⟨_, rfl⟩
      · exact absurd firstPtr (known ptr second secondBefore)
      · rfl
  · intro ptr other member
    rcases either ptr other member with earlier | ⟨_, rfl⟩
    · exact ok.opened ptr other earlier
    · exact ok.queue.known other isOpen
  · intro ptr other member
    have sameRetries : ((enqueue session id manager).session other).retries = (manager.session other).retries := by
      by_cases same : other = session
      · subst same
        simp [enqueue, countWaiting]
      · simp [enqueue, update_of_ne same]
    have sameCount : (enqueue session id manager).log.count (.sent ptr) = manager.log.count (.sent ptr) := by
      simp [enqueue]
    rw [sameRetries, sameCount]
    rcases either ptr other member with earlier | ⟨rfl, _⟩
    · exact ok.limit ptr other earlier
    · rw [unsent]
      exact Nat.zero_le _
  · intro request member
    rw [enqueue, callbacks_append]
    rcases mem_append.mp member with earlier | last
    · rw [ok.pending request earlier]
      rfl
    · rw [mem_singleton.mp last, callbacks_of_fresh ok.queue]
      rfl
  · intro ptr
    rw [enqueue, callbacks_append]
    exact ok.once ptr
  · intro ptr member
    exact ok.gone ptr (by simpa [enqueue] using member)

theorem LogOk.change {after : Manager} (ok : LogOk manager) (queue : QueueOk after)
    (subset : ∀ request ∈ after.queueHead, request ∈ manager.queueHead) (sameLog : after.log = manager.log)
    (next : manager.nextSession ≤ after.nextSession)
    (retries : ∀ session < manager.nextSession, (after.session session).retries = (manager.session session).retries) :
    LogOk after := by
  refine ⟨queue, ?_, ?_, ?_, ?_, ?_, ?_, ?_⟩ <;> rw [sameLog]
  · exact fun request member => ok.submitted request (subset request member)
  · exact ok.single
  · exact fun ptr session member => (ok.opened ptr session member).trans_le next
  · intro ptr session member
    rw [retries session (ok.opened ptr session member)]
    exact ok.limit ptr session member
  · exact fun request member => ok.pending request (subset request member)
  · exact ok.once
  · exact ok.gone

variable {front back : List Request} {request : Request}

theorem withdraw_log (split : manager.queueHead = front ++ request :: back) (ok : LogOk manager) :
    LogOk (withdraw front request back manager) := by
  refine ok.change (withdraw_ok split ok.queue) ?_ rfl (le_refl _) ?_
  · exact withdraw_subset split
  · intro session _
    by_cases same : session = request.session
    · subst same
      rw [withdraw, uncount]
      simp only [update_self]
      split <;> rfl
    · simp [withdraw, update_of_ne same]

theorem runCallback_log {ptr : Nat} (known : ptr < manager.nextPtr) (absent : isQueued ptr manager = false)
    (first : callbacks ptr manager.log = 0) (ok : LogOk manager) : LogOk (runCallback ptr manager) := by
  have one : ∀ other, callbacks other [.callback ptr (isQueued ptr manager)] = if ptr = other then 1 else 0 := by
    simp [callbacks, isCallback]
  refine ⟨runCallback_ok known ok.queue, ?_, ?_, ?_, ?_, ?_, ?_, ?_⟩
  · exact fun request member => mem_append_left _ (ok.submitted request member)
  · intro session first second isFirst isSecond
    exact ok.single session first second (by simpa [runCallback] using isFirst) (by simpa [runCallback] using isSecond)
  · intro other session member
    exact ok.opened other session (by simpa [runCallback] using member)
  · intro other session member
    have below := ok.limit other session (by simpa [runCallback] using member)
    simpa [runCallback] using below
  · intro request member
    have apart : ptr ≠ request.ptr := by
      intro same
      simp only [isQueued, List.any_eq_false, beq_iff_eq] at absent
      exact absent request member same.symm
    rw [runCallback, callbacks_append, one, if_neg apart]
    exact ok.pending request member
  · intro other
    rw [runCallback, callbacks_append, one]
    split
    next same =>
      rw [← same, first]
    · exact ok.once other
  · intro other member
    rw [runCallback, absent] at member
    exact ok.gone other (by simpa using member)

theorem resend_log (split : manager.queueHead = front ++ request :: back) (timer : request.timer = true)
    (below : request.sends < 1 + (manager.session request.session).retries) (ok : LogOk manager) :
    LogOk (resend front request back manager) := by
  have isMember : request ∈ manager.queueHead := by simp [split]
  refine (resend_transmits split timer ok.queue).log ok fun ptr session member => ?_
  by_cases same : ptr = request.ptr
  · subst same
    have sends := ok.queue.sends request isMember
    rw [ok.single request.ptr session request.session member (ok.submitted request isMember), count_singleton_self]
    simp only [resend]
    omega
  · have unsent : [request.ptr].count ptr = 0 := count_eq_zero.mpr (by simpa using same)
    rw [unsent]
    exact ok.limit ptr session member

theorem delete_callback_log (split : manager.queueHead = front ++ request :: back) (ok : LogOk manager) :
    LogOk (runCallback request.ptr (processQueue request.session (withdraw front request back manager))) := by
  have isMember : request ∈ manager.queueHead := by simp [split]
  refine runCallback_log (ok.queue.fresh request isMember) (withdrawn_absent _ split ok.queue) ?_
    (processQueue_log _ (withdraw_log split ok))
  obtain ⟨_, _, processed⟩ := processQueue_activates request.session (withdraw front request back manager)
  rw [processed]
  simp only [withdraw]
  rw [callbacks_append, callbacks_sent, ok.pending request isMember]

/-- A response is answered while its request is still in the queue. -/
def AnswersQueued (manager : Manager) : QueueAction → Prop
  | .answer => ∀ ptr answering, manager.answering = ptr :: answering → isQueued ptr manager = true
  | _ => True

theorem QueueStep.log {action : QueueAction} {after : Manager} (step : QueueStep manager action after)
    (condition : AnswersQueued manager action ∧ ∀ session retries, action ≠ .setRetries session retries)
    (ok : LogOk manager) : LogOk after := by
  have queue := step.ok ok.queue
  cases step with
  | idle => exact ok
  | createSession =>
    refine ok.change queue (fun _ member => member) rfl (Nat.le_succ _) fun session isOld => ?_
    simp [tnmSnmpCreateSession, update_of_ne (Nat.ne_of_lt isOld)]
  | setWindow session =>
    refine ok.change queue (fun _ member => member) rfl (le_refl _) fun other _ => ?_
    by_cases same : other = session
    · subst same
      simp
    · simp [update_of_ne same]
  | setRetries session retries => exact absurd rfl (condition.2 session retries)
  | submit id isOpen => exact processQueue_log _ (enqueue_log id isOpen ok)
  | wait => exact processQueue_log _ ok
  | resent split timer below => exact resend_log split timer below ok
  | expired split => exact delete_callback_log split ok
  | respond _ member => exact ok.change queue (fun _ member => member) rfl (le_refl _) fun _ _ => rfl
  | @answered _ _ _ answering pending split =>
    have rest : LogOk { manager with answering } :=
      ok.change (ok.queue.answered pending) (fun _ member => member) rfl (le_refl _) fun _ _ => rfl
    exact delete_callback_log split rest
  | late pending absent =>
    have present := condition.1 _ _ pending
    rw [absent] at present
    exact absurd present (by decide)
  | deleteRequest split => exact processQueue_log _ (withdraw_log split ok)
  | deleteSession =>
    refine ok.change queue (fun request member => ?_) rfl (le_refl _) fun _ _ => rfl
    exact (mem_filter.mp member).1

theorem init_log : LogOk Manager.init := by
  refine ⟨init_ok, ?_, ?_, ?_, ?_, ?_, ?_, ?_⟩ <;> simp [Manager.init, callbacks]

end Tnm
