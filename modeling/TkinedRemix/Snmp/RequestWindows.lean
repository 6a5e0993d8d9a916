import TkinedRemix.Snmp.RequestRuns

/-!
The counters and windows of the sessions, in every state of a run.
-/

namespace Tnm

open Lib List Function

structure WindowsOk (bound : Nat) (manager : Manager) : Prop where
  queue : QueueOk manager
  nonzero : ∀ session ∈ manager.tnmSnmpList, (manager.session session).window ≠ 0
  bounded : ∀ session ∈ manager.tnmSnmpList, (manager.session session).window ≤ bound
  within : ∀ session ∈ manager.tnmSnmpList, (manager.session session).active ≤ (manager.session session).window
  total : activeRequests manager.queueHead ≤ bound

variable {bound : Nat} {manager : Manager}

theorem processQueue_windows {caller : Nat} (isOpen : caller ∈ manager.tnmSnmpList) (ok : WindowsOk bound manager) :
    WindowsOk bound (processQueue caller manager) := by
  have activates := activate_activates (manager.session caller).window manager.queueHead
    (activeRequests manager.queueHead) (waitingRequests manager.queueHead) manager.session
  have grown := activate_total (manager.session caller).window (ok.nonzero caller isOpen) manager.queueHead
    (activeRequests manager.queueHead) (waitingRequests manager.queueHead) manager.session
  have calling := ok.bounded caller isOpen
  have before := ok.total
  refine ⟨processQueue_ok caller ok.queue, ?_, ?_, ?_, ?_⟩
  · intro session member
    rw [processQueue, (activates.limits session).1]
    exact ok.nonzero session member
  · intro session member
    rw [processQueue, (activates.limits session).1]
    exact ok.bounded session member
  · intro session member
    exact activates.window_kept session (ok.nonzero session member) (ok.within session member)
  · simp only [processQueue]
    omega

theorem WindowsOk.change {queueHead : List Request} {session : Nat} {changed : QueueSession}
    {nextPtr : Nat} {answering : List Nat} {log : List QueueEvent}
    (ok : WindowsOk bound manager) (window : changed.window = (manager.session session).window)
    (active : changed.active ≤ (manager.session session).active)
    (fewer : activeRequests queueHead ≤ activeRequests manager.queueHead) (queue : QueueOk { manager with
      queueHead, nextPtr, answering, log, session := update manager.session session changed }) :
    WindowsOk bound { manager with
      queueHead, nextPtr, answering, log, session := update manager.session session changed } := by
  have limits : ∀ other, (update manager.session session changed other).window =
        (manager.session other).window ∧
      (update manager.session session changed other).active ≤ (manager.session other).active := by
    intro other
    by_cases same : other = session
    · subst same
      rw [update_self]
      exact ⟨window, active⟩
    · rw [update_of_ne same]
      exact ⟨rfl, le_refl _⟩
  refine ⟨queue, ?_, ?_, ?_, fewer.trans ok.total⟩
  · intro other member
    simp only [(limits other).1]
    exact ok.nonzero other member
  · intro other member
    simp only [(limits other).1]
    exact ok.bounded other member
  · intro other member
    simp only [(limits other).1]
    exact (limits other).2.trans (ok.within other member)

theorem enqueue_windows {session : Nat} (id : Int) (isOpen : session ∈ manager.tnmSnmpList)
    (ok : WindowsOk bound manager) : WindowsOk bound (enqueue session id manager) := by
  refine ok.change rfl (le_refl _) ?_ (enqueue_ok id isOpen ok.queue)
  simp [activeRequests, isActive]

theorem withdraw_windows {front back : List Request} {request : Request}
    (split : manager.queueHead = front ++ request :: back) (ok : WindowsOk bound manager) :
    WindowsOk bound (withdraw front request back manager) := by
  refine ok.change ?_ ?_ ?_ (withdraw_ok split ok.queue)
  · rw [uncount]
    split <;> rfl
  · rw [uncount]
    split
    · exact Int.sub_le_self _ (by decide)
    · exact le_refl _
  · rw [split]
    exact List.Sublist.countP_le (by simp)

theorem runCallback_windows {ptr : Nat} (known : ptr < manager.nextPtr) (ok : WindowsOk bound manager) :
    WindowsOk bound (runCallback ptr manager) :=
  ⟨runCallback_ok known ok.queue, ok.nonzero, ok.bounded, ok.within, ok.total⟩

theorem answering_windows {answering : List Nat} (queue : QueueOk { manager with answering })
    (ok : WindowsOk bound manager) : WindowsOk bound { manager with answering } :=
  ⟨queue, ok.nonzero, ok.bounded, ok.within, ok.total⟩

theorem resend_windows {front back : List Request} {request : Request}
    (split : manager.queueHead = front ++ request :: back) (timer : request.timer = true)
    (ok : WindowsOk bound manager) : WindowsOk bound (resend front request back manager) := by
  refine ⟨(resend_transmits split timer ok.queue).ok ok.queue, ok.nonzero, ok.bounded, ok.within, ?_⟩
  have active : isActive request = true := by rw [← ok.queue.timers request (by simp [split]), timer]
  have before := ok.total
  rw [split] at before
  simpa only [resend, activeRequests, countP_append, countP_cons, isActive_transmit, active] using before

theorem tnmSnmpDeleteSession_windows (session : Nat) (ok : WindowsOk bound manager) :
    WindowsOk bound (tnmSnmpDeleteSession session manager) := by
  refine ⟨tnmSnmpDeleteSession_ok session ok.queue, fun other member => ok.nonzero other (mem_filter.mp member).1,
    fun other member => ok.bounded other (mem_filter.mp member).1,
    fun other member => ok.within other (mem_filter.mp member).1, ?_⟩
  exact (List.Sublist.countP_le filter_sublist).trans ok.total

theorem tnmSnmpCreateSession_windows {window : Nat} (retries : Nat) (nonzero : window ≠ 0) (small : window ≤ bound)
    (ok : WindowsOk bound manager) : WindowsOk bound (tnmSnmpCreateSession window retries manager) := by
  have each : ∀ session ∈ manager.tnmSnmpList ++ [manager.nextSession],
      let entry := update manager.session manager.nextSession ⟨retries, window, 0, 0⟩ session
      entry.window ≠ 0 ∧ entry.window ≤ bound ∧ entry.active ≤ entry.window := by
    intro session member
    rcases mem_append.mp member with earlier | last
    · rw [update_of_ne (Nat.ne_of_lt (ok.queue.known session earlier))]
      exact ⟨ok.nonzero session earlier, ok.bounded session earlier, ok.within session earlier⟩
    · rw [mem_singleton.mp last, update_self]
      exact ⟨nonzero, small, Int.natCast_nonneg window⟩
  exact ⟨tnmSnmpCreateSession_ok window retries ok.queue, fun session member => (each session member).1,
    fun session member => (each session member).2.1, fun session member => (each session member).2.2, ok.total⟩

def FixedWindow (bound : Nat) : QueueAction → Prop
  | .createSession window _ => window ≠ 0 ∧ window ≤ bound
  | .setWindow _ _ => False
  | _ => True

theorem QueueStep.windows {action : QueueAction} {after : Manager} (step : QueueStep manager action after)
    (fixed : FixedWindow bound action) (ok : WindowsOk bound manager) : WindowsOk bound after := by
  cases step with
  | idle => exact ok
  | createSession _ retries => exact tnmSnmpCreateSession_windows retries fixed.1 fixed.2 ok
  | setWindow => exact fixed.elim
  | setRetries session => exact ok.change rfl (le_refl _) (le_refl _) (configure_ok session ok.queue rfl rfl)
  | submit id isOpen => exact processQueue_windows isOpen (enqueue_windows id isOpen ok)
  | wait isOpen => exact processQueue_windows isOpen ok
  | resent split timer => exact resend_windows split timer ok
  | @expired _ request _ split =>
    have isMember : request ∈ manager.queueHead := by simp [split]
    exact runCallback_windows (ok.queue.fresh _ isMember)
      (processQueue_windows (ok.queue.owned _ isMember) (withdraw_windows split ok))
  | respond id member => exact answering_windows ((QueueStep.respond id member).ok ok.queue) ok
  | @answered _ request _ _ pending split =>
    have isMember : request ∈ manager.queueHead := by simp [split]
    have rest := answering_windows (ok.queue.answered pending) ok
    exact runCallback_windows (ok.queue.fresh _ isMember)
      (processQueue_windows (ok.queue.owned _ isMember) (withdraw_windows split rest))
  | late pending =>
    have rest := answering_windows (ok.queue.answered pending) ok
    exact runCallback_windows (ok.queue.answers _ (by simp [pending])) rest
  | deleteRequest split =>
    exact processQueue_windows (ok.queue.owned _ (by simp [split])) (withdraw_windows split ok)
  | deleteSession session => exact tnmSnmpDeleteSession_windows session ok

theorem queueRun_windows {actions : List QueueAction} (fixed : ∀ action ∈ actions, FixedWindow bound action) :
    WindowsOk bound (queueRun actions) := by
  refine run_invariant (fun _ action condition before => (before.queue.step action).windows condition before) ?_
    (Meets.of_forall fun _ action member => fixed action member)
  refine ⟨init_ok, ?_, ?_, ?_, Nat.zero_le _⟩ <;> simp [Manager.init]

def wasSent (manager : Manager) (request : Request) : Bool := manager.log.contains (.sent request.ptr)

theorem QueueOk.wasSent_eq (ok : QueueOk manager) {request : Request} (member : request ∈ manager.queueHead) :
    wasSent manager request = isActive request := by
  rw [isActive, ok.sends request member, wasSent, Bool.eq_iff_iff]
  simp [count_eq_zero]

theorem windows_bounded (actions : List QueueAction) :
    ∃ bound, ∀ window retries, .createSession window retries ∈ actions → window ≤ bound := by
  induction actions with
  | nil => exact ⟨0, by simp⟩
  | cons action _ ih =>
    obtain ⟨bound, small⟩ := ih
    cases action with
    | createSession first =>
      refine ⟨max first bound, fun window retries member => ?_⟩
      rcases mem_cons.mp member with same | later
      · cases same
        exact Nat.le_max_left _ _
      · exact (small window retries later).trans (Nat.le_max_right _ _)
    | _ => exact ⟨bound, fun window retries member => small window retries (by simpa using member)⟩

end Tnm
