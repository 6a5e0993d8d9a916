import TkinedRemix.Snmp.RequestProgress

/-!
Endless schedules of the request queue. When pending timers fire, a waiting request gets room and is sent, and a
request that was sent leaves the queue.
-/

namespace Tnm

open Lib

def queueTrace (schedule : Nat → QueueAction) : Nat → Manager := trace queueStep Manager.init schedule

def QueuedAs (ptr session sends : Nat) (manager : Manager) : Prop :=
  ∃ request ∈ manager.queueHead, request.ptr = ptr ∧ request.session = session ∧ sends ≤ request.sends

/-- Closed sessions restart the queue, limits are fixed, and pending timers fire in the end. -/
structure FairSchedule (schedule : Nat → QueueAction) : Prop where
  restarts : ∀ time, RestartsQueue (queueTrace schedule time) (schedule time)
  fixed : ∀ time, FixedLimits (schedule time)
  timers : ∀ time, ∀ request ∈ (queueTrace schedule time).queueHead, request.timer = true →
    ∃ later ≥ time, schedule later = .timeout request.ptr ∨
      isQueued request.ptr (queueTrace schedule later) = false

theorem init_progresses : QueueOk Manager.init ∧ Progresses Manager.init :=
  ⟨init_ok, by rintro ⟨_, ⟨⟩, _⟩⟩

section

variable {schedule : Nat → QueueAction} (fair : FairSchedule schedule)

include fair

theorem trace_ok (time : Nat) : QueueOk (queueTrace schedule time) ∧ Progresses (queueTrace schedule time) :=
  trace_invariant queueStep_progresses init_progresses fair.restarts time

variable {ptr first last : Nat}

theorem trace_nextPtr (before : first ≤ last) (known : ptr < (queueTrace schedule first).nextPtr) :
    ptr < (queueTrace schedule last).nextPtr := by
  induction before with
  | refl => exact known
  | @step time _ ih => exact ih.trans_le ((trace_ok fair time).1.step _).nextPtr

theorem absent_stays (before : first ≤ last) (known : ptr < (queueTrace schedule first).nextPtr)
    (absent : isQueued ptr (queueTrace schedule first) = false) : isQueued ptr (queueTrace schedule last) = false := by
  induction before with
  | refl => exact absent
  | @step time after ih =>
    rw [isQueued, List.any_eq_false] at ih ⊢
    intro request member same
    have samePtr : request.ptr = ptr := by simpa using same
    rcases ((trace_ok fair time).1.step _).origin (trace_ok fair time).1 request member with isNew | ⟨earlier,
      isEarlier, earlierPtr, _⟩
    · have old := trace_nextPtr fair after known
      rw [← samePtr, isNew] at old
      exact lt_irrefl _ old
    · exact ih earlier isEarlier (by simp [earlierPtr, samePtr])

variable {session : Nat}

theorem request_stays {sends : Nat} (time : Nat) (queued : QueuedAs ptr session sends (queueTrace schedule time)) :
    isQueued ptr (queueTrace schedule (time + 1)) = false ∨
      QueuedAs ptr session sends (queueTrace schedule (time + 1)) := by
  obtain ⟨request, member, isPtr, isSession, atLeast⟩ := queued
  have ok := (trace_ok fair time).1
  by_cases still : isQueued ptr (queueTrace schedule (time + 1)) = true
  · obtain ⟨later, inLater, laterPtr⟩ := isQueued_eq_true.mp still
    rcases (ok.step _).origin ok later inLater with isNew | ⟨_, isEarlier, earlierPtr, earlierSession, sent⟩
    · have old := ok.fresh request member
      rw [isPtr, ← laterPtr, isNew] at old
      exact absurd old (lt_irrefl _)
    · have same := ok.eq_of_ptr isEarlier member (by rw [earlierPtr, laterPtr, isPtr])
      subst same
      exact .inr ⟨later, inLater, laterPtr, earlierSession ▸ isSession, atLeast.trans sent⟩
  · exact .inl (by simpa using still)

theorem trace_limits (before : first ≤ last) (known : session < (queueTrace schedule first).nextSession) :
    session < (queueTrace schedule last).nextSession ∧
      SameLimits session (queueTrace schedule first) (queueTrace schedule last) := by
  induction before with
  | refl => exact ⟨known, rfl, rfl⟩
  | @step time _ ih =>
    have ok := (trace_ok fair time).1
    exact ⟨ih.1.trans_le (ok.step _).nextSession, ih.2.trans ((ok.step _).limits (fair.fixed time) ih.1)⟩

theorem timer_fires {sends : Nat} (wasSent : sends ≠ 0)
    (queued : QueuedAs ptr session sends (queueTrace schedule first)) :
    ∃ later ≥ first, isQueued ptr (queueTrace schedule later) = false ∨
      (sends < 1 + ((queueTrace schedule first).session session).retries ∧
        QueuedAs ptr session (sends + 1) (queueTrace schedule later)) := by
  obtain ⟨request, member, isPtr, isSession, atLeast⟩ := queued
  have ok := (trace_ok fair first).1
  have timer : request.timer = true := by
    rw [ok.timers request member]
    exact bne_iff_ne.mpr (by omega)
  obtain ⟨later, after, fires | absent⟩ := fair.timers first request member timer
  · rcases held_or_reached (fun time => QueuedAs ptr session sends (queueTrace schedule time))
        (fun time => isQueued ptr (queueTrace schedule time) = false) (request_stays fair) after
        ⟨request, member, isPtr, isSession, atLeast⟩ with
      ⟨time, behind, absent⟩ | ⟨same, inQueue, samePtr, sameSession, sent⟩
    · exact ⟨time, behind, .inl absent⟩
    · have known := ok.known _ (ok.owned request member)
      have limits := (trace_limits fair after known).2.2
      have active : isActive same = true := by
        exact bne_iff_ne.mpr (by omega)
      refine ⟨later + 1, Nat.le_succ_of_le after, ?_⟩
      have step := timeout_step (trace_ok fair later).1 inQueue active
      rw [samePtr, ← isPtr, ← fires, isPtr, sameSession, ← isSession, limits, isSession] at step
      rcases step with absent | ⟨_, resent⟩
      · exact .inl absent
      · exact .inr ⟨by omega, transmit same, resent, samePtr, sameSession, Nat.succ_le_succ sent⟩
  · exact ⟨later, after, .inl (isPtr ▸ absent)⟩

variable {time : Nat}

theorem active_leaves {request : Request} (member : request ∈ (queueTrace schedule time).queueHead)
    (active : isActive request = true) : ∃ later ≥ time, isQueued request.ptr (queueTrace schedule later) = false := by
  have ok := (trace_ok fair time).1
  have known := ok.known _ (ok.owned request member)
  have retried : ∀ left sends first, time ≤ first → sends ≠ 0 →
      1 + ((queueTrace schedule time).session request.session).retries ≤ sends + left →
      QueuedAs request.ptr request.session sends (queueTrace schedule first) →
      ∃ later ≥ first, isQueued request.ptr (queueTrace schedule later) = false := by
    intro left
    induction left with
    | zero =>
      intro sends first behind wasSent limit queued
      obtain ⟨later, after, absent | ⟨below, _⟩⟩ := timer_fires fair wasSent queued
      · exact ⟨later, after, absent⟩
      · rw [(trace_limits fair behind known).2.2] at below
        omega
    | succ _ ih =>
      intro sends _ behind wasSent _ queued
      obtain ⟨later, after, absent | ⟨_, again⟩⟩ := timer_fires fair wasSent queued
      · exact ⟨later, after, absent⟩
      · obtain ⟨last, beyond, absent⟩ :=
          ih (sends + 1) later (behind.trans after) (Nat.succ_ne_zero _) (by omega) again
        exact ⟨last, after.trans beyond, absent⟩
  exact retried _ request.sends time (le_refl _) (by simpa [isActive] using active) (Nat.le_add_left _ _)
    ⟨request, member, rfl, rfl, le_refl _⟩

def Waits (ptr session : Nat) (manager : Manager) : Prop :=
  (∀ request ∈ manager.queueHead, ptr ≤ request.ptr) ∧
    ∃ request ∈ manager.queueHead, request.ptr = ptr ∧ request.session = session ∧ isActive request = false

omit fair in
theorem Waits.head {manager : Manager} (ok : QueueOk manager) (waits : Waits ptr session manager) :
    ∃ request rest, manager.queueHead = request :: rest ∧ request.ptr = ptr ∧ request.session = session ∧
      isActive request = false := by
  obtain ⟨oldest, request, member, isPtr, isSession, inactive⟩ := waits
  have ordered := ok.ordered
  cases queue : manager.queueHead with
  | nil => simp [queue] at member
  | cons first rest =>
    rw [queue] at member ordered
    rcases List.mem_cons.mp member with rfl | later
    · exact ⟨request, rest, rfl, isPtr, isSession, inactive⟩
    · have below : first.ptr < request.ptr :=
        (List.pairwise_cons.mp ordered).1 request.ptr (List.mem_map.mpr ⟨request, later, rfl⟩)
      have above := oldest first (by simp [queue])
      omega

theorem waits_step (time : Nat) (waits : Waits ptr session (queueTrace schedule time)) :
    Settled ptr (queueTrace schedule (time + 1)) ∨ (Waits ptr session (queueTrace schedule (time + 1)) ∧
        HeadKept session (queueTrace schedule time) (queueTrace schedule (time + 1))) := by
  have ok := (trace_ok fair time).1
  obtain ⟨head, _, queue, isPtr, isSession, inactive⟩ := waits.head ok
  have isMember : head ∈ (queueTrace schedule time).queueHead := by simp [queue]
  by_cases settled : Settled ptr (queueTrace schedule (time + 1))
  · exact .inl settled
  · refine .inr ⟨⟨?_, ?_⟩, ?_⟩
    · intro later member
      rcases (ok.step _).origin ok later member with _ | ⟨earlier, isEarlier, samePtr, _⟩
      · have old := ok.fresh head isMember
        omega
      · exact samePtr ▸ waits.1 earlier isEarlier
    · simp only [Settled, not_forall] at settled
      obtain ⟨later, member, laterPtr, notSent⟩ := settled
      refine ⟨later, member, laterPtr, ?_, by simpa using notSent⟩
      rcases request_stays fair time ⟨head, isMember, isPtr, isSession, Nat.zero_le _⟩ with
        absent | ⟨same, inQueue, samePtr, sameSession, _⟩
      · exact absurd (isQueued_eq_true.mpr ⟨later, member, laterPtr⟩) (by simp [absent])
      · rw [(trace_ok fair (time + 1)).1.eq_of_ptr member inQueue (laterPtr.trans samePtr.symm)]
        exact sameSession
    · rcases (ok.step _).head (fair.fixed time) ok queue inactive with sent | kept
      · exact absurd (isPtr ▸ sent) settled
      · exact isSession ▸ kept

def activePtrs (keep : Request → Bool) (manager : Manager) : Finset Nat :=
  ((manager.queueHead.filter fun request => isActive request && keep request).map (·.ptr)).toFinset

omit fair in
theorem mem_activePtrs {keep : Request → Bool} {manager : Manager} : ptr ∈ activePtrs keep manager ↔
      ∃ request ∈ manager.queueHead, isActive request = true ∧ keep request = true ∧ request.ptr = ptr := by
  simp [activePtrs, and_assoc]

theorem drains (keep : Request → Bool) (held goal : Manager → Prop)
    (kept : ∀ time, held (queueTrace schedule time) → goal (queueTrace schedule (time + 1)) ∨
      (held (queueTrace schedule (time + 1)) ∧ activePtrs keep (queueTrace schedule (time + 1)) ⊆
        activePtrs keep (queueTrace schedule time)))
    (busy : ∀ time, held (queueTrace schedule time) → goal (queueTrace schedule time) ∨
      ∃ request ∈ (queueTrace schedule time).queueHead, isActive request = true ∧ keep request = true)
    (start : held (queueTrace schedule time)) : ∃ later ≥ time, goal (queueTrace schedule later) := by
  refine reached_of_rank (fun time => held (queueTrace schedule time)) (fun time => goal (queueTrace schedule time))
    (fun time => (activePtrs keep (queueTrace schedule time)).card) (fun first holds => ?_) time start
  rcases busy first holds with reached | ⟨request, member, active, isKept⟩
  · exact ⟨first, le_refl _, .inl reached⟩
  · obtain ⟨later, after, absent⟩ := active_leaves fair member active
    rcases held_or_reached (fun time => held (queueTrace schedule time) ∧
        activePtrs keep (queueTrace schedule time) ⊆ activePtrs keep (queueTrace schedule first))
        (fun time => goal (queueTrace schedule time))
        (fun time before => (kept time before.1).imp_right fun next => ⟨next.1, next.2.trans before.2⟩)
        after ⟨holds, subset_refl _⟩ with ⟨last, behind, reached⟩ | ⟨still, subset⟩
    · exact ⟨last, behind, .inl reached⟩
    · refine ⟨later, after, .inr ⟨still, Finset.card_lt_card ⟨subset, fun superset => ?_⟩⟩⟩
      obtain ⟨same, inQueue, _, _, samePtr⟩ :=
        mem_activePtrs.mp (superset (mem_activePtrs.mpr ⟨request, member, active, isKept, rfl⟩))
      exact absurd (isQueued_eq_true.mpr ⟨same, inQueue, samePtr⟩) (by simp [absent])

theorem waits_settles (waits : Waits ptr session (queueTrace schedule time)) :
    ∃ later ≥ time, Settled ptr (queueTrace schedule later) := by
  -- without room, the active requests of the session leave until there is some
  obtain ⟨first, after, either⟩ := drains fair (fun request => request.session == session) (Waits ptr session)
    (fun manager => Settled ptr manager ∨ HasRoom session manager)
    (fun time holds => by
      rcases waits_step fair time holds with settled | ⟨still, kept⟩
      · exact .inl (.inl settled)
      · refine .inr ⟨still, fun other member => ?_⟩
        obtain ⟨later, inQueue, active, isSession, rfl⟩ := mem_activePtrs.mp member
        obtain ⟨earlier, isEarlier, samePtr, sameSession, wasActive⟩ :=
          kept.active later inQueue active (.inl (by simpa using isSession))
        exact mem_activePtrs.mpr ⟨earlier, isEarlier, wasActive, by rw [sameSession]; exact isSession, samePtr⟩)
    (fun time holds => by
      have ok := (trace_ok fair time).1
      by_cases room : HasRoom session (queueTrace schedule time)
      · exact .inl (.inr room)
      · obtain ⟨request, member, _, isSession, _⟩ := holds.2
        have counted := (ok.counters session (isSession ▸ ok.owned request member)).1
        rw [HasRoom] at room
        have someActive : 0 < activeOf session (queueTrace schedule time).queueHead := by omega
        obtain ⟨active, inQueue, both⟩ := List.countP_pos_iff.mp someActive
        rw [Bool.and_eq_true] at both
        exact .inr ⟨active, inQueue, both.2, both.1⟩)
    waits
  -- with room, all active requests leave until the request is sent
  rcases held_or_reached (fun time => Waits ptr session (queueTrace schedule time))
      (fun time => Settled ptr (queueTrace schedule time))
      (fun time before => (waits_step fair time before).imp_right And.left) after waits with
    ⟨settledAt, behind, settled⟩ | stillWaits
  · exact ⟨settledAt, behind, settled⟩
  · rcases either with settled | room
    · exact ⟨first, after, settled⟩
    · obtain ⟨last, behind, settled⟩ := drains fair (fun _ => true)
        (fun manager => Waits ptr session manager ∧ HasRoom session manager) (Settled ptr)
        (fun time holds => by
          rcases waits_step fair time holds.1 with settled | ⟨still, kept⟩
          · exact .inl settled
          · refine .inr ⟨⟨still, kept.hasRoom holds.2⟩, fun other member => ?_⟩
            obtain ⟨later, inQueue, active, _, rfl⟩ := mem_activePtrs.mp member
            obtain ⟨earlier, isEarlier, samePtr, _, wasActive⟩ := kept.active later inQueue active (.inr holds.2)
            exact mem_activePtrs.mpr ⟨earlier, isEarlier, wasActive, rfl, samePtr⟩)
        (fun time holds => by
          obtain ⟨request, member, _, _, inactive⟩ := holds.1.2
          obtain ⟨active, inQueue, isSent⟩ := (trace_ok fair time).2 ⟨request, member, inactive⟩
          exact .inr ⟨active, inQueue, isSent, rfl⟩)
        ⟨stillWaits, room⟩
      exact ⟨last, after.trans behind, settled⟩

theorem request_leaves (ptr time : Nat) (known : ptr < (queueTrace schedule time).nextPtr) :
    ∃ later ≥ time, isQueued ptr (queueTrace schedule later) = false := by
  induction ptr using Nat.strongRecOn generalizing time with
  | ind ptr ih =>
    have older : ∀ bound ≤ ptr, ∃ later ≥ time, ∀ other < bound,
        isQueued other (queueTrace schedule later) = false := by
      intro bound
      induction bound with
      | zero => exact fun _ => ⟨time, le_refl _, by simp⟩
      | succ bound inner =>
        intro within
        obtain ⟨first, after, absent⟩ := inner (Nat.le_of_succ_le within)
        have knownFirst := trace_nextPtr fair after known
        obtain ⟨later, behind, gone⟩ := ih bound within first (by omega)
        refine ⟨later, after.trans behind, fun other below => ?_⟩
        rcases Nat.lt_succ_iff_lt_or_eq.mp below with smaller | rfl
        · exact absent_stays fair behind (by omega) (absent other smaller)
        · exact gone
    have settledLeaves : ∀ first, Settled ptr (queueTrace schedule first) →
        ∃ later ≥ first, isQueued ptr (queueTrace schedule later) = false := by
      intro first settled
      by_cases queued : isQueued ptr (queueTrace schedule first) = true
      · obtain ⟨request, member, rfl⟩ := isQueued_eq_true.mp queued
        exact active_leaves fair member (settled request member rfl)
      · exact ⟨first, le_refl _, by simpa using queued⟩
    obtain ⟨first, after, absent⟩ := older ptr (le_refl _)
    by_cases settled : Settled ptr (queueTrace schedule first)
    · obtain ⟨later, behind, gone⟩ := settledLeaves first settled
      exact ⟨later, after.trans behind, gone⟩
    · simp only [Settled, not_forall] at settled
      obtain ⟨request, member, isPtr, inactive⟩ := settled
      have waits : Waits ptr request.session (queueTrace schedule first) := by
        refine ⟨fun other isQueuedToo => ?_, request, member, isPtr, rfl, by simpa using inactive⟩
        by_contra younger
        have gone := absent other.ptr (by omega)
        exact absurd (isQueued_eq_true.mpr ⟨other, isQueuedToo, rfl⟩) (by simp [gone])
      obtain ⟨middle, behind, nowSettled⟩ := waits_settles fair waits
      obtain ⟨later, beyond, gone⟩ := settledLeaves middle nowSettled
      exact ⟨later, after.trans (behind.trans beyond), gone⟩

end

def twoTimers : Nat → QueueAction
  | 0 => .createSession 1 0
  | 1 => .submit 0 7
  | 2 => .submit 0 8
  | 3 => .timeout 0
  | _ => .timeout 1

theorem twoTimers_empty (time : Nat) : (queueTrace twoTimers (time + 5)).queueHead = [] := by
  induction time with
  | zero => decide
  | succ time ih =>
    change (tnmSnmpTimeoutProc 1 (queueTrace twoTimers (time + 5))).queueHead = []
    rw [tnmSnmpTimeoutProc, ih]
    exact ih

theorem twoTimers_fair : FairSchedule twoTimers := by
  refine ⟨?_, ?_, ?_⟩
  · intro time
    rcases time with _ | _ | _ | _ | _ <;> exact trivial
  · intro time
    rcases time with _ | _ | _ | _ | _ <;> exact trivial
  · intro time request _ _
    have left : isQueued request.ptr (queueTrace twoTimers (time + 5)) = false := by
      rw [isQueued, twoTimers_empty]
      rfl
    exact ⟨time + 5, Nat.le_add_right _ _, .inr left⟩

end Tnm
