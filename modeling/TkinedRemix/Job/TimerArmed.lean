import TkinedRemix.Job.SchedulerSteps

/-!
Outside the scheduler the timer fires no later than the first job that waits for it is due, unless `destroy` or
a refresh that counts too much changes a job without `NextSchedule`.
-/

namespace Tnm.Jobs

open Lib List Option

def Control.Outside (control : Control) : Prop := ∀ frame ∈ control.frames, ∃ target, frame = .wait target

def Job.Pending (job : Job) : Prop := job.status = .waiting ∨ job.status = .expired

/-- The timer fires no later than the remaining time of any pending job is over. -/
def Control.Armed (control : Control) : Prop :=
  ∀ job ∈ control.jobs, job.Pending →
    ∃ deadline, control.timer = some deadline ∧
      deadline ≤ control.lastTime.micros + 1000 * job.remtime.toNat

section

theorem elapsed_le {last now : TclTime} (even : last.usec ≤ now.usec) (forward : last.micros ≤ now.micros) :
    1000 * elapsed last now ≤ (now.micros : Int) - last.micros := by
  unfold TclTime.micros at forward ⊢
  unfold elapsed
  have nonneg : (0 : Int) ≤ (now.usec : Int) - last.usec := by omega
  rw [Int.tdiv_eq_ediv_of_nonneg nonneg]
  generalize whole : 1000 * ((now.sec : Int) - last.sec) + ((now.usec : Int) - last.usec) / 1000 = total
  have wrapped : Int.bmod total 4294967296 ≤ total := by
    rw [Int.bmod_def]
    split <;> omega
  omega

variable {job : Job}

theorem nextDelay_pending (ms : Int) (pending : job.Pending) :
    0 ≤ nextDelay ms job ∧ nextDelay ms job ≤ job.remtime.toNat := by
  unfold nextDelay
  split
  · split <;> omega
  next neither =>
    have bounds : ¬(ms < 0 ∨ job.remtime < ms) := fun either => neither ⟨pending, either⟩
    omega

theorem nextDelay_le {ms : Int} (nonneg : 0 ≤ ms) (job : Job) : 0 ≤ nextDelay ms job ∧ nextDelay ms job ≤ ms := by
  unfold nextDelay
  omega

theorem foldl_nextDelay_le {ms : Int} (nonneg : 0 ≤ ms) (jobs : List Job) :
    0 ≤ jobs.foldl nextDelay ms ∧ jobs.foldl nextDelay ms ≤ ms := by
  induction jobs generalizing ms with
  | nil => exact ⟨nonneg, le_rfl⟩
  | cons job _ ih =>
    have first := nextDelay_le nonneg job
    have later := ih first.1
    exact ⟨later.1, later.2.trans first.2⟩

theorem foldl_nextDelay_pending (ms : Int) {jobs : List Job} (member : job ∈ jobs) (pending : job.Pending) :
    0 ≤ jobs.foldl nextDelay ms ∧ jobs.foldl nextDelay ms ≤ job.remtime.toNat := by
  induction jobs generalizing ms with
  | nil => cases member
  | cons first rest ih =>
    rcases mem_cons.mp member with same | inRest
    · subst same
      have reached := nextDelay_pending ms pending
      have later := foldl_nextDelay_le reached.1 rest
      exact ⟨later.1, later.2.trans reached.2⟩
    · exact ih (nextDelay ms first) inRest

structure Punctual (control : Control) : Prop where
  armed : control.Armed
  past : control.lastTime.micros ≤ control.now.micros

variable {control : Control}

theorem nextSchedule_punctual (fresh : control.lastTime = control.now) : Punctual (nextSchedule control) := by
  unfold nextSchedule
  dsimp only
  split
  next negative =>
    refine ⟨?_, Nat.zero_le _⟩
    intro job member pending
    have bound := foldl_nextDelay_pending (-1) (show job ∈ control.jobs from member) pending
    omega
  · refine ⟨?_, le_of_eq (by rw [fresh])⟩
    intro job member pending
    have bound := foldl_nextDelay_pending (-1) (show job ∈ control.jobs from member) pending
    refine ⟨_, rfl, ?_⟩
    rw [fresh]
    omega

variable {after : Control}

theorem adjustTime_punctual (adjusted : adjustTime control = some after)
    (even : control.lastTime.usec ≤ control.now.usec) (punctual : Punctual control) : Punctual after := by
  obtain ⟨delta, nonneg, counted, rfl⟩ := adjustTime_inv adjusted
  refine ⟨?_, le_rfl⟩
  intro _ member pending
  obtain ⟨old, oldMember, rfl⟩ := List.mem_map.mp member
  have oldPending : old.Pending := by rwa [Job.Pending, refresh_status] at pending
  obtain ⟨deadline, armed, _⟩ := punctual.armed old oldMember oldPending
  refine ⟨deadline, armed, ?_⟩
  have past := punctual.past
  have counted : 1000 * delta ≤ (control.now.micros : Int) - control.lastTime.micros := by
    rcases counted with _ | all
    · omega
    · rw [all]
      exact elapsed_le even past
  have lower := le_refresh_remtime nonneg old
  dsimp only
  omega

variable {id : Nat}

theorem modify_punctual {changed : Job} (found : control.find id = some job) (status : changed.status = job.status)
    (remtime : changed.remtime = job.remtime) (punctual : Punctual control) :
    Punctual (control.modify id fun _ => changed) := by
  refine ⟨?_, punctual.past⟩
  intro other member pending
  rcases mem_modify member with ⟨_, oldMember, same, rfl⟩ | ⟨kept, _⟩
  · rw [remtime]
    exact punctual.armed job (find_linked found oldMember same) (by rwa [Job.Pending, status] at pending)
  · exact punctual.armed other kept pending

theorem setOptions_punctual {settings : List Setting} {ok : Bool}
    (set : setOptions control id settings = some (after, ok)) (punctual : Punctual control) : Punctual after := by
  refine setOptions_rule Punctual ?_ ?_ set punctual
  · intro middle job setting changed member found valid other before
    obtain ⟨_, remtime, status⟩ := setOption_keeps valid
    exact modify_punctual found (status other) remtime before
  · intro _ _ _ _ _ _ _ _ clock _
    exact nextSchedule_punctual (adjustTime_fresh clock)

def Even (control : Control) : Prop := control.lastTime.usec ≤ control.now.usec

theorem nextSchedule_even (fresh : control.lastTime = control.now) : Even (nextSchedule control) := by
  unfold nextSchedule
  dsimp only
  split
  · exact Nat.zero_le _
  · exact le_of_eq (by rw [fresh])

theorem setOptions_even {settings : List Setting} (set : setOptions control id settings = some (after, true))
    (even : settings.any Setting.isStatus = true ∨ Even control) : Even after := by
  induction settings generalizing control with
  | nil =>
    cases set
    simpa using even
  | cons _ _ ih =>
    obtain ⟨_, _, set⟩ := bind_eq_some_iff.mp set
    split at set
    · cases set
    next changed valid =>
      split at set
      · obtain ⟨_, clock, set⟩ := bind_eq_some_iff.mp set
        exact ih set (.inr (nextSchedule_even (adjustTime_fresh clock)))
      next other =>
        refine ih set ?_
        rcases even with status | even
        · exact .inl (by simpa [other] using status)
        · exact .inr even

end

section

/-- The steps outside the scheduler that keep the timer armed. -/
def Kept (state : Option Control) (action : Action) : Prop :=
  ∀ control, state = some control → control.Outside →
    match action with
    | .clock time => control.now.micros ≤ time.micros
    | .cgetTime _ => Even control
    | .configure _ settings => settings.any Setting.isStatus = true ∨ Even control
    | .destroy id => ∀ job ∈ control.jobs, job.id = id → job.Pending
    | _ => True

theorem outside_wait (target : Option Nat) (frames : List Frame) :
    (∀ frame ∈ Frame.wait target :: frames, ∃ other, frame = .wait other) ↔
      ∀ frame ∈ frames, ∃ other, frame = .wait other := by
  simp

inductive Returned : Control → Prop where
  | intro {adjusted : Control} (refreshed : adjusted.lastTime = adjusted.now)
      (clean : ∀ job ∈ adjusted.jobs, job.status ≠ .expired) : Returned (nextSchedule adjusted)

variable {control : Control}

theorem Returned.punctual (returned : Returned control) : Punctual control := by
  cases returned with
  | intro refreshed => exact nextSchedule_punctual refreshed

theorem Returned.clean (returned : Returned control) : ∀ job ∈ control.jobs, job.status ≠ .expired := by
  cases returned with
  | intro => rwa [nextSchedule_jobs]

variable {after : Control}

theorem swept_returned (swept : Swept control after) (outside : after.Outside) : Returned after := by
  cases swept with
  | exit id _ _ frames =>
    obtain ⟨_, same⟩ := outside (.exit id) (by rw [frames]; exact mem_cons_self)
    cases same
  | returned refreshed _ _ clean => exact .intro refreshed clean

theorem rounded_returned (rounded : Rounded control after) (outside : after.Outside) : Returned after := by
  cases rounded with
  | command id _ _ frames =>
    obtain ⟨_, same⟩ := outside (.command id) (by rw [frames]; exact mem_cons_self)
    cases same
  | idle _ swept => exact swept_returned swept outside

theorem schedule_returned (done : schedule control = some after) (outside : after.Outside) : Returned after := by
  obtain ⟨_, _, run⟩ := bind_eq_some_iff.mp done
  exact rounded_returned (runJobs_rounded run).1 outside

theorem finish_returned {failed : Bool} (done : finish control failed = some after) (outside : after.Outside) :
    after = control ∨ Returned after := by
  cases (finish_finished done).1 with
  | idle => exact .inl rfl
  | failed id =>
    obtain ⟨_, same⟩ := outside (.error id) mem_cons_self
    cases same
  | evaluated _ _ _ _ _ rounded => exact .inr (rounded_returned rounded outside)
  | exited _ _ _ swept => exact .inr (swept_returned swept outside)

variable {settings : List Setting}

theorem createJob_punctual (done : createJob control settings = some after) (punctual : Punctual control) :
    Punctual after := by
  obtain ⟨⟨_, _⟩, set, rfl⟩ := map_eq_some_iff.mp done
  obtain ⟨⟨_, complete⟩, options, rest⟩ := bind_eq_some_iff.mp set
  have armed := setOptions_punctual options ⟨punctual.armed, punctual.past⟩
  cases complete with
  | true =>
    obtain ⟨_, clock, same⟩ := map_eq_some_iff.mp rest
    cases same
    have fresh := adjustTime_fresh clock
    exact nextSchedule_punctual fresh
  | false =>
    cases rest
    exact ⟨armed.armed, armed.past⟩

theorem createJob_same (done : createJob control settings = some after) :
    after.frames = control.frames ∧ after.ran = control.ran := by
  obtain ⟨⟨_, ok⟩, set, rfl⟩ := map_eq_some_iff.mp done
  have same := setConfig_same set
  cases ok with
  | true => exact ⟨(nextSchedule_same _).frames.trans same.frames, (nextSchedule_same _).ran.trans same.ran⟩
  | false => exact ⟨same.frames, same.ran⟩

/-- Only the scheduler returns. -/
theorem jobAction_outside {action : Action} (done : jobAction control action = some after) (outside : after.Outside) :
    control.Outside ∨ Returned after := by
  cases jobAction_acted done with
  | nothing | clock | destroyed | deleted => exact .inl outside
  | created _ done => exact .inl (by rwa [Control.Outside, ← (createJob_same done).1])
  | configured _ _ set => exact .inl (by rwa [Control.Outside, ← (setConfig_same set).frames])
  | read _ clock => exact .inl (by rwa [Control.Outside, ← (adjustTime_same clock).frames])
  | waits target => exact .inl ((outside_wait target control.frames).mp outside)
  | waited target frames top =>
    exact .inl (by rw [Control.Outside, top]; exact (outside_wait target frames).mpr outside)
  | scheduled _ _ done => exact .inr (schedule_returned done outside)
  | finished _ done =>
    rcases finish_returned done outside with rfl | returned
    · exact .inl outside
    · exact .inr returned

theorem setConfig_punctual {id : Nat} {ok : Bool} (set : setConfig control id settings = some (after, ok))
    (punctual : Punctual control) (even : settings.any Setting.isStatus = true ∨ Even control) : Punctual after := by
  obtain ⟨⟨_, complete⟩, options, rest⟩ := bind_eq_some_iff.mp set
  have armed := setOptions_punctual options punctual
  cases complete with
  | true =>
    obtain ⟨_, clock, same⟩ := map_eq_some_iff.mp rest
    cases same
    exact adjustTime_punctual clock (setOptions_even options even) armed
  | false =>
    cases rest
    exact armed

theorem destroy_punctual {id : Nat} (punctual : Punctual control)
    (waits : ∀ job ∈ control.jobs, job.id = id → job.Pending) :
    Punctual (control.modify id fun job => { job with status := .expired }) := by
  refine ⟨?_, punctual.past⟩
  intro job member pending
  rcases mem_modify member with ⟨old, oldMember, same, rfl⟩ | ⟨kept, _⟩
  · exact punctual.armed old oldMember (waits old oldMember same)
  · exact punctual.armed job kept pending

theorem jobAction_punctual {action : Action} (kept : Kept (some control) action)
    (done : jobAction control action = some after) (before : control.Outside → Punctual control)
    (outside : after.Outside) : Punctual after := by
  rcases jobAction_outside done outside with wasOutside | returned
  swap
  · exact returned.punctual
  have punctual := before wasOutside
  have kept := kept control rfl wasOutside
  cases jobAction_acted done with
  | nothing => exact punctual
  | clock => exact ⟨punctual.armed, punctual.past.trans kept⟩
  | created _ done => exact createJob_punctual done punctual
  | configured _ _ set => exact setConfig_punctual set punctual kept
  | read _ clock => exact adjustTime_punctual clock kept punctual
  | destroyed => exact destroy_punctual punctual kept
  | deleted => exact ⟨fun job member => punctual.armed job (mem_of_mem_filter member), punctual.past⟩
  | waits | waited => exact ⟨punctual.armed, punctual.past⟩
  | scheduled _ _ done => exact (schedule_returned done outside).punctual
  | finished _ done =>
    rcases finish_returned done outside with same | returned
    · exact same ▸ punctual
    · exact returned.punctual

end

section

/-- Outside the scheduler a job is set to expired only when its time is over. -/
def Prompt (state : Option Control) (action : Action) : Prop :=
  ∀ control, state = some control → control.Outside →
    match action with
    | .destroy id => ∀ job ∈ control.jobs, job.id = id → job.remtime ≤ 0
    | .configure id settings =>
      .status (some .expired) ∈ settings → ∀ job ∈ control.jobs, job.id = id → job.remtime ≤ 0
    | _ => True

def Over (control : Control) (may : Prop) (id : Nat) : Prop :=
  ∀ job ∈ control.jobs, job.status = .expired ∨ (may ∧ job.id = id) → job.remtime ≤ 0

variable {control after : Control} {id : Nat}

theorem adjustTime_over {may : Prop} (adjusted : adjustTime control = some after) (late : Over control may id) :
    Over after may id := by
  obtain ⟨_, nonneg, _, rfl⟩ := adjustTime_inv adjusted
  intro _ member expires
  obtain ⟨old, oldMember, rfl⟩ := List.mem_map.mp member
  rw [refresh_status, refresh_id] at expires
  exact (refresh_remtime_le nonneg old).trans (late old oldMember expires)

variable {job changed : Job} {setting : Setting}

theorem setOption_expires (set : setOption job setting = some changed) (expired : changed.status = .expired) :
    job.status = .expired ∨ setting = .status (some .expired) := by
  cases status : setting.isStatus with
  | false => exact .inl ((setOption_keeps set).2.2 status ▸ expired)
  | true =>
    cases setting with
    | status value =>
      obtain ⟨value, rfl, rfl⟩ := map_eq_some_iff.mp set
      cases value with
      | expired => exact .inr rfl
      | suspended | waiting | running => cases expired
    | command | error | exit | interval | iterations | tags | time => cases status

theorem modify_over {may : Prop} (allowed : setting = .status (some .expired) → may)
    (found : control.find id = some job) (set : setOption job setting = some changed) (late : Over control may id) :
    Over (control.modify id fun _ => changed) may id := by
  intro other member expires
  rcases mem_modify member with ⟨_, oldMember, same, rfl⟩ | ⟨kept, _⟩
  · rw [(setOption_keeps set).2.1]
    refine late job (find_linked found oldMember same) ?_
    rcases expires with expired | mayExpire
    · rcases setOption_expires set expired with before | now
      · exact .inl before
      · exact .inr ⟨allowed now, find_id found⟩
    · exact .inr ⟨mayExpire.1, find_id found⟩
  · exact late other kept expires

variable {settings : List Setting} {ok : Bool}

theorem setConfig_over (set : setConfig control id settings = some (after, ok))
    (late : Over control (.status (some .expired) ∈ settings) id) :
    Over after (.status (some .expired) ∈ settings) id :=
  setConfig_rule _ (fun member found valid => modify_over (fun this => this ▸ member) found valid) adjustTime_over
    (fun before => by rwa [Over, nextSchedule_jobs]) set late

def Untimed (control : Control) (id : Nat) : Prop :=
  ∀ job ∈ control.jobs ++ control.unlinked, job.id = id → job.remtime ≤ 0

theorem modify_untimed (found : control.find id = some job) (set : setOption job setting = some changed)
    (untimed : Untimed control id) : Untimed (control.modify id fun _ => changed) id := by
  intro _ member same
  obtain ⟨_, _, rfl⟩ := List.mem_map.mp (map_append ▸ member)
  unfold modifyJob at same ⊢
  split
  · rw [(setOption_keeps set).2.1]
    exact untimed job (mem_of_find?_eq_some found) (find_id found)
  next differs =>
    rw [if_neg differs] at same
    exact absurd same differs

theorem adjustTime_untimed (adjusted : adjustTime control = some after) (untimed : Untimed control id) :
    Untimed after id := by
  obtain ⟨_, nonneg, _, rfl⟩ := adjustTime_inv adjusted
  intro job member same
  rcases mem_append.mp member with linked | unlinked
  · obtain ⟨old, oldMember, rfl⟩ := List.mem_map.mp linked
    rw [refresh_id] at same
    exact (refresh_remtime_le nonneg old).trans (untimed old (mem_append_left _ oldMember) same)
  · exact untimed job (mem_append_right _ unlinked) same

theorem nextSchedule_untimed (untimed : Untimed control id) : Untimed (nextSchedule control) id := by
  unfold nextSchedule
  dsimp only
  split <;> exact untimed

theorem setConfig_untimed (set : setConfig control id settings = some (after, ok)) (untimed : Untimed control id) :
    Untimed after id :=
  setConfig_rule (Untimed · id) (fun _ => modify_untimed) adjustTime_untimed nextSchedule_untimed set untimed

def Late (control : Control) : Prop := ∀ job ∈ control.jobs, job.status = .expired → job.remtime ≤ 0

theorem createJob_late (done : createJob control settings = some after) (numbered : Numbered control)
    (late : Late control) : Late after := by
  obtain ⟨⟨_, ok⟩, set, rfl⟩ := map_eq_some_iff.mp done
  have older : ∀ job ∈ control.jobs ++ control.unlinked, job.id ≠ control.nextId := by
    intro job member same
    have smaller := numbered.below job.id (by rw [← map_append]; exact List.mem_map_of_mem member)
    omega
  have late := setConfig_over set (by
    intro job member expires
    rcases expires with expired | ⟨_, new⟩
    · exact late job member expired
    · exact absurd new (older job (mem_append_left _ member)))
  have untimed := setConfig_untimed set (by
    intro job member same
    rcases mem_cons.mp (perm_middle.mem_iff.mp member) with rfl | old
    · exact le_rfl
    · exact absurd same (older job old))
  cases ok with
  | false => exact fun job member expired => late job member (.inl expired)
  | true =>
    intro job member expired
    dsimp only at member
    rw [if_pos rfl, nextSchedule_jobs] at member
    rcases mem_append.mp member with old | new
    · exact late job old (.inl expired)
    · obtain ⟨inUnlinked, same⟩ := mem_filter.mp new
      exact untimed job (mem_append_right _ inUnlinked) (eq_of_beq same)

theorem jobAction_late {action : Action} (prompt : Prompt (some control) action)
    (done : jobAction control action = some after) (numbered : Numbered control)
    (before : control.Outside → Late control) (outside : after.Outside) : Late after := by
  have cleaned : Returned after → Late after := fun returned job member expired =>
    absurd expired (returned.clean job member)
  rcases jobAction_outside done outside with wasOutside | returned
  swap
  · exact cleaned returned
  have late := before wasOutside
  have prompt := prompt control rfl wasOutside
  cases jobAction_acted done with
  | nothing | clock | waits | waited => exact late
  | created _ done => exact createJob_late done numbered late
  | configured _ _ set =>
    have passed := setConfig_over set (by
      intro job member expires
      rcases expires with expired | ⟨may, same⟩
      · exact late job member expired
      · exact prompt may job member same)
    exact fun job member expired => passed job member (.inl expired)
  | read _ clock =>
    have passed := adjustTime_over clock fun job member expires =>
      late job member (expires.resolve_right fun may : False ∧ job.id = 0 => may.1)
    exact fun job member expired => passed job member (.inl expired)
  | destroyed =>
    intro job member expired
    rcases mem_modify member with ⟨old, oldMember, same, rfl⟩ | ⟨kept, _⟩
    · exact prompt old oldMember same
    · exact late job kept expired
  | deleted => exact fun job member => late job (mem_of_mem_filter member)
  | scheduled _ _ done => exact cleaned (schedule_returned done outside)
  | finished _ done =>
    rcases finish_returned done outside with same | returned
    · exact same ▸ late
    · exact cleaned returned

end

end Tnm.Jobs
