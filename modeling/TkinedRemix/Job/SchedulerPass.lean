import TkinedRemix.Job.TimerArmed

/-!
A pass of the scheduler. A job that is due when it starts has run when it returns, unless a script has changed
it, and no expired job is left.
-/

namespace Tnm.Jobs

open Lib List

def Control.DueJob (control : Control) (id : Nat) : Prop := ∃ job ∈ control.jobs, job.id = id ∧ job.Due

def Action.touches (id : Nat) : Action → Bool
  | .configure other _ => other == id
  | .destroy other => other == id
  | .delete other => other == id
  | _ => false

section

variable {control after : Control} {id : Nat}

theorem adjustTime_dueJob (adjusted : adjustTime control = some after) (due : control.DueJob id) : after.DueJob id := by
  obtain ⟨_, member, rfl, due⟩ := due
  exact adjustTime_due adjusted member due

theorem nextSchedule_dueJob (due : control.DueJob id) : (nextSchedule control).DueJob id := by
  rwa [Control.DueJob, nextSchedule_jobs]

variable {other : Nat}

theorem modify_dueJob {change : Job → Job} (differs : other ≠ id) (due : control.DueJob id) :
    (control.modify other change).DueJob id := by
  obtain ⟨job, member, rfl, due⟩ := due
  refine ⟨job, mem_map.mpr ⟨job, member, ?_⟩, rfl, due⟩
  rw [modifyJob, if_neg fun same => differs same.symm]

theorem deleteProc_dueJob (differs : other ≠ id) (due : control.DueJob id) : (deleteProc control other).DueJob id := by
  obtain ⟨job, member, rfl, due⟩ := due
  refine ⟨job, mem_filter.mpr ⟨member, ?_⟩, rfl, due⟩
  exact bne_iff_ne.mpr fun same => differs same.symm

theorem setConfig_dueJob {settings : List Setting} {ok : Bool}
    (set : setConfig control other settings = some (after, ok)) (differs : other ≠ id) (due : control.DueJob id) :
    after.DueJob id :=
  setConfig_rule (Control.DueJob · id) (fun _ _ _ => modify_dueJob differs) adjustTime_dueJob
    nextSchedule_dueJob set due

theorem createJob_dueJob {settings : List Setting} (done : createJob control settings = some after)
    (numbered : Numbered control) (due : control.DueJob id) : after.DueJob id := by
  obtain ⟨⟨configured, ok⟩, set, rfl⟩ := Option.map_eq_some_iff.mp done
  have older : control.nextId ≠ id := by
    obtain ⟨job, member, rfl, _⟩ := due
    have smaller := numbered.below job.id (mem_append_left _ (mem_map_of_mem member))
    omega
  have kept : configured.DueJob id := setConfig_dueJob set older due
  cases ok with
  | false => exact kept
  | true =>
    obtain ⟨job, member, same, jobDue⟩ := kept
    exact nextSchedule_dueJob ⟨job, mem_append_left _ member, same, jobDue⟩

end

def Rounds : List Frame → Prop
  | [] => False
  | .command _ :: rest => Rounds rest ∨ ∀ frame ∈ rest, ∃ target, frame = .wait target
  | .error _ :: rest => Rounds rest ∨ ∀ frame ∈ rest, ∃ target, frame = .wait target
  | .exit _ :: rest => Rounds rest
  | .wait _ :: rest => Rounds rest

theorem Rounds.inside {frames : List Frame} (rounds : Rounds frames) :
    ¬∀ frame ∈ frames, ∃ target, frame = .wait target := by
  induction frames with
  | nil => exact absurd rounds id
  | cons frame _ ih =>
    intro waits
    obtain ⟨_, rfl⟩ := waits frame mem_cons_self
    exact ih rounds fun other member => waits other (mem_cons_of_mem _ member)

structure Serving (start id : Nat) (control : Control) : Prop where
  numbered : Numbered control
  longer : start ≤ control.ran.length
  recorded : ∀ other, .command other ∈ control.frames ∨ .error other ∈ control.frames →
    other ∈ control.ran.drop start
  served : id ∈ control.ran.drop start ∨
    (control.DueJob id ∧ Rounds control.frames ∧ .exit id ∉ control.frames)

section

variable {start id : Nat} {control after : Control}

theorem Serving.step (serving : Serving start id control) (numbered : Numbered after) (ran : after.ran = control.ran)
    (pushed : ∀ other, .command other ∈ after.frames ∨ .error other ∈ after.frames →
      .command other ∈ control.frames ∨ .error other ∈ control.frames)
    (due : control.DueJob id → Rounds control.frames → .exit id ∉ control.frames →
      after.DueJob id ∧ Rounds after.frames ∧ .exit id ∉ after.frames) : Serving start id after := by
  refine ⟨numbered, ran ▸ serving.longer, ?_, ?_⟩
  · rw [ran]
    exact fun other member => serving.recorded other (pushed other member)
  · rw [ran]
    exact serving.served.imp_right fun ⟨still, rounds, stays⟩ => due still rounds stays

theorem Serving.quiet (serving : Serving start id control) (numbered : Numbered after)
    (frames : after.frames = control.frames) (ran : after.ran = control.ran)
    (due : control.DueJob id → after.DueJob id) : Serving start id after := by
  refine serving.step numbered ran ?_ ?_ <;> rw [frames]
  · exact fun _ pushed => pushed
  · exact fun still rounds stays => ⟨due still, rounds, stays⟩

theorem mem_drop_append {list : List Nat} {member last : Nat} (longer : start ≤ list.length) :
    member ∈ (list ++ [last]).drop start ↔ member ∈ list.drop start ∨ member = last := by
  rw [drop_append_of_le_length longer, mem_append, mem_singleton]

theorem Serving.rounded (rounded : Rounded control after) (numbered : Numbered after)
    (longer : start ≤ control.ran.length)
    (recorded : ∀ other, .command other ∈ control.frames ∨ .error other ∈ control.frames →
      other ∈ control.ran.drop start) (served : id ∈ control.ran.drop start ∨ (control.DueJob id ∧
      (Rounds control.frames ∨ ∀ frame ∈ control.frames, ∃ target, frame = .wait target) ∧
      .exit id ∉ control.frames)) : Serving start id after := by
  cases rounded with
  | command _ jobs found frames ran =>
    refine ⟨numbered, ?_, ?_, ?_⟩
    · rw [ran, length_append]
      omega
    · intro number pushed
      rw [frames] at pushed
      rw [ran, mem_drop_append longer]
      simp only [mem_cons, Frame.command.injEq, reduceCtorEq, false_or] at pushed
      rcases pushed with (new | old) | old
      · exact .inr new
      · exact .inl (recorded number (.inl old))
      · exact .inl (recorded number (.inr old))
    · rw [ran, mem_drop_append longer, frames]
      rcases served with done | ⟨⟨job, member, rfl, due⟩, below, stays⟩
      · exact .inl (.inl done)
      · rcases scan_due member due with first | ⟨still, inMarked, same, stillDue⟩
        · cases found.symm.trans first
          exact .inl (.inr rfl)
        · refine .inr ⟨⟨still, jobs ▸ inMarked, same, stillDue⟩, below, ?_⟩
          simp [stays]
  | idle idle swept =>
    have done : id ∈ control.ran.drop start := by
      rcases served with done | ⟨⟨job, member, _, due⟩, _⟩
      · exact done
      · exact absurd due (idle job member)
    cases swept with
    | exit _ _ _ frames ran =>
      refine ⟨numbered, ran ▸ longer, ?_, .inl (by rw [ran]; exact done)⟩
      intro number pushed
      rw [frames] at pushed
      rw [ran]
      exact recorded number (by simpa using pushed)
    | @returned adjusted _ frames ran =>
      have same := nextSchedule_same adjusted
      refine ⟨numbered, ?_, ?_, .inl ?_⟩
      · rw [same.ran, ran]
        exact longer
      · rw [same.frames, same.ran, frames, ran]
        exact recorded
      · rw [same.ran, ran]
        exact done

theorem Serving.swept (swept : Swept control after) (before : Serving start id control)
    (numbered : Numbered after) : Serving start id after := by
  cases swept with
  | exit other expired jobs frames ran =>
    refine before.step numbered ran (by simp [frames]) ?_
    rintro ⟨job, member, rfl, due⟩ rounds stays
    have alive : job.status ≠ .expired := by
      rw [due.1]
      decide
    rw [frames]
    refine ⟨⟨job, jobs ▸ sweep_kept member alive, rfl, due⟩, rounds, ?_⟩
    -- the job that exits is another one: numbers are unique and this one waits
    obtain ⟨_, goneMember, goneId, goneStatus⟩ := expired
    have different : job.id ≠ other := by
      intro same
      have equal := inj_on_of_nodup_map before.numbered.nodup goneMember member (goneId.trans same.symm)
      rw [equal] at goneStatus
      exact alive goneStatus
    simpa [different] using stays
  | @returned adjusted _ frames ran _ kept =>
    have same := nextSchedule_same adjusted
    refine before.quiet numbered (same.frames.trans frames) (same.ran.trans ran) ?_
    intro ⟨job, member, number, due⟩
    obtain ⟨other, otherMember, otherId, otherDue⟩ := kept job member due
    exact nextSchedule_dueJob ⟨other, otherMember, otherId.trans number, otherDue⟩

section

variable (serving : Serving start id control)
include serving

theorem Serving.scheduled {timer : Option Nat} (done : schedule { control with timer } = some after)
    (numbered : Numbered after) : Serving start id after := by
  obtain ⟨_, clock, run⟩ := Option.bind_eq_some_iff.mp done
  have same := adjustTime_same clock
  refine .rounded (runJobs_rounded run).1 numbered ?_ ?_ ?_
  · rw [same.ran]
    exact serving.longer
  · rw [same.frames, same.ran]
    exact serving.recorded
  · rw [same.frames, same.ran]
    rcases serving.served with ran | ⟨due, rounds, stays⟩
    · exact .inl ran
    · exact .inr ⟨adjustTime_dueJob clock due, .inl rounds, stays⟩

theorem Serving.evaluated {other : Nat} {frames : List Frame} {change : Job → Job}
    (top : control.frames = .command other :: frames ∨ control.frames = .error other :: frames)
    (rounded : Rounded ({ control with frames }.modify other change) after) (numbered : Numbered after) :
    Serving start id after := by
  have below : ∀ frame ∈ frames, frame ∈ control.frames := by
    intro _ member
    rcases top with top | top <;> rw [top] <;> exact mem_cons_of_mem _ member
  have ran : other ∈ control.ran.drop start := by
    refine serving.recorded other ?_
    rcases top with top | top <;> simp [top]
  refine .rounded rounded numbered serving.longer ?_ ?_
  · intro number pushed
    exact serving.recorded number (pushed.imp (below _) (below _))
  · rcases serving.served with done | ⟨due, rounds, stays⟩
    · exact .inl done
    · by_cases same : other = id
      · exact .inl (same ▸ ran)
      · refine .inr ⟨modify_dueJob same due, ?_, fun member => stays (below _ member)⟩
        rcases top with top | top <;> rw [top] at rounds <;> exact rounds

theorem Serving.exited {other : Nat} {frames : List Frame} (top : control.frames = .exit other :: frames)
    (swept : Swept (deleteProc { control with frames } other) after) (numbered : Numbered after) :
    Serving start id after := by
  refine .swept swept (serving.step ?_ rfl ?_ ?_) numbered
  · exact (deleteProc_shrinks _ other).numbered ⟨serving.numbered.nodup, serving.numbered.below⟩
  · rw [top]
    exact fun _ pushed => pushed.imp (mem_cons_of_mem _) (mem_cons_of_mem _)
  · rw [top]
    refine fun due rounds stays => ⟨deleteProc_dueJob ?_ due, rounds, fun member => stays (mem_cons_of_mem _ member)⟩
    rintro rfl
    exact stays mem_cons_self

theorem Serving.finished {failed : Bool} (done : finish control failed = some after) (numbered : Numbered after) :
    Serving start id after := by
  cases (finish_finished done).1 with
  | idle => exact serving
  | failed _ _ top =>
    refine serving.step numbered rfl ?_ ?_ <;> rw [top]
    · simp [or_left_comm, or_assoc]
    · exact fun due rounds stays => ⟨due, rounds, by simpa using stays⟩
  | evaluated _ _ _ top _ rounded => exact serving.evaluated top rounded numbered
  | exited _ _ top swept => exact serving.exited top swept numbered

theorem Serving.acted {action : Action} (done : jobAction control action = some after)
    (untouched : action.touches id = false) :
    Serving start id after := by
  have numbered := jobAction_numbered done serving.numbered
  cases jobAction_acted done with
  | nothing => exact serving
  | clock => exact serving.quiet numbered rfl rfl fun due => due
  | created _ done =>
    have same := createJob_same done
    exact serving.quiet numbered same.1 same.2 (createJob_dueJob done serving.numbered)
  | configured _ _ set =>
    have same := setConfig_same set
    exact serving.quiet numbered same.frames same.ran (setConfig_dueJob set (beq_eq_false_iff_ne.mp untouched))
  | read _ clock =>
    have same := adjustTime_same clock
    exact serving.quiet numbered same.frames same.ran (adjustTime_dueJob clock)
  | destroyed =>
    exact serving.quiet numbered rfl rfl (modify_dueJob (beq_eq_false_iff_ne.mp untouched))
  | deleted =>
    exact serving.quiet numbered rfl rfl (deleteProc_dueJob (beq_eq_false_iff_ne.mp untouched))
  | waits => exact serving.step numbered rfl (by simp) fun due rounds stays => ⟨due, rounds, by simpa using stays⟩
  | waited _ _ top =>
    refine serving.step numbered rfl ?_ ?_ <;> rw [top]
    · exact fun _ pushed => pushed.imp (mem_cons_of_mem _) (mem_cons_of_mem _)
    · exact fun due rounds stays => ⟨due, rounds, fun member => stays (mem_cons_of_mem _ member)⟩
  | scheduled _ _ done => exact serving.scheduled done numbered
  | finished _ done => exact serving.finished done numbered

end

end

section

theorem adjustTime_timer (control : Control) (timer : Option Nat) :
    adjustTime { control with timer } = (adjustTime control).map fun after => { after with timer } := by
  unfold adjustTime
  dsimp only
  split_ifs <;> rfl

/-- A pass of the scheduler: the timer or the command starts it, and scripts run until it returns. -/
inductive Pass (control : Control) : List Action → Control → Prop where
  | start {after : Control} (timer : Option Nat) (action : Action)
      (begins : action = .schedule ∨ (action = .fire ∧ ∃ deadline ≤ control.now.micros, control.timer = some deadline))
      (done : schedule { control with timer } = some after) : Pass control [action] after
  | goOn {actions : List Action} {middle after : Control} (action : Action) (pass : Pass control actions middle)
      (inside : ¬middle.Outside) (done : jobAction middle action = some after) :
      Pass control (actions ++ [action]) after

variable {control after : Control} {actions : List Action}

theorem Pass.clean (pass : Pass control actions after) (outside : after.Outside) :
    ∀ job ∈ after.jobs, job.status ≠ .expired := by
  cases pass with
  | start _ _ _ done => exact (schedule_returned done outside).clean
  | goOn _ _ inside done => exact ((jobAction_outside done outside).resolve_left inside).clean

theorem Pass.serving {refreshed : Control} {id : Nat} (pass : Pass control actions after)
    (numbered : Numbered control) (outside : control.Outside) (clock : adjustTime control = some refreshed)
    (due : refreshed.DueJob id) (untouched : ∀ action ∈ actions, action.touches id = false) :
    Serving control.ran.length id after := by
  induction pass with
  | @start _ _ _ _ done =>
    obtain ⟨adjusted, begun, run⟩ := Option.bind_eq_some_iff.mp done
    have same := adjustTime_same begun
    have sameJobs : adjusted.jobs = refreshed.jobs := by
      rw [adjustTime_timer, clock] at begun
      cases begun
      rfl
    refine .rounded (runJobs_rounded run).1 ?_ ?_ ?_ ?_
    · exact (schedule_shrinks done).numbered ⟨numbered.nodup, numbered.below⟩
    · rw [same.ran]
    · intro _ pushed
      rw [same.frames] at pushed
      rcases pushed with pushed | pushed <;> obtain ⟨target, wrong⟩ := outside _ pushed <;> cases wrong
    · refine .inr ⟨by rwa [Control.DueJob, sameJobs], .inr (same.frames ▸ outside), ?_⟩
      intro member
      rw [same.frames] at member
      obtain ⟨_, wrong⟩ := outside _ member
      cases wrong
  | goOn action _ _ done ih =>
    have earlier := ih fun action member => untouched action (mem_append_left _ member)
    exact earlier.acted done (untouched action (by simp))

theorem Pass.runs {refreshed : Control} {id : Nat} (pass : Pass control actions after) (numbered : Numbered control)
    (outside : control.Outside) (clock : adjustTime control = some refreshed) (due : refreshed.DueJob id)
    (untouched : ∀ action ∈ actions, action.touches id = false) (returned : after.Outside) :
    id ∈ after.ran.drop control.ran.length := by
  rcases (pass.serving numbered outside clock due untouched).served with ran | ⟨_, rounds, _⟩
  · exact ran
  · exact absurd returned rounds.inside

end

section

variable {now : TclTime} {actions : List Action} {control : Control}

def Holds (property : Control → Prop) (state : Option Control) : Prop :=
  ∀ control, state = some control → property control

section

variable (reached : run jobStep (some (.start now)) actions = some control)
include reached

theorem run_numbered : Numbered control := by
  refine run_always (Holds Numbered) ?_ ?_ actions control reached
  · intro _ _ numbered _ done
    obtain ⟨before, rfl, acted⟩ := Option.bind_eq_some_iff.mp done
    exact jobAction_numbered acted (numbered before rfl)
  · intro _ same
    cases same
    exact ⟨nodup_nil, by simp [Control.start]⟩

theorem run_punctual (kept : Meets jobStep Kept (some (.start now)) actions) (outside : control.Outside) :
    Punctual control := by
  have always : Holds (fun control => control.Outside → Punctual control)
      (run jobStep (some (.start now)) actions) := by
    refine run_invariant ?_ ?_ kept
    · intro _ _ condition before _ done
      obtain ⟨middle, rfl, acted⟩ := Option.bind_eq_some_iff.mp done
      exact jobAction_punctual condition acted (before middle rfl)
    · intro _ same _
      cases same
      exact ⟨fun job member => (by cases member), Nat.zero_le _⟩
  exact always control reached outside

theorem run_late (prompt : Meets jobStep Prompt (some (.start now)) actions) (outside : control.Outside) :
    Late control := by
  have always : Holds (fun control => Numbered control ∧ (control.Outside → Late control))
      (run jobStep (some (.start now)) actions) := by
    refine run_invariant ?_ ?_ prompt
    · intro _ _ condition before _ done
      obtain ⟨middle, rfl, acted⟩ := Option.bind_eq_some_iff.mp done
      obtain ⟨numbered, late⟩ := before middle rfl
      exact ⟨jobAction_numbered acted numbered, jobAction_late condition acted numbered late⟩
    · intro _ same
      cases same
      exact ⟨⟨nodup_nil, by simp [Control.start]⟩, fun _ job member => by cases member⟩
  exact (always control reached).2 outside

end

end

/-- The timer is armed for every job that waits, and its pass runs what was due and leaves no expired job. -/
theorem timer_armed (now : TclTime) {actions : List Action} {control : Control}
    (reached : run jobStep (some (.start now)) actions = some control)
    (kept : Meets jobStep Kept (some (.start now)) actions) (outside : control.Outside) : control.Armed ∧
      (Meets jobStep Prompt (some (.start now)) actions → ∀ job ∈ control.jobs, job.status = .expired →
        ∃ deadline ≤ control.now.micros, control.timer = some deadline) ∧
      ∀ pass after, Pass control pass after → after.Outside → (∀ job ∈ after.jobs, job.status ≠ .expired) ∧
          ∀ refreshed id, adjustTime control = some refreshed → refreshed.DueJob id →
            (∀ action ∈ pass, action.touches id = false) → id ∈ after.ran.drop control.ran.length := by
  have punctual := run_punctual reached kept outside
  refine ⟨punctual.armed, ?_, ?_⟩
  · intro prompt job member expired
    have late := run_late reached prompt outside job member expired
    obtain ⟨deadline, armed, _⟩ := punctual.armed job member (.inr expired)
    have past := punctual.past
    exact ⟨deadline, by omega, armed⟩
  · intro _ _ pass returned
    refine ⟨pass.clean returned, ?_⟩
    intro _ _ clock due untouched
    exact pass.runs (run_numbered reached) outside clock due untouched returned

def noon : TclTime := ⟨43200, 250000, by decide⟩

def jobOnce : List Action := [.create [.interval (some 5000)], .fire, .finish false]

def ranOnce : Control :=
  { jobs := [{ newJob 0 with interval := 5000, remtime := 5000 }]
    timer := some 43205250000, lastTime := noon, now := noon, nextId := 1, unlinked := [], frames := [], ran := [0] }

theorem timer_armed_once : run jobStep (some (.start noon)) jobOnce = some ranOnce ∧ ranOnce.Armed :=
  ⟨by decide,
    (timer_armed noon (by decide : run jobStep (some (.start noon)) jobOnce = some ranOnce)
      ⟨fun _ _ _ => trivial, fun _ _ _ => trivial, fun _ _ _ => trivial, trivial⟩ (fun _ member => by cases member)).1⟩

def destroySuspended : List Action := [.create [], .configure 0 [.status (some .suspended)], .destroy 0]

def notRemoved : Control :=
  { jobs := [{ newJob 0 with status := .expired }]
    timer := none, lastTime := noon, now := noon, nextId := 1, unlinked := [], frames := [], ran := [] }

/-- It has expired, but no timer is there to remove it. -/
theorem destroyed_notRemoved : run jobStep (some (.start noon)) destroySuspended = some notRemoved ∧
    notRemoved.Outside ∧ ¬notRemoved.Armed := by
  refine ⟨by decide, fun _ member => (by cases member), ?_⟩
  intro armed
  obtain ⟨_, missing, _⟩ := armed _ mem_cons_self (.inr rfl)
  cases missing

end Tnm.Jobs
