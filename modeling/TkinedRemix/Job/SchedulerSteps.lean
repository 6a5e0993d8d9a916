import TkinedRemix.Job.SchedulerCore

/-!
What the functions of the scheduler do to the list of jobs.
-/

namespace Tnm.Jobs

open Lib List Option

section

theorem refresh_zero : Job.refresh 0 = id := by
  funext job
  simp [Job.refresh]

def spent (last now : TclTime) : Int := if last = .zero then 0 else max 0 (elapsed last now)

theorem adjustTime_spent {control after : Control} (adjusted : adjustTime control = some after) :
    after = { control with
      lastTime := control.now, jobs := control.jobs.map (Job.refresh (spent control.lastTime control.now)) } := by
  have unchanged : control.jobs.map (Job.refresh 0) = control.jobs := by rw [refresh_zero, List.map_id]
  unfold adjustTime at adjusted
  unfold spent
  dsimp only at adjusted
  split_ifs at adjusted with unset back
  · cases adjusted
    rw [if_pos unset, unchanged]
  · cases adjusted
    rw [if_neg unset, Int.max_eq_left back, unchanged]
  · cases adjusted
    rw [if_neg unset, Int.max_eq_right (by omega)]

theorem adjustTime_inv {control after : Control} (adjusted : adjustTime control = some after) :
    ∃ delta : Int, 0 ≤ delta ∧ (delta = 0 ∨ delta = elapsed control.lastTime control.now) ∧
      after = { control with lastTime := control.now, jobs := control.jobs.map (Job.refresh delta) } := by
  refine ⟨spent control.lastTime control.now, ?_, ?_, adjustTime_spent adjusted⟩
  · unfold spent
    split <;> omega
  · unfold spent
    split <;> omega

theorem refresh_status (delta : Int) (job : Job) : (job.refresh delta).status = job.status := by
  unfold Job.refresh
  split <;> rfl

theorem refresh_id (delta : Int) (job : Job) : (job.refresh delta).id = job.id := by
  unfold Job.refresh
  split <;> rfl

theorem refresh_remtime_le {delta : Int} (nonneg : 0 ≤ delta) (job : Job) :
    (job.refresh delta).remtime ≤ job.remtime := by
  unfold Job.refresh
  split
  · exact le_rfl
  · dsimp only
    omega

theorem le_refresh_remtime {delta : Int} (nonneg : 0 ≤ delta) (job : Job) :
    job.remtime - delta ≤ (job.refresh delta).remtime := by
  unfold Job.refresh
  split
  · omega
  · exact le_rfl

theorem adjustTime_fresh {control after : Control} (adjusted : adjustTime control = some after) :
    after.lastTime = after.now := by
  obtain ⟨_, _, _, rfl⟩ := adjustTime_inv adjusted
  rfl

theorem nextSchedule_jobs (control : Control) : (nextSchedule control).jobs = control.jobs := by
  unfold nextSchedule
  dsimp only
  split <;> rfl

end

section

structure SameJobs (before after : Control) : Prop where
  jobs : after.jobs.map Job.id = before.jobs.map Job.id
  unlinked : after.unlinked.map Job.id = before.unlinked.map Job.id
  nextId : after.nextId = before.nextId
  frames : after.frames = before.frames
  ran : after.ran = before.ran
  now : after.now = before.now

theorem SameJobs.refl (control : Control) : SameJobs control control := ⟨rfl, rfl, rfl, rfl, rfl, rfl⟩

theorem SameJobs.trans {first second third : Control} (one : SameJobs first second) (two : SameJobs second third) :
    SameJobs first third :=
  ⟨two.jobs.trans one.jobs, two.unlinked.trans one.unlinked, two.nextId.trans one.nextId,
    two.frames.trans one.frames, two.ran.trans one.ran, two.now.trans one.now⟩

variable {change : Job → Job}

theorem map_id_of (same : ∀ job, (change job).id = job.id) (jobs : List Job) :
    (jobs.map change).map Job.id = jobs.map Job.id := by
  rw [List.map_map]
  exact map_congr_left fun job _ => same job

variable {id : Nat}

theorem modifyJob_id (same : ∀ job, job.id = id → (change job).id = id) (job : Job) :
    (modifyJob id change job).id = job.id := by
  unfold modifyJob
  split
  next this => rw [same job this, this]
  · rfl

variable {control : Control}

theorem modify_same (same : ∀ job, job.id = id → (change job).id = id) : SameJobs control (control.modify id change) :=
  ⟨map_id_of (modifyJob_id same) _, map_id_of (modifyJob_id same) _, rfl, rfl, rfl, rfl⟩

theorem nextSchedule_same (control : Control) : SameJobs control (nextSchedule control) := by
  unfold nextSchedule
  dsimp only
  split <;> exact ⟨rfl, rfl, rfl, rfl, rfl, rfl⟩

variable {after : Control}

theorem adjustTime_same (adjusted : adjustTime control = some after) : SameJobs control after := by
  obtain ⟨delta, _, _, rfl⟩ := adjustTime_inv adjusted
  exact ⟨map_id_of (refresh_id delta) _, rfl, rfl, rfl, rfl, rfl⟩

variable {job changed : Job} {setting : Setting}

theorem setOption_keeps (set : setOption job setting = some changed) : changed.id = job.id ∧
      changed.remtime = job.remtime ∧ (setting.isStatus = false → changed.status = job.status) := by
  cases setting <;> simp only [setOption, map_eq_some_iff] at set <;>
    (obtain ⟨_, _, rfl⟩ := set; exact ⟨rfl, rfl, by simp [Setting.isStatus]⟩)

theorem find_id (found : control.find id = some job) : job.id = id := by
  have matched := find?_some found
  exact eq_of_beq matched

theorem find_linked {other : Job} (found : control.find id = some job) (member : other ∈ control.jobs)
    (same : other.id = id) : job ∈ control.jobs := by
  unfold Control.find at found
  rw [find?_append] at found
  cases first : control.jobs.find? fun job => job.id == id with
  | none =>
    have differs := find?_eq_none.mp first other member
    exact absurd (beq_iff_eq.mpr same) differs
  | some =>
    rw [first] at found
    cases found
    exact mem_of_find?_eq_some first

variable {settings : List Setting} {ok : Bool}

theorem setOptions_rule (holds : Control → Prop)
    (plain : ∀ control job setting changed, setting ∈ settings → control.find id = some job →
      setOption job setting = some changed → setting.isStatus = false → holds control →
        holds (control.modify id fun _ => changed))
    (rearmed : ∀ control job setting changed adjusted, setting ∈ settings → control.find id = some job →
      setOption job setting = some changed → adjustTime (control.modify id fun _ => changed) = some adjusted →
        holds control → holds (nextSchedule adjusted))
    (set : setOptions control id settings = some (after, ok)) (before : holds control) : holds after := by
  induction settings generalizing control with
  | nil =>
    cases set
    exact before
  | cons setting rest ih =>
    obtain ⟨job, found, set⟩ := bind_eq_some_iff.mp set
    have later : ∀ middle, setOptions middle id rest = some (after, ok) → holds middle → holds after := fun _ => ih
      (fun control job setting changed member => plain control job setting changed (mem_cons_of_mem _ member))
      (fun control job setting changed adjusted member =>
        rearmed control job setting changed adjusted (mem_cons_of_mem _ member))
    split at set
    · cases set
      exact before
    next changed valid =>
      split at set
      · obtain ⟨adjusted, clock, set⟩ := bind_eq_some_iff.mp set
        exact later _ set (rearmed control job setting changed adjusted mem_cons_self found valid clock before)
      next other =>
        exact later _ set (plain control job setting changed mem_cons_self found valid
          (Bool.eq_false_iff.mpr other) before)

/-- What every change of a job, every refresh and every `NextSchedule` keeps, `TnmSetConfig` keeps. -/
theorem setConfig_rule (holds : Control → Prop)
    (modified : ∀ {control job setting changed}, setting ∈ settings → control.find id = some job →
      setOption job setting = some changed → holds control → holds (control.modify id fun _ => changed))
    (adjusted : ∀ {control after}, adjustTime control = some after → holds control → holds after)
    (scheduled : ∀ {control}, holds control → holds (nextSchedule control))
    (set : setConfig control id settings = some (after, ok)) (before : holds control) : holds after := by
  obtain ⟨⟨middle, done⟩, options, set⟩ := bind_eq_some_iff.mp set
  have between : holds middle := setOptions_rule holds
    (fun _ _ _ _ member found valid _ => modified member found valid)
    (fun _ _ _ _ _ member found valid clock before => scheduled (adjusted clock (modified member found valid before)))
    options before
  cases done with
  | true =>
    obtain ⟨_, clock, rest⟩ := map_eq_some_iff.mp set
    cases rest
    exact adjusted clock between
  | false =>
    cases set
    exact between

theorem setConfig_same (set : setConfig control id settings = some (after, ok)) : SameJobs control after :=
  setConfig_rule (SameJobs control) (fun _ found valid same => same.trans (modify_same fun _ _ => by
      rw [(setOption_keeps valid).1, find_id found]))
    (fun clock same => same.trans (adjustTime_same clock)) (fun same => same.trans (nextSchedule_same _)) set
    (SameJobs.refl control)

theorem mem_modify (member : job ∈ (control.modify id change).jobs) :
    (∃ old ∈ control.jobs, old.id = id ∧ job = change old) ∨ (job ∈ control.jobs ∧ job.id ≠ id) := by
  obtain ⟨old, oldMember, rfl⟩ := List.mem_map.mp member
  rw [modifyJob]
  split
  next same => exact .inl ⟨old, oldMember, same, rfl⟩
  next differs => exact .inr ⟨oldMember, differs⟩

end

section

def Job.Due (job : Job) : Prop := job.status = .waiting ∧ job.remtime ≤ 0

theorem promote_fields (job : Job) :
    job.promote.id = job.id ∧ job.promote.status = job.status ∧ job.promote.remtime = job.remtime := by
  unfold Job.promote
  split <;> exact ⟨rfl, rfl, rfl⟩

theorem promote_due (job : Job) : job.promote.Due ↔ job.Due := by
  obtain ⟨_, status, remtime⟩ := promote_fields job
  unfold Job.Due
  rw [status, remtime]

theorem scan_ids (jobs : List Job) : (scan jobs).1.map Job.id = jobs.map Job.id := by
  induction jobs with
  | nil => rfl
  | cons _ _ ih =>
    unfold scan
    dsimp only
    split
    · simp [promote_fields]
    · simp [promote_fields, ih]

variable {jobs : List Job}

theorem scan_none (none : (scan jobs).2 = none) : ∀ job ∈ jobs, ¬job.Due := by
  induction jobs with
  | nil => simp
  | cons _ _ ih =>
    unfold scan at none
    dsimp only at none
    split at none
    · cases none
    next idle =>
      intro job member
      rcases mem_cons.mp member with same | inRest
      · subst same
        exact fun due => idle ((promote_due job).mpr due)
      · exact ih none job inRest

variable {job : Job}

theorem scan_due (member : job ∈ jobs) (due : job.Due) :
    (scan jobs).2 = some job.id ∨ ∃ other ∈ (scan jobs).1, other.id = job.id ∧ other.Due := by
  induction jobs with
  | nil => cases member
  | cons first _ ih =>
    obtain ⟨firstId, _⟩ := promote_fields first
    unfold scan
    dsimp only
    rcases mem_cons.mp member with same | inRest
    · subst same
      have promoted : job.promote.status = .waiting ∧ job.promote.remtime ≤ 0 := (promote_due job).mpr due
      rw [if_pos promoted]
      exact .inl (by rw [firstId])
    · split
      · exact .inr ⟨job, mem_cons_of_mem _ inRest, rfl, due⟩
      · rcases ih inRest with found | ⟨other, behind, same, otherDue⟩
        · exact .inl found
        · exact .inr ⟨other, mem_cons_of_mem _ behind, same, otherDue⟩

theorem sweep_kept (member : job ∈ jobs) (alive : job.status ≠ .expired) : job ∈ (sweep jobs).1 := by
  induction jobs with
  | nil => cases member
  | cons _ _ ih =>
    unfold sweep
    rcases mem_cons.mp member with same | inRest
    · subst same
      rw [if_neg alive]
      exact mem_cons_self
    · split_ifs
      · exact ih inRest
      · exact mem_cons_of_mem _ inRest
      · exact mem_cons_of_mem _ (ih inRest)

theorem sweep_sublist (jobs : List Job) : ((sweep jobs).1).Sublist jobs := by
  induction jobs with
  | nil => exact List.Sublist.slnil
  | cons first _ ih =>
    unfold sweep
    split_ifs
    · exact ih.cons first
    · exact List.Sublist.refl _
    · exact ih.cons_cons first

theorem sweep_removed (removed : job ∈ (sweep jobs).2.1) : job ∈ jobs := by
  induction jobs with
  | nil => cases removed
  | cons _ _ ih =>
    unfold sweep at removed
    split_ifs at removed
    · rcases mem_cons.mp removed with same | later
      · exact same ▸ mem_cons_self
      · exact mem_cons_of_mem _ (ih later)
    · cases removed
    · exact mem_cons_of_mem _ (ih removed)

theorem sweep_none (none : (sweep jobs).2.2 = none) : ∀ job ∈ (sweep jobs).1, job.status ≠ .expired := by
  induction jobs with
  | nil => simp [sweep]
  | cons _ _ ih =>
    unfold sweep at none ⊢
    split_ifs at none ⊢ with alive
    · exact ih none
    · exact forall_mem_cons.mpr ⟨alive, ih none⟩

theorem sweep_found {id : Nat} (found : (sweep jobs).2.2 = some id) :
    ∃ job ∈ jobs, job.id = id ∧ job.status = .expired := by
  induction jobs with
  | nil => cases found
  | cons first _ ih =>
    unfold sweep at found
    split_ifs at found with expired
    · obtain ⟨job, member, facts⟩ := ih found
      exact ⟨job, mem_cons_of_mem _ member, facts⟩
    · cases found
      exact ⟨first, mem_cons_self, rfl, expired⟩
    · obtain ⟨job, member, facts⟩ := ih found
      exact ⟨job, mem_cons_of_mem _ member, facts⟩

structure Shrinks (before after : Control) : Prop where
  jobs : (after.jobs.map Job.id).Sublist (before.jobs.map Job.id)
  unlinked : after.unlinked.map Job.id ⊆ before.jobs.map Job.id ++ before.unlinked.map Job.id
  nextId : after.nextId = before.nextId

theorem SameJobs.shrinks {before after : Control} (same : SameJobs before after) : Shrinks before after :=
  ⟨by rw [same.jobs], by rw [same.unlinked]; exact subset_append_right _ _, same.nextId⟩

theorem Shrinks.trans {first second third : Control} (one : Shrinks first second) (two : Shrinks second third) :
    Shrinks first third := by
  refine ⟨two.jobs.trans one.jobs, ?_, two.nextId.trans one.nextId⟩
  intro _ member
  rcases mem_append.mp (two.unlinked member) with linked | unlinked
  · exact mem_append_left _ (one.jobs.subset linked)
  · exact one.unlinked unlinked

theorem deleteProc_shrinks (control : Control) (id : Nat) : Shrinks control (deleteProc control id) := by
  refine ⟨List.Sublist.map _ filter_sublist, ?_, rfl⟩
  intro _ member
  simp only [deleteProc, map_append, mem_append] at member ⊢
  rcases member with unlinked | removed
  · exact .inr unlinked
  · exact .inl ((List.Sublist.map Job.id filter_sublist).subset removed)

inductive Swept (control : Control) : Control → Prop where
  | exit {after : Control} (id : Nat) (expired : ∃ job ∈ control.jobs, job.id = id ∧ job.status = .expired)
      (jobs : after.jobs = (sweep control.jobs).1) (frames : after.frames = .exit id :: control.frames)
      (ran : after.ran = control.ran) : Swept control after
  | returned {adjusted : Control} (refreshed : adjusted.lastTime = adjusted.now)
      (frames : adjusted.frames = control.frames) (ran : adjusted.ran = control.ran)
      (clean : ∀ job ∈ adjusted.jobs, job.status ≠ .expired)
      (kept : ∀ job ∈ control.jobs, job.Due → ∃ other ∈ adjusted.jobs, other.id = job.id ∧ other.Due) :
      Swept control (nextSchedule adjusted)

variable {control after : Control}

theorem adjustTime_due (adjusted : adjustTime control = some after) (member : job ∈ control.jobs) (due : job.Due) :
    ∃ other ∈ after.jobs, other.id = job.id ∧ other.Due := by
  obtain ⟨delta, nonneg, _, rfl⟩ := adjustTime_inv adjusted
  refine ⟨job.refresh delta, List.mem_map_of_mem member, refresh_id delta job, ?_, ?_⟩
  · rw [refresh_status, due.1]
  · exact (refresh_remtime_le nonneg job).trans due.2

theorem expireJobs_swept (done : expireJobs control = some after) : Swept control after ∧ Shrinks control after := by
  have removes : ∀ kept removed found, sweep control.jobs = (kept, removed, found) → ∀ frames : List Frame,
      Shrinks control
        { control with jobs := kept, unlinked := control.unlinked ++ removed, frames := frames } := by
    intro kept removed _ swept _
    have sublist := sweep_sublist control.jobs
    rw [swept] at sublist
    refine ⟨sublist.map _, ?_, rfl⟩
    intro id member
    simp only [map_append, mem_append] at member ⊢
    rcases member with unlinked | inRemoved
    · exact .inr unlinked
    · obtain ⟨_, jobMember, rfl⟩ := List.mem_map.mp inRemoved
      exact .inl (List.mem_map_of_mem (sweep_removed (by rw [swept]; exact jobMember)))
  unfold expireJobs at done
  split at done
  next jobs removed id swept =>
    cases done
    exact ⟨.exit id (sweep_found (by rw [swept])) (by rw [swept]) rfl rfl, removes jobs removed _ swept _⟩
  next jobs removed swept =>
    obtain ⟨adjusted, clock, rfl⟩ := map_eq_some_iff.mp done
    have none : (sweep control.jobs).2.2 = none := by rw [swept]
    have keptJobs : (sweep control.jobs).1 = jobs := by rw [swept]
    refine ⟨.returned (adjustTime_fresh clock) (adjustTime_same clock).frames (adjustTime_same clock).ran ?_ ?_,
      ((removes jobs removed _ swept _).trans (adjustTime_same clock).shrinks).trans
        (nextSchedule_same adjusted).shrinks⟩
    · obtain ⟨_, _, _, rfl⟩ := adjustTime_inv clock
      intro job member
      obtain ⟨old, oldMember, rfl⟩ := List.mem_map.mp member
      rw [refresh_status]
      exact sweep_none none old (keptJobs ▸ oldMember)
    · intro job member due
      have alive : job.status ≠ .expired := by
        rw [due.1]
        decide
      exact adjustTime_due clock (show job ∈ jobs from keptJobs ▸ sweep_kept member alive) due

inductive Rounded (control : Control) : Control → Prop where
  | command {after : Control} (id : Nat) (jobs : after.jobs = (scan control.jobs).1)
      (found : (scan control.jobs).2 = some id) (frames : after.frames = .command id :: control.frames)
      (ran : after.ran = control.ran ++ [id]) : Rounded control after
  | idle {after : Control} (idle : ∀ job ∈ control.jobs, ¬job.Due)
      (swept : Swept { control with jobs := (scan control.jobs).1 } after) : Rounded control after

theorem runJobs_rounded (done : runJobs control = some after) : Rounded control after ∧ Shrinks control after := by
  have ids := scan_ids control.jobs
  unfold runJobs at done
  split at done
  next jobs id scanned =>
    cases done
    rw [scanned] at ids
    exact ⟨.command id (by rw [scanned]) (by rw [scanned]) rfl rfl, by rw [show jobs.map Job.id = _ from ids],
      subset_append_right _ _, rfl⟩
  next jobs scanned =>
    obtain ⟨swept, shrinks⟩ := expireJobs_swept done
    rw [scanned] at ids
    have marked : Shrinks control { control with jobs } :=
      ⟨by rw [show jobs.map Job.id = _ from ids], subset_append_right _ _, rfl⟩
    refine ⟨.idle (scan_none (by rw [scanned])) ?_, marked.trans shrinks⟩
    rwa [show (scan control.jobs).1 = jobs from by rw [scanned]]

inductive Finished (control : Control) : Control → Prop where
  | idle (waits : ∀ frame ∈ control.frames.head?, ∃ target, frame = .wait target) : Finished control control
  | failed (id : Nat) (frames : List Frame) (top : control.frames = .command id :: frames) :
      Finished control { control with frames := .error id :: frames }
  | evaluated {after : Control} (id : Nat) (frames : List Frame) (change : Job → Job)
      (top : control.frames = .command id :: frames ∨ control.frames = .error id :: frames)
      (same : ∀ job, (change job).id = job.id)
      (rounded : Rounded ({ control with frames }.modify id change) after) : Finished control after
  | exited {after : Control} (id : Nat) (frames : List Frame) (top : control.frames = .exit id :: frames)
      (swept : Swept (deleteProc { control with frames } id) after) : Finished control after

theorem finish_id (job : Job) : job.finish.id = job.id := by
  unfold Job.finish
  dsimp only
  split
  · split <;> rfl
  · rfl

theorem finish_finished {failed : Bool} (done : finish control failed = some after) :
    Finished control after ∧ Shrinks control after := by
  have popped : ∀ frames, Shrinks control { control with frames } := fun frames =>
    ⟨List.Sublist.refl _, subset_append_right _ _, rfl⟩
  have evaluated : ∀ id frames (change : Job → Job),
      control.frames = .command id :: frames ∨ control.frames = .error id :: frames →
        (∀ job, (change job).id = job.id) →
        runJobs ({ control with frames }.modify id change) = some after → Finished control after ∧
            Shrinks control after := by
    intro id frames change top same run
    obtain ⟨rounded, shrinks⟩ := runJobs_rounded run
    have modified : SameJobs { control with frames } ({ control with frames }.modify id change) :=
      modify_same fun job this => (same job).trans this
    exact ⟨.evaluated id frames change top same rounded, ((popped frames).trans modified.shrinks).trans shrinks⟩
  unfold finish at done
  split at done
  next id frames top =>
    split at done
    · obtain ⟨_, _, done⟩ := bind_eq_some_iff.mp done
      split_ifs at done
      · cases done
        exact ⟨.failed id frames top, popped _⟩
      · exact evaluated id frames _ (.inl top) (fun _ => by rw [finish_id]) done
    · exact evaluated id frames Job.finish (.inl top) finish_id done
  next id frames top => exact evaluated id frames Job.finish (.inr top) finish_id done
  next id frames top =>
    split at done
    · obtain ⟨swept, shrinks⟩ := expireJobs_swept done
      exact ⟨.exited id frames top swept, ((popped frames).trans (deleteProc_shrinks _ id)).trans shrinks⟩
    · cases done
  next command error exit =>
    cases done
    refine ⟨.idle ?_, popped _⟩
    intro frame head
    cases frames : control.frames with
    | nil => simp [frames] at head
    | cons _ rest =>
      rw [frames] at head
      cases head
      cases frame with
      | command id => exact absurd frames (command id rest)
      | error id => exact absurd frames (error id rest)
      | exit id => exact absurd frames (exit id rest)
      | wait target => exact ⟨target, rfl⟩

inductive Acted (control : Control) : Action → Control → Prop where
  | nothing (action : Action) : Acted control action control
  | clock (time : TclTime) : Acted control (.clock time) { control with now := time }
  | created {after : Control} (settings : List Setting) (done : createJob control settings = some after) :
      Acted control (.create settings) after
  | configured {after : Control} {ok : Bool} (id : Nat) (settings : List Setting)
      (set : setConfig control id settings = some (after, ok)) : Acted control (.configure id settings) after
  | read {after : Control} (id : Nat) (clock : adjustTime control = some after) : Acted control (.cgetTime id) after
  | destroyed (id : Nat) :
      Acted control (.destroy id) (control.modify id fun job => { job with status := .expired })
  | deleted (id : Nat) : Acted control (.delete id) (deleteProc control id)
  | waits (target : Option Nat) :
      Acted control (.wait target) { control with frames := .wait target :: control.frames }
  | waited (target : Option Nat) (frames : List Frame) (top : control.frames = .wait target :: frames) :
      Acted control .waited { control with frames }
  | scheduled {after : Control} (action : Action) (timer : Option Nat)
      (done : schedule { control with timer } = some after) : Acted control action after
  | finished {after : Control} (failed : Bool) (done : finish control failed = some after) :
      Acted control (.finish failed) after

theorem jobAction_acted {action : Action} (done : jobAction control action = some after) :
    Acted control action after := by
  cases action with
  | clock time =>
    cases done
    exact .clock time
  | create settings => exact .created settings done
  | configure id settings =>
    simp only [jobAction] at done
    split at done
    · obtain ⟨⟨_, _⟩, set, rfl⟩ := map_eq_some_iff.mp done
      exact .configured id settings set
    · cases done
      exact .nothing _
  | cgetTime id =>
    simp only [jobAction] at done
    split at done
    · exact .read id done
    · cases done
      exact .nothing _
  | destroy id =>
    simp only [jobAction] at done
    split at done
    · cases done
      exact .destroyed id
    · cases done
      exact .nothing _
  | delete id =>
    cases done
    exact .deleted id
  | wait target =>
    cases done
    exact .waits target
  | waited =>
    simp only [jobAction] at done
    split at done
    next target frames top =>
      split at done
      · cases done
        exact .nothing _
      · cases done
        exact .waited target frames top
    · cases done
      exact .nothing _
  | schedule => exact .scheduled _ control.timer done
  | fire =>
    simp only [jobAction] at done
    split at done
    · split at done
      · exact .scheduled _ none done
      · cases done
        exact .nothing _
    · cases done
      exact .nothing _
  | finish failed => exact .finished failed done

end

section

structure Numbered (control : Control) : Prop where
  nodup : (control.jobs.map Job.id).Nodup
  below : ∀ id ∈ control.jobs.map Job.id ++ control.unlinked.map Job.id, id < control.nextId

variable {after : Control}

theorem Shrinks.numbered {before : Control} (shrinks : Shrinks before after) (numbered : Numbered before) :
    Numbered after := by
  refine ⟨numbered.nodup.sublist shrinks.jobs, ?_⟩
  intro id member
  rw [shrinks.nextId]
  rcases mem_append.mp member with linked | unlinked
  · exact numbered.below id (mem_append_left _ (shrinks.jobs.subset linked))
  · exact numbered.below id (shrinks.unlinked unlinked)

variable {control : Control}

theorem schedule_shrinks (done : schedule control = some after) : Shrinks control after := by
  obtain ⟨_, clock, run⟩ := bind_eq_some_iff.mp done
  exact (adjustTime_same clock).shrinks.trans (runJobs_rounded run).2

theorem createJob_numbered {settings : List Setting} (done : createJob control settings = some after)
    (numbered : Numbered control) : Numbered after := by
  obtain ⟨⟨configured, ok⟩, set, rfl⟩ := map_eq_some_iff.mp done
  have same := setConfig_same set
  have linked : configured.jobs.map Job.id = control.jobs.map Job.id := same.jobs
  have unlinked : configured.unlinked.map Job.id = control.nextId :: control.unlinked.map Job.id := same.unlinked
  have next : configured.nextId = control.nextId + 1 := same.nextId
  have below : ∀ id ∈ configured.jobs.map Job.id ++ configured.unlinked.map Job.id, id < configured.nextId := by
    intro id member
    rw [linked, unlinked, mem_append, mem_cons] at member
    rw [next]
    rcases member with old | rfl | old
    · exact Nat.lt_succ_of_lt (numbered.below id (mem_append_left _ old))
    · exact Nat.lt_succ_self _
    · exact Nat.lt_succ_of_lt (numbered.below id (mem_append_right _ old))
  have others : (configured.unlinked.filter fun job => job.id != control.nextId).map Job.id ⊆
      configured.unlinked.map Job.id := (List.Sublist.map _ filter_sublist).subset
  cases ok with
  | false =>
    have nodup : (configured.jobs.map Job.id).Nodup := linked ▸ numbered.nodup
    refine ⟨nodup, ?_⟩
    intro id member
    refine below id ?_
    rcases mem_append.mp member with old | kept
    · exact mem_append_left _ old
    · exact mem_append_right _ (others kept)
  | true =>
    refine (nextSchedule_same _).shrinks.numbered ⟨?_, ?_⟩
    · -- only the new job has the new number
      have new : (configured.unlinked.filter fun job => job.id == control.nextId).map Job.id = [control.nextId] := by
        have mapped : (configured.unlinked.filter fun job => job.id == control.nextId).map Job.id =
            (configured.unlinked.map Job.id).filter fun id => id == control.nextId := by
          rw [List.filter_map]
          rfl
        have older : (control.unlinked.map Job.id).filter (fun id => id == control.nextId) = [] := by
          rw [filter_eq_nil_iff]
          intro id member equal
          have smaller := numbered.below id (mem_append_right _ member)
          rw [eq_of_beq equal] at smaller
          exact lt_irrefl _ smaller
        rw [mapped, unlinked, filter_cons_of_pos (by simp), older]
      rw [map_append, new, linked]
      refine nodup_append.mpr ⟨numbered.nodup, nodup_singleton _, ?_⟩
      intro id member _ last _
      rw [mem_singleton] at last
      have smaller := numbered.below id (mem_append_left _ member)
      omega
    · intro id member
      refine below id ?_
      rw [map_append, append_assoc, mem_append, mem_append] at member
      rcases member with old | new | kept
      · exact mem_append_left _ old
      · exact mem_append_right _ ((List.Sublist.map _ filter_sublist).subset new)
      · exact mem_append_right _ (others kept)

theorem jobAction_numbered {action : Action} (done : jobAction control action = some after)
    (numbered : Numbered control) : Numbered after := by
  cases jobAction_acted done with
  | nothing => exact numbered
  | clock | waits | waited => exact ⟨numbered.nodup, numbered.below⟩
  | created _ done => exact createJob_numbered done numbered
  | configured _ _ set => exact (setConfig_same set).shrinks.numbered numbered
  | read _ clock => exact (adjustTime_same clock).shrinks.numbered numbered
  | destroyed =>
    refine (modify_same ?_).shrinks.numbered numbered
    exact fun job this => this
  | deleted id => exact (deleteProc_shrinks control id).numbered numbered
  | scheduled _ _ done => exact (schedule_shrinks done).numbered ⟨numbered.nodup, numbered.below⟩
  | finished _ done => exact (finish_finished done).2.numbered numbered

end

end Tnm.Jobs
