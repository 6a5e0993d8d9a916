import TkinedRemix.Job.SchedulerSteps

/-!
The time that `AdjustTime` counts. Every call rounds to milliseconds, up or down, and the next one starts at the
clock reading itself, so that what is dropped adds up.
-/

namespace Tnm.Jobs

open List Option

def adjustAll (control : Control) (readings : List TclTime) : Option Control :=
  readings.foldlM (fun control now => adjustTime { control with now }) control

/-- The microseconds between two readings that a call does not count. -/
def drift (last now : TclTime) : Int :=
  let micros : Int := now.micros - last.micros
  if last = .zero then micros
  else micros - 1000 * max 0 (Int.bmod ((micros - Int.tmod (now.usec - last.usec) 1000) / 1000) 4294967296)

def drifts : TclTime → List TclTime → Int
  | _, [] => 0
  | last, now :: rest => drift last now + drifts now rest

theorem tmod_thousand (number : Int) :
    number = 1000 * number.tdiv 1000 + number.tmod 1000 ∧ -1000 < number.tmod 1000 ∧ number.tmod 1000 < 1000 := by
  have := Int.mul_tdiv_add_tmod number 1000
  have := Int.tmod_lt_of_pos number (show (0 : Int) < 1000 by decide)
  have := Int.lt_tmod_of_pos number (show (0 : Int) < 1000 by decide)
  omega

theorem drift_eq (last now : TclTime) : drift last now = (now.micros : Int) - last.micros - 1000 * spent last now := by
  unfold drift spent
  split
  · simp
  · have usec := tmod_thousand ((now.usec : Int) - last.usec)
    have same : ((now.micros : Int) - last.micros - Int.tmod (now.usec - last.usec) 1000) / 1000 =
        1000 * ((now.sec : Int) - last.sec) + Int.tdiv (now.usec - last.usec) 1000 := by
      unfold TclTime.micros
      omega
    dsimp only
    rw [same, elapsed]

theorem refresh_refresh (first second : Int) (job : Job) :
    (job.refresh first).refresh second = job.refresh (first + second) := by
  unfold Job.refresh
  split
  · rfl
  · simp only [Job.mk.injEq, true_and, and_true]
    omega

theorem adjustAll_total {start after : Control} {readings : List TclTime}
    (done : adjustAll start readings = some after) :
    ∃ total, after.jobs = start.jobs.map (Job.refresh total) ∧ after.lastTime = readings.getLastD start.lastTime ∧
      1000 * total = (after.lastTime.micros : Int) - start.lastTime.micros - drifts start.lastTime readings := by
  induction readings generalizing start with
  | nil =>
    cases done
    exact ⟨0, by rw [refresh_zero, List.map_id], rfl, by simp [drifts]⟩
  | cons now rest ih =>
    obtain ⟨middle, first, later⟩ := bind_eq_some_iff.mp done
    obtain ⟨total, jobs, last, counted⟩ := ih later
    have read : middle.lastTime = now := by rw [adjustTime_spent first]
    rw [read] at last counted
    refine ⟨spent start.lastTime now + total, ?_, ?_, ?_⟩
    · rw [jobs, adjustTime_spent first, List.map_map]
      exact map_congr_left fun job _ => refresh_refresh ..
    · rw [last, getLastD_cons]
    · have lost := drift_eq start.lastTime now
      rw [drifts]
      omega

/-- What is taken off the jobs is exact up to a millisecond if what the calls do not count is less. -/
theorem adjustAll_exact_iff {control after : Control} {first : TclTime} {rest : List TclTime}
    (done : adjustAll control (first :: rest) = some after) :
    ∃ start total, adjustTime { control with now := first } = some start ∧
      after.jobs = start.jobs.map (Job.refresh total) ∧ after.lastTime = rest.getLastD first ∧
      (Int.natAbs (1000 * total - ((after.lastTime.micros : Int) - first.micros)) < 1000 ↔
        Int.natAbs (drifts first rest) < 1000) := by
  obtain ⟨start, called, later⟩ := bind_eq_some_iff.mp done
  obtain ⟨total, jobs, last, counted⟩ := adjustAll_total later
  have read : start.lastTime = first := by rw [adjustTime_spent called]
  rw [read] at last counted
  refine ⟨start, total, called, jobs, last, ?_⟩
  omega

def waitingJob (remtime : Int) : Job := ⟨0, "script", none, "", "", 5000, 0, remtime, .waiting, ""⟩

def waitingControl (remtime : Int) (now : TclTime) : Control := { Control.start now with jobs := [waitingJob remtime] }

def reading (micros : Nat) : TclTime := ⟨1 + micros / 1000000, micros % 1000000, Nat.mod_lt _ (by decide)⟩

theorem adjustAll_exact_iff_second : ∃ start total, adjustTime (waitingControl 5000 (reading 0)) = some start ∧
    [waitingJob 4000] = start.jobs.map (Job.refresh total) ∧ (Int.natAbs (1000 * total - 1000000) < 1000 ↔
      Int.natAbs (drifts (reading 0) [reading 1000000]) < 1000) := by
  have done : adjustAll (waitingControl 5000 .zero) [reading 0, reading 1000000] =
      some { waitingControl 4000 (reading 1000000) with lastTime := reading 1000000 } := by decide
  obtain ⟨start, total, first, jobs, _, exact⟩ := adjustAll_exact_iff done
  exact ⟨start, total, first, jobs, exact⟩

/-- Two calls at intervals of 0.9 milliseconds take nothing off. -/
theorem adjustAll_slow : adjustAll (waitingControl 5000 .zero) [reading 0, reading 900, reading 1800] =
    some { waitingControl 5000 (reading 1800) with lastTime := reading 1800 } := by
  decide

end Tnm.Jobs
