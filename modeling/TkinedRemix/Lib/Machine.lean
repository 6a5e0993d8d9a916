import Mathlib

/-!
Runs of a deterministic machine, and invariants of runs all of whose steps meet a condition. A schedule gives
one action for every time.
-/

namespace Lib

variable {σ α : Type}

def run (step : σ → α → σ) (start : σ) (actions : List α) : σ := actions.foldl step start

/-- Every step of the run meets a condition on the state before it and the action. -/
def Meets (step : σ → α → σ) (condition : σ → α → Prop) : σ → List α → Prop
  | _, [] => True
  | state, action :: rest => condition state action ∧ Meets step condition (step state action) rest

section

variable {step : σ → α → σ} {condition weaker : σ → α → Prop} {start : σ}
  {actions : List α}

@[simp] theorem run_nil : run step start [] = start := rfl

@[simp] theorem run_cons (action : α) (rest : List α) :
    run step start (action :: rest) = run step (step start action) rest := rfl

theorem Meets.of_forall (always : ∀ state, ∀ action ∈ actions, condition state action) :
    Meets step condition start actions := by
  induction actions generalizing start with
  | nil => trivial
  | cons action _ ih =>
    exact ⟨always start action (by simp), ih fun state other member => always state other (by simp [member])⟩

theorem Meets.and (first : Meets step condition start actions) (second : Meets step weaker start actions) :
    Meets step (fun state action => condition state action ∧ weaker state action) start actions := by
  induction actions generalizing start with
  | nil => trivial
  | cons _ _ ih => exact ⟨⟨first.1, second.1⟩, ih first.2 second.2⟩

theorem run_invariant {invariant : σ → Prop}
    (preserved : ∀ state action, condition state action → invariant state → invariant (step state action))
    (initial : invariant start) (meets : Meets step condition start actions) : invariant (run step start actions) := by
  induction actions generalizing start with
  | nil => exact initial
  | cons action _ ih => exact ih (preserved start action meets.1 initial) meets.2

theorem run_always (invariant : σ → Prop)
    (preserved : ∀ state action, invariant state → invariant (step state action)) (initial : invariant start)
    (actions : List α) : invariant (run step start actions) := by
  induction actions generalizing start with
  | nil => exact initial
  | cons action _ ih => exact ih (preserved start action initial)

theorem run_history {invariant : List α → σ → Prop}
    (preserved : ∀ past state action, condition state action → invariant past state →
      invariant (past ++ [action]) (step state action))
    {past : List α} (initial : invariant past start) (meets : Meets step condition start actions) :
    invariant (past ++ actions) (run step start actions) := by
  induction actions generalizing past start with
  | nil => simpa using initial
  | cons action _ ih =>
    have later := ih (preserved past start action meets.1 initial) meets.2
    rwa [List.append_assoc] at later

end

section

def trace (step : σ → α → σ) (start : σ) (schedule : Nat → α) : Nat → σ
  | 0 => start
  | time + 1 => step (trace step start schedule time) (schedule time)

theorem trace_invariant {step : σ → α → σ} {condition : σ → α → Prop} {start : σ} {schedule : Nat → α}
    {invariant : σ → Prop}
    (preserved : ∀ state action, condition state action → invariant state → invariant (step state action))
    (initial : invariant start) (meets : ∀ time, condition (trace step start schedule time) (schedule time))
    (time : Nat) : invariant (trace step start schedule time) := by
  induction time with
  | zero => exact initial
  | succ time ih => exact preserved _ _ (meets time) ih

variable (held goal : Nat → Prop) (rank : Nat → Nat)

theorem held_or_reached (kept : ∀ time, held time → goal (time + 1) ∨ held (time + 1)) {first last : Nat}
    (before : first ≤ last) (start : held first) : (∃ time ≥ first, goal time) ∨ held last := by
  induction before with
  | refl => exact .inr start
  | @step time after ih =>
    rcases ih with reached | still
    · exact .inl reached
    · rcases kept time still with reached | next
      · exact .inl ⟨time + 1, Nat.le_succ_of_le after, reached⟩
      · exact .inr next

theorem reached_of_rank
    (progress : ∀ time, held time → ∃ later ≥ time, goal later ∨ (held later ∧ rank later < rank time))
    (time : Nat) (start : held time) : ∃ later ≥ time, goal later := by
  induction height : rank time using Nat.strongRecOn generalizing time with
  | ind height ih =>
    obtain ⟨later, after, reached | ⟨still, lower⟩⟩ := progress time start
    · exact ⟨later, after, reached⟩
    · obtain ⟨last, behind, reached⟩ := ih (rank later) (height ▸ lower) later still rfl
      exact ⟨last, Nat.le_trans after behind, reached⟩

end

end Lib
