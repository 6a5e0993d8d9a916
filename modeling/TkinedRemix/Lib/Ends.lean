import Mathlib

/-!
Total correctness of functions with fuel, and a rule for each way to put such functions together.
-/

namespace Lib

variable {α β : Type}

def Ends (run : Nat → Option α) (post : α → Prop) : Prop :=
  ∃ bound result, (∀ fuel ≥ bound, run fuel = some result) ∧ post result

namespace Ends

variable {run later : Nat → Option α} {post weaker : α → Prop}

theorem value (result : α) (holds : post result) : Ends (fun _ => some result) post :=
  ⟨0, result, fun _ _ => rfl, holds⟩

theorem mono (ends : Ends run post) (weaken : ∀ result, post result → weaker result) : Ends run weaker := by
  obtain ⟨bound, result, runs, holds⟩ := ends
  exact ⟨bound, result, runs, weaken result holds⟩

theorem congr (ends : Ends later post) (same : ∀ fuel, run fuel = later fuel) : Ends run post := by
  rw [funext same]
  exact ends

theorem succ (ends : Ends later post) (step : ∀ fuel, run (fuel + 1) = later fuel) : Ends run post := by
  obtain ⟨bound, result, runs, holds⟩ := ends
  refine ⟨bound + 1, result, ?_, holds⟩
  intro fuel enough
  obtain ⟨fuel, rfl⟩ := Nat.exists_eq_add_of_le' (Nat.le_of_add_left_le enough)
  exact (step fuel).trans (runs fuel (by omega))

theorem bind {next : Nat → α → Option β} {goal : β → Prop} (ends : Ends run post)
    (rest : ∀ result, post result → Ends (next · result) goal) : Ends (fun fuel => run fuel >>= next fuel) goal := by
  obtain ⟨first, middle, runs, holds⟩ := ends
  obtain ⟨second, result, continues, reached⟩ := rest middle holds
  refine ⟨max first second, result, ?_, reached⟩
  intro fuel _
  show run fuel >>= next fuel = some result
  rw [runs fuel (by omega)]
  exact continues fuel (by omega)

end Ends

end Lib
