import Mathlib

/-!
Undo journals: undoing the entries from the front leads back to something like the first state.
-/

namespace Lib

variable {σ υ : Type}

/-- Undoing the entries, latest first, leads from `after` back to `before`. -/
def Reverts (undo : σ → υ → σ) (same : σ → σ → Prop) (before : σ) (entries : List υ) (after : σ) : Prop :=
  ∀ state, same after state → same before (entries.foldl undo state)

variable {undo : σ → υ → σ} {same : σ → σ → Prop}

theorem Reverts.refl (before : σ) : Reverts undo same before [] before := fun _ alike => alike

theorem Reverts.trans {before middle after : σ} {first second : List υ}
    (earlier : Reverts undo same before first middle)
    (later : Reverts undo same middle second after) : Reverts undo same before (second ++ first) after := by
  intro state alike
  rw [List.foldl_append]
  exact earlier _ (later state alike)

end Lib
