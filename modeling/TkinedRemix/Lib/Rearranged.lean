import Mathlib

/-!
Arrays whose values between two places have changed places with one another, and the one move that a
sort with a hole in its array makes.
-/

namespace Lib

variable {α : Type} {low high : Int} {before after : Int → α}

def Rearranged (low high : Int) (before after : Int → α) : Prop :=
  ∃ places : Equiv.Perm Int, (∀ place, place < low ∨ high < place → places place = place) ∧ after = before ∘ places

namespace Rearranged

theorem refl (low high : Int) (before : Int → α) : Rearranged low high before before :=
  ⟨1, fun _ _ => rfl, rfl⟩

theorem trans {last : Int → α} (first : Rearranged low high before after) (second : Rearranged low high after last) :
    Rearranged low high before last := by
  obtain ⟨places, kept, rfl⟩ := first
  obtain ⟨others, keptLater, rfl⟩ := second
  refine ⟨others.trans places, ?_, rfl⟩
  intro place outside
  rw [Equiv.trans_apply, keptLater place outside, kept place outside]

theorem widen {lower higher : Int} (rearranged : Rearranged low high before after) (below : lower ≤ low)
    (above : high ≤ higher) : Rearranged lower higher before after := by
  obtain ⟨places, kept, same⟩ := rearranged
  exact ⟨places, fun place outside => kept place (by omega), same⟩

theorem outside (rearranged : Rearranged low high before after) {place : Int} (beyond : place < low ∨ high < place) :
    after place = before place := by
  obtain ⟨places, kept, rfl⟩ := rearranged
  exact congrArg before (kept place beyond)

theorem inside (rearranged : Rearranged low high before after) {P : α → Prop}
    (holds : ∀ place, low ≤ place → place ≤ high → P (before place)) {place : Int} (lower : low ≤ place)
    (upper : place ≤ high) : P (after place) := by
  obtain ⟨places, kept, rfl⟩ := rearranged
  -- A place that moved out of the range would be a fixed point there, and the permutation is injective.
  by_cases stays : low ≤ places place ∧ places place ≤ high
  · exact holds (places place) stays.1 stays.2
  · have fixed : places place = place := places.injective (kept (places place) (by omega))
    omega

theorem move {content : Int → α} {value : α} {hole source : Int}
    (rearranged : Rearranged low high before (Function.update content hole value)) (different : source ≠ hole)
    (sourceLow : low ≤ source) (sourceHigh : source ≤ high) (holeLow : low ≤ hole) (holeHigh : hole ≤ high) :
    Rearranged low high before
      (Function.update (Function.update content hole (content source)) source value) := by
  refine rearranged.trans ⟨Equiv.swap hole source, ?_, ?_⟩
  · intro place beyond
    exact Equiv.swap_apply_of_ne_of_ne (by omega) (by omega)
  · funext place
    by_cases atSource : place = source
    · subst atSource
      simp
    · by_cases atHole : place = hole
      · subst atHole
        simp [atSource, different]
      · simp [atSource, atHole, Equiv.swap_apply_of_ne_of_ne atHole atSource]

end Rearranged

end Lib
