import Mathlib

/-!
Strictly increasing lists, and the walk that asks for the first element behind the last answer.
-/

namespace Lib

open List

variable {γ δ : Type} [LinearOrder δ]

def Increasing (key : γ → δ) (list : List γ) : Prop :=
  list.Pairwise fun first second => key first < key second

variable {key : γ → δ} {list : List γ}

theorem Increasing.eq_of_key (increasing : Increasing key list) {first second : γ} (firstMember : first ∈ list)
    (secondMember : second ∈ list) (same : key first = key second) : first = second := by
  have nodup : (list.map key).Nodup := (pairwise_map.mpr increasing).imp ne_of_lt
  exact inj_on_of_nodup_map nodup firstMember secondMember same

theorem Increasing.find?_least (increasing : Increasing key list) {test : γ → Bool} {found : γ}
    (search : list.find? test = some found) : ∀ other ∈ list, test other = true → key found ≤ key other := by
  obtain ⟨_, _, _, rfl, earlier⟩ := find?_eq_some_iff_append.mp search
  intro other member passes
  rcases mem_append.mp member with before | behind
  · have fails := earlier other before
    simp [passes] at fails
  · rcases mem_cons.mp behind with rfl | later
    · exact le_rfl
    · exact (rel_of_pairwise_cons (pairwise_append.mp increasing).2.1 later).le

theorem Increasing.find?_eq_some_iff (increasing : Increasing key list) (test : γ → Bool) (found : γ) :
    list.find? test = some found ↔
      found ∈ list ∧ test found = true ∧ ∀ other ∈ list, test other = true → key found ≤ key other := by
  constructor
  · intro search
    exact ⟨mem_of_find?_eq_some search, find?_some search, increasing.find?_least search⟩
  · rintro ⟨member, passes, least⟩
    cases search : list.find? test with
    | none => exact absurd passes (by simpa using find?_eq_none.mp search found member)
    | some other =>
      have otherMember := mem_of_find?_eq_some search
      have otherPasses : test other = true := find?_some search
      have same : key other = key found :=
        le_antisymm (increasing.find?_least search found member passes)
          (least other otherMember otherPasses)
      rw [increasing.eq_of_key otherMember member same]

def successorWalk (next : δ → Option γ) (key : γ → δ) : Nat → δ → List γ
  | 0, _ => []
  | fuel + 1, position =>
    match next position with
    | none => []
    | some found => found :: successorWalk next key fuel (key found)

section

variable {key : γ → δ} {list : List γ} {behind : δ → γ → Bool}

theorem Increasing.filter_after (increasing : Increasing key list)
    (reads : ∀ position entry, behind position entry = true ↔ position < key entry)
    {position : δ} {found : γ} (search : list.find? (behind position) = some found) :
    list.filter (behind position) = found :: list.filter (behind (key found)) := by
  obtain ⟨passes, front, back, rfl, earlier⟩ := find?_eq_some_iff_append.mp search
  obtain ⟨_, rest, before⟩ := pairwise_append.mp increasing
  have after := (pairwise_cons.mp rest).1
  have frontFails : ∀ entry ∈ front, ¬ behind position entry = true := by simpa using earlier
  have frontBelow : ∀ entry ∈ front, ¬ behind (key found) entry = true := fun entry member => by
    rw [reads]
    exact (before entry member found mem_cons_self).not_gt
  have notItself : ¬ behind (key found) found = true := by simp [reads]
  have backPasses : ∀ entry ∈ back, behind position entry = true := fun entry member =>
    (reads position entry).mpr (((reads position found).mp passes).trans (after entry member))
  have backAbove : ∀ entry ∈ back, behind (key found) entry = true := fun entry member =>
    (reads (key found) entry).mpr (after entry member)
  rw [filter_append, filter_append, filter_eq_nil_iff.mpr frontFails, filter_eq_nil_iff.mpr frontBelow,
    filter_cons_of_pos passes, filter_cons_of_neg notItself, filter_eq_self.mpr backPasses,
      filter_eq_self.mpr backAbove]
  rfl

theorem Increasing.successorWalk_eq (increasing : Increasing key list)
    (reads : ∀ position entry, behind position entry = true ↔ position < key entry)
    {next : δ → Option γ} (successor : ∀ position, next position = list.find? (behind position))
    (fuel : Nat) (position : δ) (enough : (list.filter (behind position)).length ≤ fuel) :
    successorWalk next key fuel position = list.filter (behind position) := by
  induction fuel generalizing position with
  | zero => exact (length_eq_zero_iff.mp (Nat.le_zero.mp enough)).symm
  | succ _ ih =>
    simp only [successorWalk, successor]
    cases search : list.find? (behind position) with
    | none =>
      symm
      rw [filter_eq_nil_iff]
      exact find?_eq_none.mp search
    | some found =>
      rw [increasing.filter_after reads search] at enough ⊢
      simp only [length_cons, Nat.add_le_add_iff_right] at enough
      simp only [ih (key found) enough]

end

end Lib
