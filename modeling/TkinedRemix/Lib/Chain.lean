import Mathlib

/-!
Singly linked lists in a heap of cells. A walk that meets a freed cell has no result.
-/

namespace Lib

open List Function

variable {γ : Type} (next : γ → Option Nat) (heap : Nat → Option γ)

/-- The cells from a pointer on, or `none` if one of them is freed or there are more than `fuel`. -/
def follow : Nat → Option Nat → Option (List Nat)
  | _, none => some []
  | 0, some _ => none
  | fuel + 1, some address => do
      let cell ← heap address
      let rest ← follow fuel (next cell)
      return address :: rest

def Linked : Option Nat → List Nat → Prop
  | pointer, [] => pointer = none
  | pointer, address :: rest => pointer = some address ∧ ∃ cell, heap address = some cell ∧ Linked (next cell) rest

variable {next heap} {pointer : Option Nat} {cells : List Nat}

theorem follow_linked (linked : Linked next heap pointer cells) {fuel : Nat} (enough : cells.length ≤ fuel) :
    follow next heap fuel pointer = some cells := by
  induction cells generalizing pointer fuel with
  | nil =>
    cases linked
    cases fuel <;> rfl
  | cons _ _ ih =>
    obtain ⟨rfl, _, stored, linked⟩ := linked
    cases fuel with
    | zero => cases enough
    | succ =>
      have tail := ih linked (Nat.le_of_succ_le_succ enough)
      simp [follow, stored, tail]

variable {other : Nat → Option γ}

theorem Linked.frame (linked : Linked next heap pointer cells)
    (same : ∀ address ∈ cells, other address = heap address) : Linked next other pointer cells := by
  induction cells generalizing pointer with
  | nil => exact linked
  | cons address _ ih =>
    obtain ⟨points, cell, stored, linked⟩ := linked
    refine ⟨points, cell, ?_, ih linked fun later member => same later (mem_cons_of_mem _ member)⟩
    rw [same address mem_cons_self, stored]

variable {address : Nat}

theorem Linked.update (linked : Linked next heap pointer cells) (outside : address ∉ cells) (cell : Option γ) :
    Linked next (update heap address cell) pointer cells := by
  refine linked.frame fun other member => update_of_ne ?_ _ _
  rintro rfl
  exact outside member

theorem Linked.stored (linked : Linked next heap pointer cells) (member : address ∈ cells) :
    ∃ cell, heap address = some cell := by
  induction cells generalizing pointer with
  | nil => cases member
  | cons _ _ ih =>
    obtain ⟨_, cell, stored, linked⟩ := linked
    rcases mem_cons.mp member with rfl | later
    · exact ⟨cell, stored⟩
    · exact ih linked later

theorem Linked.unique {others : List Nat} (linked : Linked next heap pointer cells)
    (again : Linked next heap pointer others) : cells = others := by
  induction cells generalizing pointer others with
  | nil =>
    cases linked
    cases others with
    | nil => rfl
    | cons => cases again.1
  | cons _ _ ih =>
    obtain ⟨rfl, _, stored, linked⟩ := linked
    cases others with
    | nil => cases again
    | cons =>
      obtain ⟨same, _, otherStored, again⟩ := again
      cases same
      cases stored.symm.trans otherStored
      rw [ih linked again]

theorem Linked.suffix {before behind : List Nat} (linked : Linked next heap pointer (before ++ address :: behind)) :
    Linked next heap (some address) (address :: behind) := by
  induction before generalizing pointer with
  | nil =>
    obtain ⟨rfl, rest⟩ := linked
    exact ⟨rfl, rest⟩
  | cons _ _ ih =>
    obtain ⟨_, _, _, linked⟩ := linked
    exact ih linked

theorem Linked.nodup (linked : Linked next heap pointer cells) : cells.Nodup := by
  induction cells generalizing pointer with
  | nil => exact nodup_nil
  | cons address _ ih =>
    obtain ⟨_, cell, stored, tail⟩ := linked
    refine nodup_cons.mpr ⟨?_, ih tail⟩
    intro member
    obtain ⟨before, behind, rfl⟩ := append_of_mem member
    have whole : Linked next heap (some address) (address :: (before ++ address :: behind)) :=
      ⟨rfl, cell, stored, tail⟩
    have same := congrArg List.length (whole.unique tail.suffix)
    simp only [length_cons, length_append] at same
    omega

variable {cell : γ}

theorem Linked.irrefl (linked : Linked next heap (some address) cells) (stored : heap address = some cell) :
    next cell ≠ some address := by
  intro points
  cases cells with
  | nil => cases linked
  | cons _ rest =>
    have nodup := linked.nodup
    obtain ⟨same, _, foundStored, tail⟩ := linked
    cases same
    cases stored.symm.trans foundStored
    rw [points] at tail
    cases rest with
    | nil => cases tail
    | cons =>
      cases tail.1
      exact (nodup_cons.mp nodup).1 mem_cons_self

theorem Linked.descends {first last : Nat} (linked : Linked next heap (some first) cells)
    (path : Relation.TransGen (fun address target => ∃ cell, heap address = some cell ∧
      next cell = some target) first last) :
    ∃ behind, Linked next heap (some last) behind ∧ behind.length < cells.length := by
  have one : ∀ {address target : Nat} {cells : List Nat}, Linked next heap (some address) cells →
      (∃ cell, heap address = some cell ∧ next cell = some target) →
      ∃ behind, Linked next heap (some target) behind ∧ behind.length < cells.length := by
    rintro _ _ cells linked ⟨_, stored, points⟩
    cases cells with
    | nil => cases linked
    | cons _ rest =>
      obtain ⟨same, _, foundStored, tail⟩ := linked
      cases same
      cases stored.symm.trans foundStored
      exact ⟨rest, points ▸ tail, Nat.lt_succ_self _⟩
  induction path with
  | single edge => exact one linked edge
  | tail _ edge ih =>
    obtain ⟨_, again, shorter⟩ := ih
    obtain ⟨behind, last, shortest⟩ := one again edge
    exact ⟨behind, last, Nat.lt_trans shortest shorter⟩

theorem acyclic (chains : ∀ address cell, heap address = some cell → ∃ cells, Linked next heap (some address) cells)
    (address : Nat) :
    ¬Relation.TransGen (fun address target => ∃ cell, heap address = some cell ∧ next cell = some target)
      address address := by
  intro path
  have stored : ∃ cell, heap address = some cell := by
    obtain ⟨_, ⟨cell, stored, _⟩, _⟩ := Relation.TransGen.head'_iff.mp path
    exact ⟨cell, stored⟩
  obtain ⟨cell, stored⟩ := stored
  obtain ⟨_, linked⟩ := chains address cell stored
  obtain ⟨_, again, shorter⟩ := linked.descends path
  rw [linked.unique again] at shorter
  exact Nat.lt_irrefl _ shorter

section

variable (linked : Linked next heap pointer cells)
include linked

theorem Linked.avoids (starts : pointer ≠ some address)
    (unused : ∀ other cell, heap other = some cell → next cell ≠ some address) : address ∉ cells := by
  induction cells generalizing pointer with
  | nil => exact not_mem_nil
  | cons first _ ih =>
    obtain ⟨rfl, cell, stored, linked⟩ := linked
    rw [mem_cons, not_or]
    exact ⟨fun same => starts (same ▸ rfl), ih linked (unused first cell stored)⟩

theorem Linked.redirect {target : Option Nat} {tail : List Nat} (points : next cell = target)
    (other : Linked next heap target tail) (outside : address ∉ tail) :
    ∃ redirected, Linked next (Function.update heap address (some cell)) pointer redirected := by
  induction cells generalizing pointer with
  | nil => exact ⟨[], linked⟩
  | cons first _ ih =>
    obtain ⟨rfl, firstCell, stored, linked⟩ := linked
    by_cases same : first = address
    · subst same
      exact ⟨first :: tail, rfl, cell, update_self .., points ▸ other.update outside (some cell)⟩
    · obtain ⟨redirected, again⟩ := ih linked
      exact ⟨first :: redirected, rfl, firstCell, by rw [update_of_ne same, stored], again⟩

theorem Linked.cut (cuts : ∀ address ∈ cells, ∀ cell, heap address = some cell → ∃ changed, other address =
    some changed ∧ (next changed = next cell ∨ next changed = none)) :
    ∃ shorter, Linked next other pointer shorter := by
  induction cells generalizing pointer with
  | nil => exact ⟨[], linked⟩
  | cons address _ ih =>
    obtain ⟨rfl, cell, stored, linked⟩ := linked
    obtain ⟨changed, otherStored, same | ends⟩ := cuts address mem_cons_self cell stored
    · obtain ⟨shorter, again⟩ := ih linked fun later member => cuts later (mem_cons_of_mem _ member)
      exact ⟨address :: shorter, rfl, changed, otherStored, same ▸ again⟩
    · exact ⟨[address], rfl, changed, otherStored, ends⟩

theorem Linked.length_le {bound : Nat} (unused : ∀ address, bound ≤ address → heap address = none) :
    cells.length ≤ bound := by
  have used : cells ⊆ List.range bound := by
    intro address member
    obtain ⟨_, stored⟩ := linked.stored member
    refine mem_range.mpr (Nat.lt_of_not_le fun above => ?_)
    cases (unused address above).symm.trans stored
  have few := (linked.nodup.subperm used).length_le
  rwa [length_range] at few

theorem follow_bounded {bound : Nat} (unused : ∀ address, bound ≤ address → heap address = none) :
    follow next heap bound pointer = some cells :=
  follow_linked linked (linked.length_le unused)

end

theorem Linked.snoc {last fresh : Nat} {grown : γ} (linked : Linked next heap pointer (cells ++ [last]))
    (outside : fresh ∉ cells ++ [last]) (points : next grown = some fresh) (ends : next cell = none) :
    Linked next (Function.update (Function.update heap fresh (some cell)) last (some grown)) pointer
      (cells ++ [last, fresh]) := by
  have apart : fresh ≠ last := fun same => outside (by simp [same])
  induction cells generalizing pointer with
  | nil =>
    obtain ⟨starts, _⟩ := linked
    exact ⟨starts, grown, update_self .., points, cell, by simp [update_of_ne apart], ends⟩
  | cons address _ ih =>
    have nodup := linked.nodup
    obtain ⟨starts, first, found, linked⟩ := linked
    rw [cons_append, nodup_cons] at nodup
    rw [cons_append, mem_cons, not_or] at outside
    have other : address ≠ last := fun same => nodup.1 (by simp [same])
    refine ⟨starts, first, ?_, ih linked outside.2⟩
    rw [update_of_ne other, update_of_ne (Ne.symm outside.1), found]

theorem Linked.unlink {before behind : List Nat} {passed : Nat} {passedCell : γ}
    (linked : Linked next heap pointer (before ++ address :: passed :: behind))
    (same : ∀ address ∈ before ++ behind, other address = heap address) (changed : other address = some cell)
    (stored : heap passed = some passedCell) (points : next cell = next passedCell) :
    Linked next other pointer (before ++ address :: behind) := by
  induction before generalizing pointer with
  | nil =>
    obtain ⟨starts, _, _, _, _, passedStored, linked⟩ := linked
    cases stored.symm.trans passedStored
    exact ⟨starts, cell, changed, points ▸ linked.frame same⟩
  | cons first _ ih =>
    obtain ⟨starts, firstCell, firstStored, linked⟩ := linked
    refine ⟨starts, firstCell, ?_, ih linked fun later member => same later (mem_cons_of_mem _ member)⟩
    rw [same first mem_cons_self, firstStored]

end Lib
