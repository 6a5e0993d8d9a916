import Mathlib

/-!
Arrays whose accesses are checked against their size, and the loop that writes one cell after the other.
-/

namespace Lib

variable {α : Type}

def load (cells : List α) (index : Int) : Option α :=
  if 0 ≤ index then cells[index.toNat]? else none

def store (cells : List α) (index : Int) (value : α) : Option (List α) :=
  if 0 ≤ index ∧ index.toNat < cells.length then some (cells.set index.toNat value) else none

def overwrite (start count : Nat) (value : List α → Nat → Option α) (cells : List α) : Option (List α) :=
  (List.range' start count).foldlM (fun cells (index : Nat) => do store cells index (← value cells index)) cells

theorem load_natCast (cells : List α) (index : Nat) : load cells index = cells[index]? := by
  simp [load]

theorem store_natCast {cells : List α} {index : Nat} (bound : index < cells.length) (value : α) :
    store cells index value = some (cells.set index value) := by
  simp [store, bound]

theorem getElem?_of_drop_eq {current cells : List α} {index place : Nat}
    (same : current.drop index = cells.drop index) (beyond : index ≤ place) : current[place]? = cells[place]? := by
  have shifted := congrArg (fun list => list[place - index]?) same
  simpa [Nat.add_sub_cancel' beyond] using shifted

theorem overwrite_succ (start count : Nat) (value : List α → Nat → Option α) (cells : List α) :
    overwrite start (count + 1) value cells =
      (value cells start).bind fun first => (store cells start first).bind (overwrite (start + 1) count value) := by
  simp only [overwrite, List.range'_succ, List.foldlM_cons, Option.bind_eq_bind, Option.bind_assoc]
  rfl

/-- A loop whose reads look only at cells that it has not written. -/
theorem overwrite_eq (value : List α → Nat → Option α) (expected : List α) (start : Nat) (cells : List α)
    (fits : start + expected.length ≤ cells.length)
    (reads : ∀ index < expected.length, ∀ current : List α,
      current.drop (start + index) = cells.drop (start + index) → value current (start + index) = expected[index]?) :
    overwrite start expected.length value cells =
      some (cells.take start ++ expected ++ cells.drop (start + expected.length)) := by
  induction expected generalizing start cells with
  | nil => simp [overwrite]
  | cons first rest ih =>
    simp only [List.length_cons] at fits reads
    have read : value cells start = some first := by simpa using reads 0 (by omega) cells rfl
    have below : start < cells.length := by omega
    have written : (cells.set start first).take (start + 1) = cells.take start ++ [first] := by
      rw [List.take_add_one, List.take_set_of_le le_rfl]
      simp [below]
    have untouched : ∀ index, (cells.set start first).drop (start + 1 + index) = cells.drop (start + 1 + index) :=
      fun index => List.drop_set_of_lt (by omega)
    have later := ih (start + 1) (cells.set start first) (by simp only [List.length_set]; omega) ?_
    · rw [List.length_cons, overwrite_succ, read, Option.bind_some, store_natCast below, Option.bind_some, later,
        written, untouched]
      simp [show start + 1 + rest.length = start + (rest.length + 1) by omega]
    · intro index bound current same
      rw [untouched] at same
      rw [show start + 1 + index = start + (index + 1) by omega] at same ⊢
      rw [reads (index + 1) (by omega) current same, List.getElem?_cons_succ]

end Lib
