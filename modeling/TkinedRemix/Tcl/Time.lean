import Mathlib

/-!
The time of the Tcl library.
-/

namespace Tnm

structure TclTime where
  sec : Nat
  usec : Nat
  usec_lt : usec < 1000000

instance : DecidableEq TclTime := fun first second =>
  decidable_of_iff (first.sec = second.sec ∧ first.usec = second.usec) (by cases first; cases second; simp)

theorem second_pos : 0 < 1000000 := Nat.succ_pos _

def TclTime.zero : TclTime := ⟨0, 0, second_pos⟩

def TclTime.micros (time : TclTime) : Nat := 1000000 * time.sec + time.usec

end Tnm
