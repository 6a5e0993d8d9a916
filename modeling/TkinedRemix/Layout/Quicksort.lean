import TkinedRemix.Lib.Ends
import TkinedRemix.Lib.Rearranged

/-!
`quicksort` of ip_layout.tcl, which sorts the neighbours of an object by the number of their links. The inner
loop carries a hole from one end of the range to the other; the outer loop calls itself for the smaller part
and goes on with the larger one.
-/

namespace Tkined.Layout

open Lib

-- The two kinds of entries that `quicksort` reads: `objektarray($e,$k)` and `objektarray($id,anzlinks)`.
structure Objektarray (ι : Type) where
  nachbar : ι → Int → ι
  anzlinks : ι → Nat

section Model

variable {ι : Type} [DecidableEq ι]

def Objektarray.setNachbar (objektarray : Objektarray ι) (e : ι) (k : Int) (id : ι) : Objektarray ι :=
  { objektarray with
    nachbar := Function.update objektarray.nachbar e (Function.update (objektarray.nachbar e) k id) }

-- The body of the inner loop, up to the test that moves `i` or `j`.
def exchange (e w : ι) (ab : Bool) (i j : Int) (objektarray : Objektarray ι) : Bool × Objektarray ι :=
  if ab then
    let id := objektarray.nachbar e j
    if objektarray.anzlinks id ≤ objektarray.anzlinks w then
      (false, objektarray.setNachbar e i id)
    else
      (true, objektarray)
  else
    let id := objektarray.nachbar e i
    if objektarray.anzlinks w < objektarray.anzlinks id then
      (true, objektarray.setNachbar e j id)
    else
      (false, objektarray)

def innerLoop (e w : ι) : Nat → Bool → Int → Int → Objektarray ι → Option (Int × Objektarray ι)
  | 0, _, _, _, _ => none
  | fuel + 1, ab, i, j, objektarray =>
    if i < j then
      let moved := exchange e w ab i j objektarray
      if moved.1 then
        innerLoop e w fuel moved.1 i (j - 1) moved.2
      else
        innerLoop e w fuel moved.1 (i + 1) j moved.2
    else
      some (j, objektarray)

-- A call of `quicksort` that is made only when its range needs it; the number counts the calls that are
-- active at once.
def callWhen (needed : Bool) (called : Option (Nat × Objektarray ι)) (objektarray : Objektarray ι) :
    Option (Nat × Objektarray ι) :=
  if needed then called.map fun result => (result.1 + 1, result.2) else some (0, objektarray)

def outerLoop (e : ι) : Nat → Int → Int → Objektarray ι → Option (Nat × Objektarray ι)
  | 0, _, _, _ => none
  | fuel + 1, u, v, objektarray =>
    if u < v then do
      let w := objektarray.nachbar e v
      let parted ← innerLoop e w fuel false u v objektarray
      let t := parted.1
      let objektarray := parted.2.setNachbar e t w
      if v - t < t - u then do
        let called ← callWhen (t + 1 < v) (outerLoop e fuel (t + 1) v objektarray) objektarray
        let later ← outerLoop e fuel u (t - 1) called.2
        some (max called.1 later.1, later.2)
      else do
        let called ← callWhen (u ≤ t - 1) (outerLoop e fuel u (t - 1) objektarray) objektarray
        let later ← outerLoop e fuel (t + 1) v called.2
        some (max called.1 later.1, later.2)
    else
      some (0, objektarray)

def quicksort (e : ι) (fuel : Nat) (u v : Int) (objektarray : Objektarray ι) : Option (Nat × Objektarray ι) :=
  callWhen true (outerLoop e fuel u v objektarray) objektarray

end Model

section Ranges

variable {ι : Type} {e : ι} {u v t a b : Int} {before objektarray after : Objektarray ι} {depth : Nat}

-- The neighbours of `e` between `u` and `v` have changed places with one another, and nothing else has changed.
structure Within (e : ι) (u v : Int) (before after : Objektarray ι) : Prop where
  anzlinks : after.anzlinks = before.anzlinks
  others : ∀ other, other ≠ e → after.nachbar other = before.nachbar other
  rearranged : Rearranged u v (before.nachbar e) (after.nachbar e)

def Ascending (e : ι) (u v : Int) (objektarray : Objektarray ι) : Prop :=
  ∀ k l, u ≤ k → k ≤ l → l ≤ v →
    objektarray.anzlinks (objektarray.nachbar e k) ≤ objektarray.anzlinks (objektarray.nachbar e l)

theorem Within.refl (e : ι) (u v : Int) (objektarray : Objektarray ι) : Within e u v objektarray objektarray :=
  ⟨rfl, fun _ _ => rfl, Rearranged.refl u v _⟩

theorem Within.trans (first : Within e u v before objektarray) (second : Within e u v objektarray after) :
    Within e u v before after where
  anzlinks := second.anzlinks.trans first.anzlinks
  others other different := (second.others other different).trans (first.others other different)
  rearranged := first.rearranged.trans second.rearranged

theorem Within.widen (within : Within e a b before after) (below : u ≤ a) (above : b ≤ v) :
    Within e u v before after :=
  ⟨within.anzlinks, within.others, within.rearranged.widen below above⟩

theorem Ascending.of_le (short : v ≤ u) : Ascending e u v objektarray := by
  intro k l lower ordered upper
  have same : k = l := by omega
  rw [same]

theorem Ascending.frame (ascending : Ascending e u v objektarray) (within : Within e a b objektarray after)
    (apart : v < a ∨ b < u) : Ascending e u v after := by
  intro k l lower ordered upper
  rw [within.anzlinks, within.rearranged.outside (by omega : k < a ∨ b < k),
    within.rearranged.outside (by omega : l < a ∨ b < l)]
  exact ascending k l lower ordered upper

-- The range after the inner loop: `w` stands at `t`, between the entries with as many links at most and those
-- with more.
structure Parted (e : ι) (u v : Int) (before : Objektarray ι) (t : Int) (objektarray : Objektarray ι) : Prop where
  within : Within e u v before objektarray
  start : u ≤ t
  stop : t ≤ v
  smaller : ∀ k, u ≤ k → k < t →
    objektarray.anzlinks (objektarray.nachbar e k) ≤ objektarray.anzlinks (objektarray.nachbar e t)
  larger : ∀ k, t < k → k ≤ v →
    objektarray.anzlinks (objektarray.nachbar e t) < objektarray.anzlinks (objektarray.nachbar e k)

theorem Parted.rearrange_low (parted : Parted e u v before t objektarray)
    (within : Within e u (t - 1) objektarray after) : Parted e u v before t after := by
  obtain ⟨first, start, stop, smaller, larger⟩ := parted
  refine ⟨first.trans (within.widen le_rfl (by omega)), start, stop, ?_, ?_⟩
  · intro k lower upper
    rw [within.anzlinks, within.rearranged.outside (by omega : t < u ∨ t - 1 < t)]
    exact within.rearranged.inside (P := fun id => objektarray.anzlinks id ≤ _)
      (fun place low high => smaller place low (by omega)) lower (by omega)
  · intro k lower upper
    rw [within.anzlinks, within.rearranged.outside (by omega : t < u ∨ t - 1 < t),
      within.rearranged.outside (by omega : k < u ∨ t - 1 < k)]
    exact larger k lower upper

theorem Parted.rearrange_high (parted : Parted e u v before t objektarray)
    (within : Within e (t + 1) v objektarray after) : Parted e u v before t after := by
  obtain ⟨first, start, stop, smaller, larger⟩ := parted
  refine ⟨first.trans (within.widen (by omega) le_rfl), start, stop, ?_, ?_⟩
  · intro k lower upper
    rw [within.anzlinks, within.rearranged.outside (by omega : t < t + 1 ∨ v < t),
      within.rearranged.outside (by omega : k < t + 1 ∨ v < k)]
    exact smaller k lower upper
  · intro k lower upper
    rw [within.anzlinks, within.rearranged.outside (by omega : t < t + 1 ∨ v < t)]
    exact within.rearranged.inside (P := fun id => _ < objektarray.anzlinks id)
      (fun place low high => larger place (by omega) high) (by omega : t + 1 ≤ k) upper

theorem Parted.ascending (parted : Parted e u v before t objektarray) (low : Ascending e u (t - 1) objektarray)
    (high : Ascending e (t + 1) v objektarray) : Ascending e u v objektarray := by
  intro k l lower ordered upper
  have atMost : ∀ m, u ≤ m → m ≤ t →
      objektarray.anzlinks (objektarray.nachbar e m) ≤ objektarray.anzlinks (objektarray.nachbar e t) := by
    intro m start stop
    by_cases last : m = t
    · rw [last]
    · exact parted.smaller m start (by omega)
  have atLeast : ∀ m, t ≤ m → m ≤ v →
      objektarray.anzlinks (objektarray.nachbar e t) ≤ objektarray.anzlinks (objektarray.nachbar e m) := by
    intro m start stop
    by_cases first : m = t
    · rw [first]
    · exact (parted.larger m (by omega) stop).le
  rcases lt_or_ge l t with before | _
  · exact low k l lower ordered (by omega)
  · rcases lt_or_ge t k with past | _
    · exact high k l (by omega) ordered upper
    · exact (atMost k lower (by omega)).trans (atLeast l (by omega) upper)

def levels (u v : Int) : Nat :=
  Nat.log 2 (v - u + 1).toNat

theorem levels_mono {u v a b : Int} (below : u ≤ a) (above : b ≤ v) : levels a b ≤ levels u v :=
  Nat.log_mono_right (by omega)

theorem levels_half {u v a b : Int} (nonempty : a ≤ b) (half : 2 * (b - a + 1) ≤ v - u + 1) :
    levels a b + 1 ≤ levels u v := by
  have occupied : (b - a + 1).toNat ≠ 0 := by omega
  calc levels a b + 1 = Nat.log 2 ((b - a + 1).toNat * 2) := (Nat.log_mul_base (by decide) occupied).symm
    _ ≤ levels u v := Nat.log_mono_right (by omega)

structure Sorted (e : ι) (u v : Int) (before : Objektarray ι) (depth : Nat) (result : Nat × Objektarray ι) :
    Prop where
  within : Within e u v before result.2
  ascending : Ascending e u v result.2
  shallow : result.1 ≤ depth

theorem callWhen_ends (e : ι) (a b : Int) (depth : Nat) {needed : Bool} {run : Nat → Option (Nat × Objektarray ι)}
    (called : needed = true → ∃ inner < depth, Ends run (Sorted e a b objektarray inner))
    (skipped : needed = false → b ≤ a) :
    Ends (fun fuel => callWhen needed (run fuel) objektarray) (Sorted e a b objektarray depth) := by
  cases needed with
  | true =>
    obtain ⟨inner, deeper, bound, result, runs, sorted⟩ := called rfl
    refine ⟨bound, (result.1 + 1, result.2), ?_, sorted.within, sorted.ascending, ?_⟩
    · intro fuel enough
      simp [callWhen, runs fuel enough]
    · exact Nat.lt_of_le_of_lt sorted.shallow deeper
  | false =>
    exact Ends.value (0, objektarray) ⟨Within.refl e a b objektarray, Ascending.of_le (skipped rfl), Nat.zero_le _⟩

-- What the two parts of a range become, whichever of them is sorted first.
theorem Parted.sort_high_low {called later : Nat × Objektarray ι} (parted : Parted e u v before t objektarray)
    (high : Sorted e (t + 1) v objektarray depth called) (low : Sorted e u (t - 1) called.2 depth later) :
    Sorted e u v before depth (max called.1 later.1, later.2) := by
  have final := (parted.rearrange_high high.within).rearrange_low low.within
  refine ⟨final.within, ?_, max_le high.shallow low.shallow⟩
  exact final.ascending low.ascending (high.ascending.frame low.within (Or.inr (by omega)))

theorem Parted.sort_low_high {called later : Nat × Objektarray ι} (parted : Parted e u v before t objektarray)
    (low : Sorted e u (t - 1) objektarray depth called) (high : Sorted e (t + 1) v called.2 depth later) :
    Sorted e u v before depth (max called.1 later.1, later.2) := by
  have final := (parted.rearrange_low low.within).rearrange_high high.within
  refine ⟨final.within, ?_, max_le low.shallow high.shallow⟩
  exact final.ascending (low.ascending.frame high.within (Or.inl (by omega))) high.ascending

theorem Sorted.deepen {inner : Nat} {result : Nat × Objektarray ι} (sorted : Sorted e u v before inner result)
    (deeper : inner ≤ depth) : Sorted e u v before depth result :=
  ⟨sorted.within, sorted.ascending, sorted.shallow.trans deeper⟩

end Ranges

section Runs

variable {ι : Type} [DecidableEq ι] {e w : ι} {u v i j t : Int} {ab : Bool} {before objektarray : Objektarray ι}

@[simp] theorem setNachbar_anzlinks (objektarray : Objektarray ι) (e : ι) (k : Int) (id : ι) :
    (objektarray.setNachbar e k id).anzlinks = objektarray.anzlinks := rfl

@[simp] theorem setNachbar_nachbar (objektarray : Objektarray ι) (e : ι) (k : Int) (id : ι) :
    (objektarray.setNachbar e k id).nachbar e = Function.update (objektarray.nachbar e) k id := by
  simp [Objektarray.setNachbar]

theorem setNachbar_nachbar_ne (objektarray : Objektarray ι) {e other : ι} (k : Int) (id : ι)
    (different : other ≠ e) : (objektarray.setNachbar e k id).nachbar other = objektarray.nachbar other := by
  simp [Objektarray.setNachbar, different]

-- The invariant of the inner loop: the value `w` is missing at the hole, which is `i` on the way down and `j`
-- on the way up.
structure Sweeping (e w : ι) (u v : Int) (before : Objektarray ι) (ab : Bool) (i j : Int)
    (objektarray : Objektarray ι) : Prop where
  within : Within e u v before (objektarray.setNachbar e (if ab then i else j) w)
  start : u ≤ i
  ordered : i ≤ j
  stop : j ≤ v
  smaller : ∀ k, u ≤ k → k < i → objektarray.anzlinks (objektarray.nachbar e k) ≤ objektarray.anzlinks w
  larger : ∀ k, j < k → k ≤ v → objektarray.anzlinks w < objektarray.anzlinks (objektarray.nachbar e k)

theorem Within.move {hole source : Int} (within : Within e u v before (objektarray.setNachbar e hole w))
    (different : source ≠ hole) (sourceLow : u ≤ source) (sourceHigh : source ≤ v) (holeLow : u ≤ hole)
    (holeHigh : hole ≤ v) :
    Within e u v before
      ((objektarray.setNachbar e hole (objektarray.nachbar e source)).setNachbar e source w) where
  anzlinks := within.anzlinks
  others other distinct := by
    rw [setNachbar_nachbar_ne _ _ _ distinct, setNachbar_nachbar_ne _ _ _ distinct,
      ← within.others other distinct, setNachbar_nachbar_ne _ _ _ distinct]
  rearranged := by
    have moved := within.rearranged
    rw [setNachbar_nachbar] at moved
    rw [setNachbar_nachbar, setNachbar_nachbar]
    exact moved.move different sourceLow sourceHigh holeLow holeHigh

theorem exchange_down (sweeping : Sweeping e w u v before true i j objektarray) (apart : i < j) :
    let moved := exchange e w true i j objektarray
    if moved.1 then Sweeping e w u v before moved.1 i (j - 1) moved.2
    else Sweeping e w u v before moved.1 (i + 1) j moved.2 := by
  obtain ⟨within, start, _, stop, smaller, larger⟩ := sweeping
  simp only [↓reduceIte] at within
  by_cases small : objektarray.anzlinks (objektarray.nachbar e j) ≤ objektarray.anzlinks w
  · simp only [exchange, small, ↓reduceIte, Bool.false_eq_true]
    refine ⟨within.move (by omega) (by omega) stop start (by omega), by omega, by omega, stop, ?_, ?_⟩
    · intro k lower upper
      simp only [setNachbar_nachbar, setNachbar_anzlinks, Function.update_apply]
      split
      · exact small
      · exact smaller k lower (by omega)
    · intro k lower upper
      simp only [setNachbar_nachbar, setNachbar_anzlinks, Function.update_apply]
      rw [if_neg (by omega)]
      exact larger k lower upper
  · simp only [exchange, small, ↓reduceIte]
    refine ⟨within, start, by omega, by omega, smaller, ?_⟩
    intro k lower upper
    by_cases next : k = j
    · rw [next]
      omega
    · exact larger k (by omega) upper

theorem exchange_up (sweeping : Sweeping e w u v before false i j objektarray) (apart : i < j) :
    let moved := exchange e w false i j objektarray
    if moved.1 then Sweeping e w u v before moved.1 i (j - 1) moved.2
    else Sweeping e w u v before moved.1 (i + 1) j moved.2 := by
  obtain ⟨within, start, _, stop, smaller, larger⟩ := sweeping
  simp only [Bool.false_eq_true, ↓reduceIte] at within
  by_cases large : objektarray.anzlinks w < objektarray.anzlinks (objektarray.nachbar e i)
  · simp only [exchange, large, ↓reduceIte, Bool.false_eq_true]
    refine ⟨within.move (by omega) start (by omega) (by omega) stop, start, by omega, by omega, ?_, ?_⟩
    · intro k lower upper
      simp only [setNachbar_nachbar, setNachbar_anzlinks, Function.update_apply]
      rw [if_neg (by omega)]
      exact smaller k lower upper
    · intro k lower upper
      simp only [setNachbar_nachbar, setNachbar_anzlinks, Function.update_apply]
      split
      · exact large
      · exact larger k (by omega) upper
  · simp only [exchange, large, ↓reduceIte, Bool.false_eq_true]
    refine ⟨within, by omega, by omega, stop, ?_, larger⟩
    intro k lower upper
    by_cases next : k = i
    · rw [next]
      omega
    · exact smaller k lower (by omega)

theorem exchange_sweeping (sweeping : Sweeping e w u v before ab i j objektarray) (apart : i < j) :
    let moved := exchange e w ab i j objektarray
    if moved.1 then Sweeping e w u v before moved.1 i (j - 1) moved.2
    else Sweeping e w u v before moved.1 (i + 1) j moved.2 := by
  cases ab with
  | true => exact exchange_down sweeping apart
  | false => exact exchange_up sweeping apart

theorem innerLoop_ends (gap : Nat) :
    ∀ (ab : Bool) (i j : Int) (objektarray : Objektarray ι), (j - i).toNat = gap →
      Sweeping e w u v before ab i j objektarray →
      Ends (innerLoop e w · ab i j objektarray)
        (fun parted => ∃ ab, Sweeping e w u v before ab parted.1 parted.1 parted.2) := by
  induction gap with
  | zero =>
    intro ab i j objektarray size sweeping
    have met : i = j := by
      have := sweeping.ordered
      omega
    subst met
    refine (Ends.value (i, objektarray) ⟨ab, sweeping⟩).succ ?_
    intro fuel
    simp [innerLoop]
  | succ gap ih =>
    intro ab i j objektarray size sweeping
    have apart : i < j := by omega
    have step := exchange_sweeping sweeping apart
    by_cases down : (exchange e w ab i j objektarray).1 = true
    · rw [if_pos down] at step
      refine (ih _ i (j - 1) _ (by omega) step).succ ?_
      intro fuel
      simp only [innerLoop, apart, down, ↓reduceIte]
    · rw [if_neg down] at step
      refine (ih _ (i + 1) j _ (by omega) step).succ ?_
      intro fuel
      simp only [innerLoop, apart, down, ↓reduceIte, Bool.false_eq_true]

theorem Sweeping.parted (sweeping : Sweeping e w u v before ab t t objektarray) :
    Parted e u v before t (objektarray.setNachbar e t w) := by
  obtain ⟨within, start, _, stop, smaller, larger⟩ := sweeping
  refine ⟨by simpa only [ite_self] using within, start, stop, ?_, ?_⟩
  · intro k lower upper
    simp only [setNachbar_nachbar, setNachbar_anzlinks, Function.update_self]
    rw [Function.update_of_ne (by omega)]
    exact smaller k lower upper
  · intro k lower upper
    simp only [setNachbar_nachbar, setNachbar_anzlinks, Function.update_self]
    rw [Function.update_of_ne (by omega)]
    exact larger k lower upper

theorem innerLoop_parts (e : ι) (objektarray : Objektarray ι) (nonempty : u < v) :
    Ends (innerLoop e (objektarray.nachbar e v) · false u v objektarray)
      (fun parted => Parted e u v objektarray parted.1
        (parted.2.setNachbar e parted.1 (objektarray.nachbar e v))) := by
  have begins : Sweeping e (objektarray.nachbar e v) u v objektarray false u v objektarray := by
    refine ⟨?_, le_rfl, by omega, le_rfl, fun k _ _ => by omega, fun k _ _ => by omega⟩
    have same : objektarray.setNachbar e v (objektarray.nachbar e v) = objektarray := by
      simp [Objektarray.setNachbar]
    simpa [same] using Within.refl e u v objektarray
  refine (innerLoop_ends _ false u v objektarray rfl begins).mono ?_
  rintro parted ⟨ab, sweeping⟩
  exact sweeping.parted

theorem outerLoop_ends (e : ι) (size : Nat) :
    ∀ (u v : Int) (objektarray : Objektarray ι), (v - u + 1).toNat = size →
      Ends (outerLoop e · u v objektarray) (Sorted e u v objektarray (levels u v)) := by
  induction size using Nat.strongRecOn with
  | ind size ih =>
    intro u v objektarray sized
    by_cases several : u < v
    · refine Ends.succ ((innerLoop_parts e objektarray several).bind ?_)
        (fun fuel => by simp only [outerLoop, several, ↓reduceIte]; rfl)
      intro result parted
      have start := parted.start
      have stop := parted.stop
      by_cases right : v - result.1 < result.1 - u
      · refine Ends.congr ?_ (fun fuel => if_pos right)
        refine Ends.bind (callWhen_ends e (result.1 + 1) v (levels u v) ?_ ?_) ?_
        · intro needed
          have nonempty : result.1 + 1 < v := of_decide_eq_true needed
          exact ⟨levels (result.1 + 1) v, levels_half nonempty.le (by omega), ih _ (by omega) _ _ _ rfl⟩
        · intro skipped
          have short : ¬ result.1 + 1 < v := of_decide_eq_false skipped
          omega
        · intro called high
          refine Ends.bind (ih _ (by omega) u (result.1 - 1) called.2 rfl) ?_
          intro later low
          exact Ends.value _ (parted.sort_high_low high (low.deepen (levels_mono le_rfl (by omega))))
      · refine Ends.congr ?_ (fun fuel => if_neg right)
        refine Ends.bind (callWhen_ends e u (result.1 - 1) (levels u v) ?_ ?_) ?_
        · intro needed
          have nonempty : u ≤ result.1 - 1 := of_decide_eq_true needed
          exact ⟨levels u (result.1 - 1), levels_half nonempty (by omega), ih _ (by omega) _ _ _ rfl⟩
        · intro skipped
          have short : ¬ u ≤ result.1 - 1 := of_decide_eq_false skipped
          omega
        · intro called low
          refine Ends.bind (ih _ (by omega) (result.1 + 1) v called.2 rfl) ?_
          intro later high
          exact Ends.value _ (parted.sort_low_high low (high.deepen (levels_mono (by omega) le_rfl)))
    · refine (Ends.value (0, objektarray) ⟨Within.refl e u v objektarray, Ascending.of_le (by omega),
        Nat.zero_le _⟩).succ ?_
      intro fuel
      simp only [outerLoop, several, ↓reduceIte]

theorem quicksort_sorts (e : ι) (u v : Int) (objektarray : Objektarray ι) :
    Ends (quicksort e · u v objektarray) (fun result =>
      Within e u v objektarray result.2 ∧ Ascending e u v result.2 ∧
        result.1 ≤ Nat.log 2 (v - u + 1).toNat + 1) := by
  have called := outerLoop_ends e _ u v objektarray rfl
  refine (callWhen_ends e u v (levels u v + 1) (fun _ => ⟨levels u v, Nat.lt_succ_self _, called⟩) ?_).mono ?_
  · intro never
    contradiction
  intro result sorted
  exact ⟨sorted.within, sorted.ascending, sorted.shallow⟩

end Runs

end Tkined.Layout
