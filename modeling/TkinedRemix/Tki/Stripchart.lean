import TkinedRemix.Lib.Cells

/-!
The values of a strip chart, `StripchartValues` of `tkiStripchart.c`. An access outside the array has no
result. A value that `Tk_CanvasGetCoord` refuses is `none`; the width is that of the bounding box without its
border.
-/

namespace Tkined.Stripchart

open Lib

structure Chart (α : Type) where
  numPoints : Nat
  shiftPtr : List α
  numValues : Int
  jump : Int

variable {α : Type}

def createStripchart : Chart α := ⟨0, [], 0, 5⟩

section Model

variable [Zero α] [LT α] [DecidableLT α]

def resize (width : Nat) (chart : Chart α) : Option (Chart α) :=
  if chart.numPoints < width + 2 then do
    let shiftPtr ← overwrite 0 chart.numValues.toNat (fun _ i => load chart.shiftPtr i) (List.replicate width 0)
    some { chart with shiftPtr := shiftPtr, numPoints := width + 2 }
  else if width + 2 < chart.numPoints then
    if width - 1 < chart.numValues then do
      let shiftPtr ← overwrite 0 width (fun shiftPtr i => load shiftPtr (i + (chart.numValues - width + 1)))
        chart.shiftPtr
      some { chart with shiftPtr := shiftPtr, numValues := width - 1, numPoints := width + 2 }
    else
      some { chart with numPoints := width + 2 }
  else
    some chart

def makeRoom (width : Nat) (chart : Chart α) : Option (Chart α) :=
  let jump := if width ≤ chart.jump then 1 else chart.jump
  if chart.numValues = width - 1 then do
    let shiftPtr ← overwrite 0 (width - jump).toNat (fun shiftPtr j => load shiftPtr (j + jump)) chart.shiftPtr
    let shiftPtr ← overwrite (width - jump).toNat (width - 1 - (width - jump)).toNat (fun _ _ => some 0) shiftPtr
    some { chart with shiftPtr := shiftPtr, numValues := chart.numValues - jump }
  else
    some chart

-- The flag is `TCL_OK`.
def addValues (width : Nat) : List (Option α) → Chart α → Option (Bool × Chart α)
  | [], chart => some (true, chart)
  | arg :: argv, chart => do
    let chart ← makeRoom width chart
    match arg with
    | none => some (false, chart)
    | some value => do
      let shiftPtr ← store chart.shiftPtr chart.numValues value
      addValues width argv { chart with shiftPtr := shiftPtr, numValues := chart.numValues + 1 }

def clip (value : α) : α := if value < 0 then 0 else value

def readable (count : Nat) (cells : List α) : Bool := (List.range count).all fun i => (load cells i).isSome

-- The polygon takes every cell below the width, the search for the maximum those with a value.
def finish (width : Nat) (chart : Chart α) : Option (Chart α) := do
  let shiftPtr ← overwrite 0 chart.numValues.toNat (fun shiftPtr i => (load shiftPtr i).map clip) chart.shiftPtr
  if readable width shiftPtr && readable chart.numValues.toNat shiftPtr then
    some { chart with shiftPtr := shiftPtr }
  else
    none

def positiveJump (chart : Chart α) : Chart α :=
  { chart with jump := if chart.jump ≤ 0 then 1 else chart.jump }

def stripchartValues (width : Nat) (argv : List (Option α)) (chart : Chart α) : Option (Bool × Chart α) := do
  let resized ← resize width chart
  let added ← addValues width argv (positiveJump resized)
  if added.1 then
    let chart ← finish width added.2
    some (true, chart)
  else
    some (false, added.2)

inductive Command (α : Type) where
  | jumpscroll (jump : Int)
  | values (width : Nat) (argv : List (Option α))

def perform (chart : Chart α) : Command α → Option (Chart α)
  | .jumpscroll jump => some { chart with jump := jump }
  | .values width argv => (stripchartValues width argv chart).map Prod.snd

end Model

def Chart.values (chart : Chart α) : List α := chart.shiftPtr.take chart.numValues.toNat

def Chart.width (chart : Chart α) : Nat := chart.numPoints - 2

-- What the chart is for: the newest values that its width has room for.
def newest (count : Nat) (values : List α) : List α := values.drop (values.length - count)

-- A value that is refused takes the room of the next one, but adds nothing.
def newestAdded (width : Nat) : List (Option α) → List α → Bool × List α
  | [], recent => (true, recent)
  | none :: _, recent => (false, newest (width - 2) recent)
  | some value :: argv, recent => newestAdded width argv (newest (width - 1) (recent ++ [value]))

section Purpose

variable [Zero α] [LT α] [DecidableLT α]

def newestValues (width : Nat) (argv : List (Option α)) (recent : List α) : List α :=
  let (ok, recent) := newestAdded width argv (newest (width - 1) recent)
  if ok then recent.map clip else recent

def newestAfter : List (Command α) → List α → List α
  | [], recent => recent
  | .jumpscroll _ :: rest, recent => newestAfter rest recent
  | .values width argv :: rest, recent => newestAfter rest (newestValues width argv recent)

end Purpose

-- No value is added while the jump is larger than one.
def SingleSteps : Int → List (Command α) → Prop
  | _, [] => True
  | _, .jumpscroll jump :: rest => SingleSteps jump rest
  | jump, .values _ argv :: rest => (argv = [] ∨ jump ≤ 1) ∧ SingleSteps jump rest

def Fit (numPoints width : Nat) (argv : List (Option α)) : Prop :=
  (width = 1 → argv = []) ∧ (width = 0 → numPoints ≤ 2 ∧ ∀ value rest, argv ≠ some value :: rest)

def Fits : Nat → List (Command α) → Prop
  | _, [] => True
  | numPoints, .jumpscroll _ :: rest => Fits numPoints rest
  | numPoints, .values width argv :: rest => Fit numPoints width argv ∧ Fits (width + 2) rest

-- The first cells of the array hold `recent`, and every access below the width is inside it.
structure Holding (chart : Chart α) (recent : List α) : Prop where
  count : chart.numValues = recent.length
  stored : ∃ rest, chart.shiftPtr = recent ++ rest
  fits : chart.width ≤ chart.shiftPtr.length
  bounded : recent.length ≤ chart.width - 1
  empty : chart.numPoints ≤ 2 → chart.shiftPtr = []

variable {chart : Chart α} {recent : List α} {width : Nat} {argv : List (Option α)}

theorem newest_eq_self {count : Nat} {values : List α} (short : values.length ≤ count) :
    newest count values = values := by
  simp [newest, Nat.sub_eq_zero_of_le short]

theorem length_newest (count : Nat) (values : List α) : (newest count values).length = min values.length count := by
  simp only [newest, List.length_drop]
  omega

theorem overwrite_shifted {cells : List α} {count offset : Nat} (fits : count + offset ≤ cells.length) :
    overwrite 0 count (fun cells i => load cells (i + offset)) cells =
      some ((cells.drop offset).take count ++ cells.drop count) := by
  have length : ((cells.drop offset).take count).length = count := by simp; omega
  have loop := overwrite_eq (fun cells i => load cells (i + offset))
    ((cells.drop offset).take count) 0 cells (by omega) ?_
  · simpa [length] using loop
  · intro index bound current same
    show load current (((0 + index : Nat) : Int) + offset) = _
    rw [show (((0 + index : Nat) : Int) + offset) = ((index + offset : Nat) : Int) by omega,
      load_natCast, getElem?_of_drop_eq same (by omega), List.getElem?_take_of_lt (by omega), List.getElem?_drop,
      Nat.add_comm]

-- Both shifts leave the newest values at the start of the array.
theorem overwrite_newest (recent rest : List α) (count offset : Nat) (fits : count + offset ≤ (recent ++ rest).length)
    (kept : recent.length ≤ count + offset) (removed : offset ≤ recent.length) :
    ∃ behind, overwrite 0 count (fun cells i => load cells (i + offset)) (recent ++ rest) =
        some (recent.drop offset ++ behind) ∧
      (recent.drop offset ++ behind).length = (recent ++ rest).length := by
  have length : ((recent ++ rest).drop offset).take count = recent.drop offset ++
      rest.take (count - (recent.drop offset).length) := by
    rw [List.drop_append_of_le_length removed, List.take_append, List.take_of_length_le (by simp; omega)]
  refine ⟨rest.take (count - (recent.drop offset).length) ++ (recent ++ rest).drop count, ?_, ?_⟩
  · rw [overwrite_shifted fits, length, List.append_assoc]
  · simp only [List.length_append, List.length_drop, List.length_take] at fits ⊢
    omega

theorem overwrite_behind (front behind : List α) (value : α) (start count : Nat) (past : front.length ≤ start)
    (fits : start + count ≤ (front ++ behind).length) :
    ∃ after, overwrite start count (fun _ _ => some value) (front ++ behind) = some (front ++ after) ∧
      (front ++ after).length = (front ++ behind).length := by
  have loop := overwrite_eq (fun _ _ => some value) (List.replicate count value) start (front ++ behind)
    (by simpa using fits) (by simp +contextual)
  rw [List.length_replicate, List.take_append, List.take_of_length_le past] at loop
  refine ⟨_, loop.trans (by rw [List.append_assoc, List.append_assoc]), ?_⟩
  simp only [List.length_append, List.length_take, List.length_replicate, List.length_drop] at fits ⊢
  omega

theorem store_holding (holding : Holding chart recent) (room : recent.length + 2 ≤ chart.width) (value : α) :
    ∃ shiftPtr, store chart.shiftPtr chart.numValues value = some shiftPtr ∧
      Holding { chart with shiftPtr := shiftPtr, numValues := chart.numValues + 1 } (recent ++ [value]) := by
  obtain ⟨count, ⟨rest, stored⟩, fits, bounded, empty⟩ := holding
  have inside : recent.length < chart.shiftPtr.length := by omega
  refine ⟨_, by rw [count]; exact store_natCast inside value, ?_, ⟨rest.tail, ?_⟩, ?_, ?_, ?_⟩
  · simp [count]
  · rw [stored] at inside ⊢
    cases rest with
    | nil => simp at inside
    | cons first rest => simp [List.set_append_right _ _ le_rfl]
  · show chart.width ≤ (chart.shiftPtr.set recent.length value).length
    rwa [List.length_set]
  · show (recent ++ [value]).length ≤ chart.width - 1
    simp only [List.length_append, List.length_singleton]
    omega
  · intro narrow
    simp [empty narrow] at inside

theorem positiveJump_pos (chart : Chart α) : 0 < (positiveJump chart).jump := by
  simp only [positiveJump]
  split <;> omega

section Steps

variable [Zero α]

theorem resize_grows (holding : Holding chart recent) (grows : chart.numPoints < width + 2) :
    ∃ resized, resize width chart = some resized ∧ Holding resized (newest (width - 1) recent) ∧
      resized.numPoints = width + 2 ∧ resized.jump = chart.jump := by
  obtain ⟨count, ⟨rest, stored⟩, _, bounded, _⟩ := holding
  simp only [Chart.width] at bounded
  have short : recent.length ≤ width - 1 := by omega
  have copied := overwrite_eq (fun _ i => load chart.shiftPtr i) recent 0 (List.replicate width 0)
    (by simp only [List.length_replicate]; omega) ?_
  · rw [resize, if_pos grows, count, Int.toNat_natCast, copied, newest_eq_self short]
    refine ⟨_, rfl, ⟨rfl, ⟨List.drop recent.length (List.replicate width 0), by simp⟩, ?_, short, ?_⟩, rfl, rfl⟩
    · simp [Chart.width]
      omega
    · intro narrow
      have none : recent = [] := List.eq_nil_of_length_eq_zero (by simp only at narrow; omega)
      simp [none, show width = 0 by simp only at narrow; omega]
  · intro index bound current _
    rw [load_natCast, stored, Nat.zero_add, List.getElem?_append_left bound]

theorem resize_shrinks (holding : Holding chart recent) (shrinks : width + 2 < chart.numPoints)
    (positive : 0 < width) :
    ∃ resized, resize width chart = some resized ∧ Holding resized (newest (width - 1) recent) ∧
      resized.numPoints = width + 2 ∧ resized.jump = chart.jump := by
  obtain ⟨count, ⟨rest, stored⟩, fits, bounded, _⟩ := holding
  simp only [Chart.width] at fits bounded
  rw [resize, if_neg (by omega), if_pos shrinks]
  by_cases many : (width : Int) - 1 < chart.numValues
  · have offset : chart.numValues - width + 1 = ((recent.length - (width - 1) : Nat) : Int) := by omega
    rw [if_pos many, offset]
    rw [stored] at fits ⊢
    obtain ⟨behind, shifted, length⟩ := overwrite_newest recent rest width (recent.length - (width - 1)) (by omega)
      (by omega) (by omega)
    rw [shifted]
    refine ⟨_, rfl, ⟨?_, ⟨behind, rfl⟩, ?_, ?_, ?_⟩, rfl, rfl⟩
    · rw [length_newest]
      simp only
      omega
    · simp only [Chart.width]
      rw [length]
      omega
    · rw [length_newest]
      simp only [Chart.width]
      omega
    · intro narrow
      simp only at narrow
      omega
  · rw [if_neg many, newest_eq_self (by omega)]
    refine ⟨_, rfl, ⟨count, ⟨rest, stored⟩, ?_, ?_, ?_⟩, rfl, rfl⟩
    · simp only [Chart.width]
      omega
    · simp only [Chart.width]
      omega
    · intro narrow
      simp only at narrow
      omega

theorem resize_holding (width : Nat) (holding : Holding chart recent) (wide : width = 0 → chart.numPoints ≤ 2) :
    ∃ resized, resize width chart = some resized ∧ Holding resized (newest (width - 1) recent) ∧
      resized.numPoints = width + 2 ∧ resized.jump = chart.jump := by
  rcases lt_trichotomy chart.numPoints (width + 2) with grows | same | shrinks
  · exact resize_grows holding grows
  · have bounded := holding.bounded
    simp only [Chart.width] at bounded
    rw [resize, if_neg (by omega), if_neg (by omega), newest_eq_self (by omega)]
    exact ⟨chart, rfl, holding, same, rfl⟩
  · refine resize_shrinks holding shrinks ?_
    by_contra zero
    have narrow := wide (by omega)
    omega

theorem resize_zero {resized : Chart α} (wide : 2 < chart.numPoints) (counts : 0 ≤ chart.numValues)
    (ran : resize 0 chart = some resized) : resized.numValues = -1 := by
  unfold resize at ran
  rw [if_neg (by omega), if_pos (by omega), if_pos (by simp only [Nat.cast_zero]; omega)] at ran
  cases ran
  rfl

theorem makeRoom_holding (holding : Holding chart recent) (wide : 2 ≤ chart.width) (positive : 0 < chart.jump) :
    ∃ roomy older, makeRoom chart.width chart = some roomy ∧ Holding roomy older ∧ older.length + 2 ≤ chart.width ∧
      (chart.jump = 1 → older = newest (chart.width - 2) recent) ∧ roomy.numPoints = chart.numPoints ∧
      roomy.jump = chart.jump := by
  have bounded := holding.bounded
  have count := holding.count
  by_cases full : recent.length + 1 = chart.width
  · obtain ⟨steps, jump, least, below, single⟩ : ∃ steps : Nat,
        (if chart.width ≤ chart.jump then 1 else chart.jump) = (steps : Int) ∧ 1 ≤ steps ∧ steps < chart.width ∧
          (chart.jump = 1 → steps = 1) := by
      by_cases far : chart.width ≤ chart.jump
      · exact ⟨1, by simp [far], le_rfl, by omega, fun _ => rfl⟩
      · exact ⟨chart.jump.toNat, by simp only [far, ↓reduceIte]; omega, by omega, by omega, by omega⟩
    obtain ⟨rest, stored⟩ := holding.stored
    have fits := holding.fits
    rw [stored] at fits
    obtain ⟨behind, shifted, length⟩ := overwrite_newest recent rest (chart.width - steps) steps (by omega) (by omega)
      (by omega)
    obtain ⟨after, cleared, total⟩ := overwrite_behind (recent.drop steps) behind 0 (chart.width - steps) (steps - 1)
      (by simp only [List.length_drop]; omega) (by omega)
    refine ⟨{ chart with shiftPtr := recent.drop steps ++ after, numValues := chart.numValues - steps },
      recent.drop steps, ?_, ⟨?_, ⟨after, rfl⟩, ?_, ?_, ?_⟩, ?_, ?_, rfl, rfl⟩
    · simp only [makeRoom, jump]
      rw [if_pos (by omega), show ((chart.width : Int) - steps).toNat = chart.width - steps by omega,
        show ((chart.width : Int) - 1 - (chart.width - steps)).toNat = steps - 1 by omega, stored, shifted]
      simp only [Option.bind_eq_bind, Option.bind_some, cleared]
    · simp only [List.length_drop]
      omega
    · show chart.width ≤ (recent.drop steps ++ after).length
      omega
    · show (recent.drop steps).length ≤ chart.width - 1
      simp only [List.length_drop]
      omega
    · intro narrow
      have : chart.width = chart.numPoints - 2 := rfl
      simp only at narrow
      omega
    · simp only [List.length_drop]
      omega
    · intro one
      rw [single one, newest, show recent.length - (chart.width - 2) = 1 by omega]
  · refine ⟨chart, recent, ?_, holding, by omega, fun _ => (newest_eq_self (by omega)).symm, rfl, rfl⟩
    simp only [makeRoom]
    rw [if_neg (by omega)]

theorem addValues_wide (argv : List (Option α)) :
    ∀ (chart : Chart α) (recent : List α), Holding chart recent → 2 ≤ chart.width → 0 < chart.jump →
      ∃ ok added newer, addValues chart.width argv chart = some (ok, added) ∧ Holding added newer ∧
        (argv = [] ∨ chart.jump = 1 → newestAdded chart.width argv recent = (ok, newer)) ∧
        added.numPoints = chart.numPoints ∧ added.jump = chart.jump := by
  induction argv with
  | nil =>
    intro chart recent holding _ _
    exact ⟨true, chart, recent, rfl, holding, fun _ => rfl, rfl, rfl⟩
  | cons arg argv ih =>
    intro chart recent holding wide positive
    obtain ⟨roomy, older, made, holds, room, newestOlder, points, jumps⟩ := makeRoom_holding holding wide positive
    have same : roomy.width = chart.width := congrArg (· - 2) points
    cases arg with
    | none =>
      refine ⟨false, roomy, older, ?_, holds, ?_, points, jumps⟩
      · simp only [addValues, made, Option.bind_eq_bind, Option.bind_some]
      · intro single
        rw [newestAdded, newestOlder (by simpa using single)]
    | some value =>
      obtain ⟨shiftPtr, stored, next⟩ := store_holding holds (by omega) value
      obtain ⟨ok, added, newer, ran, final, newestNewer, morePoints, moreJumps⟩ := ih _ _ next
        (show 2 ≤ roomy.width by omega) (show 0 < roomy.jump by omega)
      refine ⟨ok, added, newer, ?_, final, ?_, morePoints.trans points, moreJumps.trans jumps⟩
      · simp only [addValues, made, Option.bind_eq_bind, Option.bind_some, stored]
        rw [← same]
        exact ran
      · intro single
        have one : chart.jump = 1 := by simpa using single
        have shorter : newest (chart.width - 1) (recent ++ [value]) = older ++ [value] := by
          rw [newestOlder one, newest, newest, List.length_append, List.length_singleton,
            List.drop_append_of_le_length (by omega),
            show recent.length + 1 - (chart.width - 1) = recent.length - (chart.width - 2) by omega]
        rw [newestAdded, shorter, ← same]
        exact newestNewer (Or.inr (show roomy.jump = 1 by omega))

theorem addValues_holding (holding : Holding chart recent) (positive : 0 < chart.jump)
    (fit : Fit chart.numPoints chart.width argv) :
    ∃ ok added newer, addValues chart.width argv chart = some (ok, added) ∧ Holding added newer ∧
      (argv = [] ∨ chart.jump = 1 → newestAdded chart.width argv recent = (ok, newer)) ∧
      added.numPoints = chart.numPoints ∧ added.jump = chart.jump := by
  by_cases wide : 2 ≤ chart.width
  · exact addValues_wide argv chart recent holding wide positive
  · have bounded := holding.bounded
    have none : recent = [] := List.eq_nil_of_length_eq_zero (by omega)
    cases argv with
    | nil => exact ⟨true, chart, recent, rfl, holding, fun _ => rfl, rfl, rfl⟩
    | cons arg argv =>
      have zero : chart.width = 0 := by
        by_contra nonzero
        simpa using fit.1 (by omega)
      cases arg with
      | none =>
        have count := holding.count
        refine ⟨false, chart, recent, ?_, holding, ?_, rfl, rfl⟩
        · simp only [addValues, makeRoom]
          rw [if_neg (by omega)]
          rfl
        · intro _
          simp [newestAdded, none, newest]
      | some value => exact absurd rfl ((fit.2 zero).2 value argv)

-- A width below two has no place for a value.
theorem addValues_narrow {ok : Bool} {added : Chart α} (arg : Option α) (narrow : width ≤ 1)
    (count : chart.numValues = width - 1) (positive : 0 < chart.jump)
    (ran : addValues width (arg :: argv) chart = some (ok, added)) : added.numValues < 0 := by
  have made : makeRoom width chart = some { chart with numValues := chart.numValues - 1 } := by
    have near : (if (width : Int) ≤ chart.jump then 1 else chart.jump) = 1 := if_pos (by omega)
    simp only [makeRoom, near]
    rw [if_pos count, show ((width : Int) - 1).toNat = 0 by omega,
      show ((width : Int) - 1 - (width - 1)).toNat = 0 by omega]
    rfl
  simp only [addValues, made, Option.bind_eq_bind, Option.bind_some] at ran
  cases arg with
  | none =>
    simp only [Option.some.injEq, Prod.mk.injEq] at ran
    rw [← ran.2]
    show chart.numValues - 1 < 0
    omega
  | some value =>
    have outside : store chart.shiftPtr (chart.numValues - 1) value = none := if_neg (by omega)
    simp [outside] at ran

variable [LT α] [DecidableLT α]

omit [Zero α] [LT α] [DecidableLT α] in
theorem readable_of_le {cells : List α} {count : Nat} (inside : count ≤ cells.length) :
    readable count cells = true := by
  simp only [readable, List.all_eq_true, List.mem_range]
  intro i bound
  rw [load_natCast, List.getElem?_eq_getElem (by omega)]
  rfl

theorem finish_holding (holding : Holding chart recent) :
    ∃ finished, finish chart.width chart = some finished ∧ Holding finished (recent.map clip) ∧
      finished.numPoints = chart.numPoints ∧ finished.jump = chart.jump := by
  obtain ⟨count, ⟨rest, stored⟩, fits, bounded, empty⟩ := holding
  have clipped := overwrite_eq (fun shiftPtr i => (load shiftPtr i).map clip) (recent.map clip) 0 chart.shiftPtr
    (by simp [stored]) ?_
  · have total : (recent.map clip ++ rest).length = chart.shiftPtr.length := by simp [stored]
    rw [List.length_map, List.take_zero, List.nil_append, Nat.zero_add, stored, List.drop_left] at clipped
    refine ⟨{ chart with shiftPtr := recent.map clip ++ rest }, ?_, ⟨?_, ⟨rest, rfl⟩, ?_, ?_, ?_⟩, rfl, rfl⟩
    · have inside : recent.length ≤ (recent.map clip ++ rest).length := by simp
      simp only [finish, count, Int.toNat_natCast, stored, clipped, Option.bind_eq_bind, Option.bind_some]
      rw [readable_of_le (total.symm ▸ fits), readable_of_le inside]
      rfl
    · simpa using count
    · exact total.symm ▸ fits
    · show (recent.map clip).length ≤ chart.width - 1
      rwa [List.length_map]
    · intro narrow
      have none := empty narrow
      rw [stored] at none
      simp_all
  · intro index bound current same
    rw [Nat.zero_add] at same ⊢
    rw [load_natCast, getElem?_of_drop_eq same le_rfl, stored,
      List.getElem?_append_left (by simpa using bound), List.getElem?_map]

theorem finish_numValues {finished : Chart α} (ran : finish width chart = some finished) :
    finished.numValues = chart.numValues := by
  simp only [finish, Option.bind_eq_bind, Option.bind_eq_some_iff] at ran
  obtain ⟨shiftPtr, _, ran⟩ := ran
  split at ran
  · cases ran
    rfl
  · cases ran

theorem stripchartValues_holding (holding : Holding chart recent) (fit : Fit chart.numPoints width argv) :
    ∃ ok final newer, stripchartValues width argv chart = some (ok, final) ∧ Holding final newer ∧
      (argv = [] ∨ chart.jump ≤ 1 → newer = newestValues width argv recent) ∧ final.numPoints = width + 2 ∧
      (chart.jump ≤ 1 → final.jump ≤ 1) := by
  obtain ⟨resized, ran, holds, points, jump⟩ := resize_holding width holding fun zero => (fit.2 zero).1
  have wide : resized.width = width := by simp [Chart.width, points]
  have positive := positiveJump_pos resized
  have one : chart.jump ≤ 1 → (positiveJump resized).jump = 1 := by
    intro single
    simp only [positiveJump]
    split <;> omega
  have ready : Holding (positiveJump resized) (newest (width - 1) recent) :=
    ⟨holds.count, holds.stored, holds.fits, holds.bounded, holds.empty⟩
  have stillFits : Fit (positiveJump resized).numPoints (positiveJump resized).width argv := by
    refine ⟨fun narrow => fit.1 (wide ▸ narrow), fun zero => ⟨?_, (fit.2 (wide ▸ zero)).2⟩⟩
    show resized.numPoints ≤ 2
    have : resized.width = 0 := zero
    omega
  obtain ⟨ok, added, newer, adds, after, newestNewer, samePoints, sameJump⟩ :=
    addValues_holding ready positive stillFits
  rw [show (positiveJump resized).width = width from wide] at adds newestNewer
  have width' : added.width = width := by simp [Chart.width, samePoints, positiveJump, points]
  cases ok with
  | false =>
    refine ⟨false, added, newer, ?_, after, ?_, samePoints.trans points, fun single => ?_⟩
    · simp [stripchartValues, ran, adds]
    · intro single
      simp [newestValues, newestNewer (single.imp_right one)]
    · rw [sameJump, one single]
  | true =>
    obtain ⟨finished, finishes, final, finalPoints, finalJump⟩ := finish_holding after
    rw [width'] at finishes
    refine ⟨true, finished, newer.map clip, ?_, final, ?_, finalPoints.trans (samePoints.trans points),
      fun single => ?_⟩
    · simp [stripchartValues, ran, adds, finishes]
    · intro single
      simp [newestValues, newestNewer (single.imp_right one)]
    · rw [finalJump, sameJump, one single]

theorem stripchartValues_unfit {ok : Bool} {final : Chart α} (holding : Holding chart recent)
    (unfit : ¬ Fit chart.numPoints width argv) (ran : stripchartValues width argv chart = some (ok, final)) :
    final.numValues < 0 := by
  simp only [stripchartValues, Option.bind_eq_bind, Option.bind_eq_some_iff] at ran
  obtain ⟨resized, resizes, ⟨passed, added⟩, adds, ran⟩ := ran
  have same : final.numValues = added.numValues := by
    cases passed with
    | false =>
      simp at ran
      rw [ran.2]
    | true =>
      simp only [↓reduceIte, Option.bind_eq_some_iff] at ran
      obtain ⟨finished, finishes, ran⟩ := ran
      simp at ran
      rw [← ran.2]
      exact finish_numValues finishes
  rw [same]
  have positive := positiveJump_pos resized
  have many := holding.count
  by_cases zero : width = 0
  · subst zero
    by_cases started : chart.numPoints ≤ 2
    · obtain ⟨value, rest, rfl⟩ : ∃ value rest, argv = some value :: rest := by
        by_contra other
        push Not at other
        exact unfit ⟨fun one => absurd one (by decide), fun _ => ⟨started, other⟩⟩
      obtain ⟨_, again, holds, points, _⟩ := resize_holding 0 holding fun _ => started
      cases again.symm.trans resizes
      have cells : resized.shiftPtr = [] := holds.empty points.le
      have empty : resized.numValues = 0 := by simpa [newest] using holds.count
      simp [addValues, makeRoom, positiveJump, empty, cells, store] at adds
    · have count : resized.numValues = -1 := resize_zero (by omega) (by omega) resizes
      cases argv with
      | nil =>
        cases adds
        show resized.numValues < 0
        omega
      | cons arg argv => exact addValues_narrow arg (by omega) (by simpa [positiveJump] using count) positive adds
  · obtain ⟨_, again, holds, _, _⟩ := resize_holding width holding fun none => absurd none zero
    cases again.symm.trans resizes
    obtain ⟨one, filled⟩ : width = 1 ∧ argv ≠ [] := by
      by_contra other
      push Not at other
      exact unfit ⟨other, fun none => absurd none zero⟩
    have count : resized.numValues = 0 := by simpa [one, newest] using holds.count
    cases argv with
    | nil => exact absurd rfl filled
    | cons arg argv =>
      exact addValues_narrow arg one.le (by simpa [positiveJump, one] using count) positive adds

end Steps

theorem SingleSteps.of_imp {commands : List (Command α)} {jump other : Int} (single : SingleSteps jump commands)
    (smaller : jump ≤ 1 → other ≤ 1) : SingleSteps other commands := by
  induction commands generalizing jump other with
  | nil => trivial
  | cons command rest ih =>
    cases command with
    | jumpscroll next => exact single
    | values width argv => exact ⟨single.1.imp_right smaller, ih single.2 smaller⟩

theorem Fits.of_isPrefix {earlier commands : List (Command α)} {numPoints : Nat} (fits : Fits numPoints commands)
    (start : earlier <+: commands) : Fits numPoints earlier := by
  obtain ⟨later, rfl⟩ := start
  induction earlier generalizing numPoints with
  | nil => trivial
  | cons command earlier ih =>
    cases command with
    | jumpscroll jump => exact ih fits
    | values width argv => exact ⟨fits.1, ih fits.2⟩

theorem Holding.withJump (holding : Holding chart recent) (jump : Int) : Holding { chart with jump := jump } recent :=
  ⟨holding.count, holding.stored, holding.fits, holding.bounded, holding.empty⟩

section Runs

variable [Zero α] [LT α] [DecidableLT α]

theorem run_holding (commands : List (Command α)) :
    ∀ (chart : Chart α) (recent : List α), Holding chart recent → Fits chart.numPoints commands →
      ∃ final newer, commands.foldlM perform chart = some final ∧ Holding final newer ∧
        (SingleSteps chart.jump commands → newer = newestAfter commands recent) := by
  induction commands with
  | nil =>
    intro chart recent holding _
    exact ⟨chart, recent, rfl, holding, fun _ => rfl⟩
  | cons command rest ih =>
    intro chart recent holding fits
    cases command with
    | jumpscroll jump =>
      obtain ⟨final, newer, ran, holds, same⟩ := ih _ recent (holding.withJump jump) fits
      exact ⟨final, newer, ran, holds, same⟩
    | values width argv =>
      obtain ⟨ok, next, newer, called, holds, same, points, jumps⟩ := stripchartValues_holding holding fits.1
      obtain ⟨final, newest, ran, holdsLater, sameLater⟩ := ih next newer holds (points ▸ fits.2)
      refine ⟨final, newest, ?_, holdsLater, ?_⟩
      · simpa [perform, called] using ran
      · intro single
        rw [sameLater (single.2.of_imp jumps), same single.1, newestAfter]

-- From a chart in order, the first call that does not fit fails or leaves a negative number of values.
theorem run_fits (commands : List (Command α)) :
    ∀ (chart : Chart α) (recent : List α), Holding chart recent →
      (∀ earlier, earlier <+: commands → ∃ final, earlier.foldlM perform chart = some final ∧ 0 ≤ final.numValues) →
      Fits chart.numPoints commands := by
  induction commands with
  | nil =>
    intro chart recent _ _
    trivial
  | cons command rest ih =>
    intro chart recent holding safe
    have later : ∀ next, perform chart command = some next → ∀ earlier, earlier <+: rest →
        ∃ final, earlier.foldlM perform next = some final ∧ 0 ≤ final.numValues := by
      intro next performed earlier start
      obtain ⟨final, ran, counts⟩ := safe (command :: earlier) (List.cons_prefix_cons.mpr ⟨rfl, start⟩)
      exact ⟨final, by simpa [performed] using ran, counts⟩
    cases command with
    | jumpscroll jump => exact ih { chart with jump := jump } recent (holding.withJump jump) (later _ rfl)
    | values width argv =>
      have fit : Fit chart.numPoints width argv := by
        by_contra unfit
        obtain ⟨final, ran, counts⟩ := safe [.values width argv] ⟨rest, rfl⟩
        simp only [List.foldlM_cons, List.foldlM_nil, perform, bind_pure, Option.map_eq_some_iff] at ran
        obtain ⟨result, called, rfl⟩ := ran
        have negative := stripchartValues_unfit holding unfit called
        omega
      obtain ⟨ok, next, newer, called, holds, _, points, _⟩ := stripchartValues_holding holding fit
      exact ⟨fit, points ▸ ih next newer holds (later next (by simp [perform, called]))⟩

end Runs

end Tkined.Stripchart
