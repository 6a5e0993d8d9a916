import TkinedRemix.Lib.Format

/-!
Pointers into a buffer. Every address that a procedure reads is noted, and every index that it writes.
`Follows` says that it does what a reader does on the symbols of the buffer and stays inside.
-/

namespace Lib

open List

variable {τ α β : Type}

structure Buffer (τ : Type) where
  memory : Nat → τ
  start : Nat
  stop : Nat

structure Place where
  current : Nat
  reads : List Nat
  writes : List Nat

def Buffer.slice (buffer : Buffer τ) (address count : Nat) : List τ := (List.range' address count).map buffer.memory

def Buffer.view (buffer : Buffer τ) (place : Place) : Cursor τ :=
  ⟨buffer.slice place.current (buffer.stop - place.current), place.current - buffer.start⟩

def Buffer.ahead (buffer : Buffer τ) (place : Place) : List τ := (buffer.view place).data

/-- A procedure that fails leaves its pointer where it is. -/
def Pointer (_ : Buffer τ) (α : Type) := Place → Option α × Place

namespace Pointer

variable {buffer : Buffer τ}

instance : Monad (Pointer buffer) where
  pure value := fun place => (some value, place)
  bind run next := fun place =>
    match run place with
    | (some value, moved) => next value moved
    | (none, moved) => (none, moved)

def fail : Pointer buffer α := fun place => (none, place)

def check (passes : Bool) : Pointer buffer Unit := if passes then pure () else fail

def item : Pointer buffer τ := fun place =>
  if buffer.stop ≤ place.current then (none, place)
  else (some (buffer.memory place.current),
    { place with current := place.current + 1, reads := place.reads ++ [place.current] })

def peek : Pointer buffer τ := fun place =>
  if buffer.stop ≤ place.current then (none, place)
  else (some (buffer.memory place.current), { place with reads := place.reads ++ [place.current] })

def position : Pointer buffer Nat := fun place => (some (place.current - buffer.start), place)

def take (count : Nat) : Pointer buffer (List τ) := fun place =>
  if buffer.stop < place.current + count then (none, place)
  else (some (buffer.slice place.current count), { place with current := place.current + count })

def write (index : Nat) : Pointer buffer Unit := fun place =>
  (some (), { place with writes := place.writes ++ [index] })

def attempt (run : Pointer buffer α) : Pointer buffer (Option α) := fun place => (some (run place).1, (run place).2)

def consumed (run : Pointer buffer α) : Pointer buffer (List τ) := fun place =>
  match run place with
  | (some _, moved) => (some (buffer.slice place.current (moved.current - place.current)), moved)
  | (none, moved) => (none, moved)

theorem pure_apply (value : α) (place : Place) : (pure value : Pointer buffer α) place = (some value, place) := rfl

theorem bind_apply (run : Pointer buffer α) (next : α → Pointer buffer β) (place : Place) : (run >>= next) place =
      match run place with
      | (some value, moved) => next value moved
      | (none, moved) => (none, moved) := rfl

variable {run : Pointer buffer α} {next : α → Pointer buffer β} {place : Place}

theorem bind_of_some {moved : Place} {value : α} (outcome : run place = (some value, moved)) :
    (run >>= next) place = next value moved := by
  rw [bind_apply, outcome]

theorem bind_of_none {moved : Place} (outcome : run place = (none, moved)) : (run >>= next) place = (none, moved) := by
  rw [bind_apply, outcome]

theorem bind_reaches {bound : Nat} (first : (run place).2.current ≤ bound)
    (second : ∀ value moved, run place = (some value, moved) → (next value moved).2.current ≤ bound) :
    ((run >>= next) place).2.current ≤ bound := by
  rw [bind_apply]
  rcases outcome : run place with ⟨value | value, moved⟩
  · rw [outcome] at first
    exact first
  · exact second value moved outcome

theorem bind_eq_some {last : Place} {result : β} (outcome : (run >>= next) place = (some result, last)) :
    ∃ value moved, run place = (some value, moved) ∧ next value moved = (some result, last) := by
  rw [bind_apply] at outcome
  rcases first : run place with ⟨_ | value, moved⟩
  · rw [first] at outcome
    cases outcome
  · rw [first] at outcome
    exact ⟨value, moved, rfl, outcome⟩

theorem check_eq_some {passes : Bool} {last : Place} {result : Unit}
    (outcome : (check passes : Pointer buffer Unit) place = (some result, last)) : passes = true ∧ last = place := by
  cases passes with
  | false => cases outcome
  | true =>
    cases outcome
    exact ⟨rfl, rfl⟩

theorem check_stays (passes : Bool) (place : Place) : ((check passes : Pointer buffer Unit) place).2 = place := by
  cases passes <;> rfl

end Pointer

section

variable (buffer : Buffer τ)

theorem slice_succ (address count : Nat) :
    buffer.slice address (count + 1) = buffer.memory address :: buffer.slice (address + 1) count := rfl

theorem slice_length (address count : Nat) : (buffer.slice address count).length = count := by
  rw [Buffer.slice, length_map, length_range']

theorem slice_append (address first second : Nat) :
    buffer.slice address (first + second) = buffer.slice address first ++ buffer.slice (address + first) second := by
  rw [Buffer.slice, Buffer.slice, Buffer.slice, ← map_append, range'_append_1]

theorem take_slice {address count less : Nat} (le : less ≤ count) :
    (buffer.slice address count).take less = buffer.slice address less := by
  obtain ⟨_, rfl⟩ := Nat.exists_eq_add_of_le le
  rw [slice_append, take_left' (slice_length buffer address less)]

theorem drop_slice {address count less : Nat} (le : less ≤ count) :
    (buffer.slice address count).drop less = buffer.slice (address + less) (count - less) := by
  obtain ⟨_, rfl⟩ := Nat.exists_eq_add_of_le le
  rw [slice_append, drop_left' (slice_length buffer address less), Nat.add_sub_cancel_left]

end

def Buffer.Inside (buffer : Buffer τ) (place : Place) : Prop :=
  buffer.start ≤ place.current ∧ place.current ≤ buffer.stop

structure Moves (buffer : Buffer τ) (before after : Place) : Prop where
  forward : before.current ≤ after.current
  inside : after.current ≤ buffer.stop
  reads : ∃ new, after.reads = before.reads ++ new ∧ ∀ address ∈ new, before.current ≤ address ∧ address < buffer.stop

variable {buffer : Buffer τ}

theorem Moves.refl {place : Place} (inside : place.current ≤ buffer.stop) : Moves buffer place place :=
  ⟨le_rfl, inside, [], by simp, by simp⟩

theorem Moves.trans {before middle after : Place} (first : Moves buffer before middle)
    (second : Moves buffer middle after) : Moves buffer before after := by
  obtain ⟨early, earlyReads, earlyBounds⟩ := first.reads
  obtain ⟨late, lateReads, lateBounds⟩ := second.reads
  refine ⟨Nat.le_trans first.forward second.forward, second.inside, early ++ late, ?_, ?_⟩
  · rw [lateReads, earlyReads, append_assoc]
  · intro address member
    rcases mem_append.mp member with isEarly | isLate
    · exact earlyBounds address isEarly
    · have bounds := lateBounds address isLate
      have forward := first.forward
      omega

structure Follows {buffer : Buffer τ} (run : Pointer buffer α) (read : Reader τ α) : Prop where
  moves : ∀ place, buffer.Inside place → Moves buffer place (run place).2
  same : ∀ place, buffer.Inside place → read (buffer.view place) = ((run place).1, buffer.view (run place).2)

namespace Follows

variable {buffer : Buffer τ} {run : Pointer buffer α} {read : Reader τ α} {place : Place}

theorem stays (follows : Follows run read) (inside : buffer.Inside place) : buffer.Inside (run place).2 := by
  have moves := follows.moves place inside
  exact ⟨Nat.le_trans inside.1 moves.forward, moves.inside⟩

theorem of_places (each : ∀ place, buffer.Inside place → Moves buffer place (run place).2 ∧
    read (buffer.view place) = ((run place).1, buffer.view (run place).2)) : Follows run read :=
  ⟨fun place inside => (each place inside).1, fun place inside => (each place inside).2⟩

theorem pure (value : α) : Follows (pure value : Pointer buffer α) (Pure.pure value) :=
  ⟨fun _ inside => .refl inside.2, fun _ _ => rfl⟩

theorem fail : Follows (Pointer.fail : Pointer buffer α) Reader.fail :=
  ⟨fun _ inside => .refl inside.2, fun _ _ => rfl⟩

theorem check (passes : Bool) : Follows (Pointer.check passes : Pointer buffer Unit) (Reader.check passes) := by
  cases passes
  · exact fail
  · exact pure ()

theorem position : Follows (Pointer.position : Pointer buffer Nat) Reader.position :=
  ⟨fun _ inside => .refl inside.2, fun _ _ => rfl⟩

theorem view_open (open_ : ¬ buffer.stop ≤ place.current) :
    buffer.view place =
      ⟨buffer.memory place.current :: buffer.slice (place.current + 1) (buffer.stop - (place.current + 1)),
      place.current - buffer.start⟩ := by
  rw [Buffer.view, show buffer.stop - place.current = (buffer.stop - (place.current + 1)) + 1 by omega, slice_succ]

theorem view_done (done : buffer.stop ≤ place.current) : buffer.view place = ⟨[], place.current - buffer.start⟩ := by
  rw [Buffer.view, Nat.sub_eq_zero_of_le done]
  rfl

theorem item : Follows (Pointer.item : Pointer buffer τ) Reader.item := by
  refine of_places fun place inside => ?_
  rw [Pointer.item]
  split
  next done =>
    rw [view_done done]
    exact ⟨.refl inside.2, rfl⟩
  next open_ =>
    have lower := inside.1
    refine ⟨⟨Nat.le_succ _, by simp only; omega, [place.current], rfl, ?_⟩, ?_⟩
    · simp only [mem_singleton]
      omega
    · rw [view_open open_, Reader.item]
      simp only [Buffer.view, Prod.mk.injEq, Cursor.mk.injEq, true_and]
      omega

theorem peek : Follows (Pointer.peek : Pointer buffer τ) Reader.peek := by
  refine of_places fun place inside => ?_
  rw [Pointer.peek]
  split
  next done =>
    rw [view_done done]
    exact ⟨.refl inside.2, rfl⟩
  next open_ =>
    refine ⟨⟨le_rfl, inside.2, [place.current], rfl, ?_⟩, ?_⟩
    · simp only [mem_singleton]
      omega
    · have same : buffer.view { place with reads := place.reads ++ [place.current] } = buffer.view place := rfl
      rw [same, view_open open_]
      rfl

theorem take (count : Nat) : Follows (Pointer.take count : Pointer buffer (List τ)) (Reader.take count) := by
  refine of_places fun place inside => ?_
  rw [Pointer.take]
  obtain ⟨_, upper⟩ := inside
  split
  next short =>
    rw [Reader.take, Buffer.view, slice_length, if_pos (by omega)]
    exact ⟨.refl upper, rfl⟩
  next fits =>
    refine ⟨⟨Nat.le_add_right _ _, by simp only; omega, [], by simp, by simp⟩, ?_⟩
    rw [Reader.take, Buffer.view]
    simp only [slice_length]
    rw [if_neg (by omega), take_slice buffer (by omega), drop_slice buffer (by omega), Buffer.view]
    simp only [Prod.mk.injEq, Cursor.mk.injEq, true_and]
    refine ⟨?_, by omega⟩
    congr 1
    omega

theorem writes_bind {run : Pointer buffer Unit} {next : Unit → Pointer buffer α}
    (onlyWrites : ∀ place, ∃ more, run place = (some (), { place with writes := place.writes ++ more }))
    (follows : Follows (next ()) read) : Follows (run >>= next) read := by
  refine of_places fun place inside => ?_
  obtain ⟨more, outcome⟩ := onlyWrites place
  have moves := follows.moves { place with writes := place.writes ++ more } inside
  rw [Pointer.bind_of_some outcome]
  exact ⟨⟨moves.forward, moves.inside, moves.reads⟩, follows.same { place with writes := place.writes ++ more } inside⟩

theorem bind {next : α → Pointer buffer β} {readNext : α → Reader τ β} (first : Follows run read)
    (second : ∀ value, Follows (next value) (readNext value)) : Follows (run >>= next) (read >>= readNext) := by
  refine of_places fun place inside => ?_
  have moves := first.moves place inside
  have stays := first.stays inside
  rw [Pointer.bind_apply, Reader.bind_apply, first.same place inside]
  rcases outcome : run place with ⟨value | value, moved⟩
  · rw [outcome] at moves
    exact ⟨moves, rfl⟩
  · rw [outcome] at moves stays
    exact ⟨moves.trans ((second value).moves moved stays), (second value).same moved stays⟩

theorem ite {condition : Prop} [Decidable condition] {first second : Pointer buffer α}
    {readFirst readSecond : Reader τ α}
    (yes : condition → Follows first readFirst) (no : ¬ condition → Follows second readSecond) :
    Follows (if condition then first else second) (if condition then readFirst else readSecond) := by
  split
  next holds => exact yes holds
  next fails => exact no fails

theorem attempt (follows : Follows run read) : Follows run.attempt read.attempt := by
  refine ⟨fun place inside => follows.moves place inside, ?_⟩
  intro place inside
  rw [Reader.attempt, follows.same place inside]
  rfl

theorem consumed (follows : Follows run read) : Follows run.consumed read.consumed := by
  refine of_places fun place inside => ?_
  have moves := follows.moves place inside
  have lower := inside.1
  rw [Pointer.consumed, Reader.consumed, follows.same place inside]
  rcases outcome : run place with ⟨_ | _, moved⟩
  · rw [outcome] at moves
    exact ⟨moves, rfl⟩
  · rw [outcome] at moves
    have upper : moved.current ≤ buffer.stop := moves.inside
    refine ⟨moves, ?_⟩
    simp only [Buffer.view]
    rw [take_slice buffer (by omega)]
    simp only [Prod.mk.injEq, Option.some.injEq, and_true]
    congr 1
    omega

theorem sound {format : Format τ α} (follows : Follows run read) (reads : Reads read format) {moved : Place}
    {value : α} (inside : buffer.Inside place) (outcome : run place = (some value, moved)) :
    ∃ consumed deviates, buffer.ahead place = consumed ++ buffer.ahead moved ∧
      moved.current = place.current + consumed.length ∧ buffer.Inside moved ∧
      format (place.current - buffer.start) consumed (buffer.ahead moved) value deviates := by
  have same := follows.same place inside
  have stays := follows.stays inside
  rw [outcome] at same stays
  obtain ⟨consumed, deviates, split, pos, matched⟩ := reads.sound same
  have current : moved.current - buffer.start = place.current - buffer.start + consumed.length := pos
  have lower := inside.1
  have upper : buffer.start ≤ moved.current := stays.1
  exact ⟨consumed, deviates, split, by omega, stays, matched⟩

theorem complete {format : Format τ α} (follows : Follows run read) (reads : Reads read format)
    {consumed rest : List τ} {value : α} {deviates : Bool} (inside : buffer.Inside place)
    (split : buffer.ahead place = consumed ++ rest)
    (matched : format (place.current - buffer.start) consumed rest value deviates) :
    (run place).1 = some value ∧ buffer.ahead (run place).2 = rest := by
  have found := reads.complete matched
  rw [← split] at found
  have same := (follows.same place inside).symm.trans found
  exact ⟨congrArg Prod.fst same, congrArg (Cursor.data ∘ Prod.snd) same⟩

end Follows

section

variable (buffer : Buffer τ) {place : Place}

theorem ahead_length (place : Place) : (buffer.ahead place).length = buffer.stop - place.current := slice_length _ _ _

theorem ahead_open (open_ : ¬ buffer.stop ≤ place.current) : buffer.ahead place =
    buffer.memory place.current :: buffer.slice (place.current + 1) (buffer.stop - (place.current + 1)) :=
  congrArg Cursor.data (Follows.view_open open_)

theorem ahead_moved {moved : Place} (forward : place.current ≤ moved.current) (inside : moved.current ≤ buffer.stop) :
    buffer.ahead place = buffer.slice place.current (moved.current - place.current) ++ buffer.ahead moved := by
  obtain ⟨step, shape⟩ := Nat.exists_eq_add_of_le forward
  rw [Buffer.ahead, Buffer.ahead, Buffer.view, Buffer.view, shape, Nat.add_sub_cancel_left,
    show buffer.stop - place.current = step + (buffer.stop - (place.current + step)) by omega, slice_append]

end

/-- Runs the body until the end is reached or the body fails, for at most `fuel` rounds. -/
def Pointer.whileOpen {buffer : Buffer τ} (body : Pointer buffer α) : Nat → Place → Option (Option (List α) × Place)
  | 0, _ => none
  | fuel + 1, place =>
    if buffer.stop ≤ place.current then some (some [], place)
    else
      match body place with
      | (none, moved) => some (none, moved)
      | (some value, moved) => (whileOpen body fuel moved).map fun (values, last) => (values.map (value :: ·), last)

theorem Follows.whileOpen {body : Pointer buffer α} {read : Reader τ α} (follows : Follows body read)
    (advances : ∀ place value moved, buffer.Inside place → body place = (some value, moved) →
      place.current < moved.current)
    (rounds : Nat) : ∀ place, buffer.Inside place → buffer.stop - place.current ≤ rounds →
      ∃ values last, body.whileOpen (rounds + 1) place = some (values, last) ∧
        read.untilEnd rounds (buffer.view place) = (values, buffer.view last) := by
  induction rounds with
  | zero =>
    intro place inside left
    have done : buffer.stop ≤ place.current := by omega
    refine ⟨some [], place, if_pos done, ?_⟩
    rw [view_done done]
    rfl
  | succ _ ih =>
    intro place inside _
    rw [Pointer.whileOpen, Reader.untilEnd, Reader.atEnd_bind]
    by_cases done : buffer.stop ≤ place.current
    · rw [if_pos done]
      exact ⟨some [], place, rfl, by rw [view_done done]; rfl⟩
    · have isOpen : (buffer.view place).data.isEmpty = false := by
        rw [view_open done]
        rfl
      have same := follows.same place inside
      have stays := follows.stays inside
      rw [if_neg done, isOpen, if_neg Bool.false_ne_true, Reader.bind_apply, same]
      rcases outcome : body place with ⟨_ | value, moved⟩
      · exact ⟨none, moved, rfl, rfl⟩
      · rw [outcome] at stays
        have forward := advances place value moved inside outcome
        obtain ⟨values, last, loops, reads⟩ := ih moved stays (by omega)
        refine ⟨values.map (value :: ·), last, by simp [loops], ?_⟩
        simp only [Reader.bind_apply, reads]
        cases values <;> rfl

/-- What every run of a procedure does to its place. -/
def Keeps {buffer : Buffer τ} (related : Place → Place → Prop) (run : Pointer buffer α) : Prop :=
  ∀ place, related place (run place).2

namespace Keeps

variable {buffer : Buffer τ} {related : Place → Place → Prop}

theorem ite {condition : Prop} [Decidable condition] {first second : Pointer buffer α} (yes : Keeps related first)
    (no : Keeps related second) : Keeps related (if condition then first else second) := by
  split
  next => exact yes
  next => exact no

theorem bind [IsTrans Place related] {run : Pointer buffer α} {next : α → Pointer buffer β} (first : Keeps related run)
    (second : ∀ value, Keeps related (next value)) : Keeps related (run >>= next) := by
  intro place
  have early := first place
  rw [Pointer.bind_apply]
  rcases outcome : run place with ⟨value | value, moved⟩
  · rwa [outcome] at early
  · rw [outcome] at early
    exact IsTrans.trans _ _ _ early (second value moved)

variable [Std.Refl related]

theorem pure (value : α) : Keeps related (pure value : Pointer buffer α) := fun _ => refl _

theorem fail : Keeps related (Pointer.fail : Pointer buffer α) := fun _ => refl _

theorem check (passes : Bool) : Keeps related (Pointer.check passes : Pointer buffer Unit) := by
  cases passes
  · exact fail
  · exact pure ()

end Keeps

structure Scanned (before after : Place) : Prop where
  forward : before.current ≤ after.current
  reads : after.reads = before.reads ++ List.range' before.current (after.current - before.current)

instance : Std.Refl Scanned := ⟨fun _ => ⟨le_rfl, by simp⟩⟩

instance : IsTrans Place Scanned where
  trans _ _ _ first second := by
    refine ⟨first.forward.trans second.forward, ?_⟩
    obtain ⟨_, shape⟩ := Nat.exists_eq_add_of_le first.forward
    obtain ⟨_, lateShape⟩ := Nat.exists_eq_add_of_le second.forward
    rw [second.reads, first.reads, append_assoc, lateShape, shape, Nat.add_sub_cancel_left, Nat.add_sub_cancel_left,
      Nat.add_assoc, Nat.add_sub_cancel_left, range'_append_1]

def SameWrites (before after : Place) : Prop := after.writes = before.writes

instance : Std.Refl SameWrites := ⟨fun _ => rfl⟩

instance : IsTrans Place SameWrites := ⟨fun _ _ _ first second => second.trans first⟩

variable {buffer : Buffer τ}

theorem Scanned.item : Keeps Scanned (Pointer.item : Pointer buffer τ) := by
  intro _
  rw [Pointer.item]
  split
  next => exact refl _
  next => exact ⟨Nat.le_succ _, by simp⟩

theorem Scanned.write (index : Nat) : Keeps Scanned (Pointer.write index : Pointer buffer Unit) :=
  fun _ => ⟨le_rfl, by simp [Pointer.write]⟩

theorem SameWrites.item : Keeps SameWrites (Pointer.item : Pointer buffer τ) := by
  intro _
  rw [Pointer.item]
  split <;> rfl

end Lib
