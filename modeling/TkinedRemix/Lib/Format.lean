import Mathlib

/-!
Readers over a cursor and the formats they accept. A format says which symbols a reader consumes, what it
returns, and whether they deviate from the strict format; `Reads` ties the two.
-/

namespace Lib

open List

variable {τ α β : Type}

structure Cursor (τ : Type) where
  data : List τ
  pos : Nat
deriving Repr, DecidableEq

def Reader (τ α : Type) := Cursor τ → Option α × Cursor τ

namespace Reader

instance : Monad (Reader τ) where
  pure value := fun cursor => (some value, cursor)
  bind read next := fun cursor =>
    match read cursor with
    | (some value, moved) => next value moved
    | (none, moved) => (none, moved)

def fail : Reader τ α := fun cursor => (none, cursor)

def check (passes : Bool) : Reader τ Unit := if passes then pure () else fail

def item : Reader τ τ := fun cursor =>
  match cursor.data with
  | [] => (none, cursor)
  | symbol :: rest => (some symbol, ⟨rest, cursor.pos + 1⟩)

def peek : Reader τ τ := fun cursor => (cursor.data.head?, cursor)

def atEnd : Reader τ Bool := fun cursor => (some cursor.data.isEmpty, cursor)

def position : Reader τ Nat := fun cursor => (some cursor.pos, cursor)

def take (count : Nat) : Reader τ (List τ) := fun cursor =>
  if cursor.data.length < count then (none, cursor)
  else (some (cursor.data.take count), ⟨cursor.data.drop count, cursor.pos + count⟩)

def attempt (read : Reader τ α) : Reader τ (Option α) := fun cursor =>
  (some (read cursor).1, (read cursor).2)

def consumed (read : Reader τ α) : Reader τ (List τ) := fun cursor =>
  match read cursor with
  | (some _, moved) => (some (cursor.data.take (moved.pos - cursor.pos)), moved)
  | (none, moved) => (none, moved)

def untilEnd (read : Reader τ α) : Nat → Reader τ (List α)
  | 0 => do
      let done ← atEnd
      if done then pure [] else fail
  | fuel + 1 => do
      let done ← atEnd
      if done then pure []
      else
        let first ← read
        let others ← untilEnd read fuel
        pure (first :: others)

/-- Every round moves the cursor, so the length of the data bounds their number. -/
def many (read : Reader τ α) : Reader τ (List α) := fun cursor => untilEnd read cursor.data.length cursor

theorem pure_apply (value : α) (cursor : Cursor τ) : (pure value : Reader τ α) cursor = (some value, cursor) := rfl

theorem bind_apply (read : Reader τ α) (next : α → Reader τ β) (cursor : Cursor τ) : (read >>= next) cursor =
      match read cursor with
      | (some value, moved) => next value moved
      | (none, moved) => (none, moved) := rfl

theorem bind_eq_some {read : Reader τ α} {next : α → Reader τ β} {cursor last : Cursor τ} {result : β} :
    (read >>= next) cursor = (some result, last) ↔
      ∃ value middle, read cursor = (some value, middle) ∧ next value middle = (some result, last) := by
  rw [bind_apply]
  constructor
  · intro found
    split at found
    next value middle first =>
      exact ⟨value, middle, first, found⟩
    · simp at found
  · rintro ⟨_, _, first, second⟩
    rw [first]
    exact second

def Forward (read : Reader τ α) : Prop :=
  ∀ cursor : Cursor τ, ∃ consumed, cursor.data = consumed ++ (read cursor).2.data ∧
    (read cursor).2.pos = cursor.pos + consumed.length

theorem Forward.pure (value : α) : Forward (pure value : Reader τ α) := by
  intro _
  exact ⟨[], by simp [pure_apply]⟩

theorem Forward.fail : Forward (fail : Reader τ α) := by
  intro _
  exact ⟨[], by simp [Reader.fail]⟩

theorem Forward.check (passes : Bool) : Forward (check passes : Reader τ Unit) := by
  cases passes
  · exact .fail
  · exact .pure ()

theorem Forward.item : Forward (item : Reader τ τ) := by
  rintro ⟨data, _⟩
  cases data with
  | nil => exact ⟨[], by simp [Reader.item]⟩
  | cons symbol => exact ⟨[symbol], by simp [Reader.item]⟩

theorem Forward.position : Forward (position : Reader τ Nat) := by
  intro _
  exact ⟨[], by simp [Reader.position]⟩

theorem Forward.bind {read : Reader τ α} {next : α → Reader τ β} (first : Forward read)
    (second : ∀ value, Forward (next value)) : Forward (read >>= next) := by
  intro cursor
  obtain ⟨front, split, moved⟩ := first cursor
  rw [bind_apply]
  rcases outcome : read cursor with ⟨value | value, middle⟩
  · rw [outcome] at split moved
    exact ⟨front, split, moved⟩
  · rw [outcome] at split moved
    obtain ⟨back, backSplit, backMoved⟩ := second value middle
    refine ⟨front ++ back, ?_, ?_⟩
    · rw [split, backSplit, append_assoc]
    · rw [backMoved, moved, length_append, Nat.add_assoc]

theorem atEnd_bind (next : Bool → Reader τ β) (cursor : Cursor τ) :
    (atEnd >>= next) cursor = next cursor.data.isEmpty cursor := rfl

end Reader

/-- Start position, consumed symbols, symbols behind them, result, deviation. -/
def Format (τ α : Type) := Nat → List τ → List τ → α → Bool → Prop

namespace Format

instance : Monad (Format τ) where
  pure value := fun _ consumed _ result deviates => consumed = [] ∧ result = value ∧ deviates = false
  bind first next := fun pos consumed rest result deviates =>
    ∃ front back value early late, consumed = front ++ back ∧ first pos front (back ++ rest) value early ∧
      next value (pos + front.length) back rest result late ∧ deviates = (early || late)

def fail : Format τ α := fun _ _ _ _ _ => False

def check (passes : Bool) : Format τ Unit := if passes then pure () else fail

def item : Format τ τ := fun _ consumed _ symbol deviates => consumed = [symbol] ∧ deviates = false

def peek : Format τ τ := fun _ consumed rest symbol deviates =>
  consumed = [] ∧ rest.head? = some symbol ∧ deviates = false

def atEnd : Format τ Bool := fun _ consumed rest result deviates =>
  consumed = [] ∧ result = rest.isEmpty ∧ deviates = false

def position : Format τ Nat := fun pos consumed _ result deviates =>
  consumed = [] ∧ result = pos ∧ deviates = false

def take (count : Nat) : Format τ (List τ) := fun _ consumed _ result deviates =>
  result = consumed ∧ consumed.length = count ∧ deviates = false

def consumed (format : Format τ α) : Format τ (List τ) := fun pos consumed rest result deviates =>
  result = consumed ∧ ∃ value, format pos consumed rest value deviates

def each (format : Format τ α) : Nat → List τ → List α → Bool → Prop
  | _, consumed, [], deviates => consumed = [] ∧ deviates = false
  | pos, consumed, first :: others, deviates =>
    ∃ front back early late, consumed = front ++ back ∧ format pos front back first early ∧
      each format (pos + front.length) back others late ∧ deviates = (early || late)

def many (format : Format τ α) : Format τ (List α) := fun pos consumed rest result deviates =>
  rest = [] ∧ each format pos consumed result deviates

/-- A failure is accepted with whatever it moved over, and deviates if that is anything. -/
def attempt (read : Reader τ α) (format : Format τ α) : Format τ (Option α) :=
  fun pos consumed rest result deviates =>
    match result with
    | some value => format pos consumed rest value deviates
    | none => read ⟨consumed ++ rest, pos⟩ = (none, ⟨rest, pos + consumed.length⟩) ∧
        deviates = !consumed.isEmpty

def mark (flag : α → Bool) (format : Format τ α) : Format τ α := fun pos consumed rest result deviates =>
  ∃ early, format pos consumed rest result early ∧ deviates = (early || flag result)

section

variable {format : Format τ α} {next : α → Format τ β} {pos : Nat} {consumed rest : List τ} {result : β}
  {deviates : Bool}

theorem pure_apply {value found : α} : (pure value : Format τ α) pos consumed rest found deviates ↔
    consumed = [] ∧ found = value ∧ deviates = false := Iff.rfl

theorem bind_apply : (format >>= next) pos consumed rest result deviates ↔
    ∃ front back value early late, consumed = front ++ back ∧ format pos front (back ++ rest) value early ∧
      next value (pos + front.length) back rest result late ∧ deviates = (early || late) := Iff.rfl

theorem bind_strict : (format >>= next) pos consumed rest result false ↔
    ∃ front back value, consumed = front ++ back ∧ format pos front (back ++ rest) value false ∧
      next value (pos + front.length) back rest result false := by
  constructor
  · rintro ⟨front, back, value, _, _, split, head, tail, flags⟩
    simp only [Bool.false_eq, Bool.or_eq_false_iff] at flags
    obtain ⟨rfl, rfl⟩ := flags
    exact ⟨front, back, value, split, head, tail⟩
  · rintro ⟨front, back, value, split, head, tail⟩
    exact ⟨front, back, value, false, false, split, head, tail, rfl⟩

def Strict (format : Format τ α) (tree : List τ → α → Prop) : Prop :=
  ∀ {pos consumed rest value}, format pos consumed rest value false ↔ tree consumed value

theorem Strict.bind {tree : List τ → α → Prop} (strict : Strict format tree) :
    (format >>= next) pos consumed rest result false ↔
      ∃ front back value, consumed = front ++ back ∧ tree front value ∧
        next value (pos + front.length) back rest result false := by
  rw [bind_strict]
  unfold Strict at strict
  simp only [strict]

theorem Strict.map {tree : List τ → α → Prop} (strict : Strict format tree) {map : α → β} :
    Strict (format >>= fun value => pure (map value)) fun consumed found => ∃ value, tree consumed value ∧
      found = map value := by
  intro _ consumed _ _
  rw [strict.bind]
  constructor
  · rintro ⟨_, _, value, rfl, matched, rfl, rfl, _⟩
    rw [append_nil]
    exact ⟨value, matched, rfl⟩
  · rintro ⟨value, matched, rfl⟩
    exact ⟨consumed, [], value, by simp, matched, rfl, rfl, rfl⟩

theorem still_bind {holds : Nat → List τ → α → Prop} (still : ∀ {pos consumed rest value deviates},
      format pos consumed rest value deviates ↔ consumed = [] ∧ holds pos rest value ∧ deviates = false) :
    (format >>= next) pos consumed rest result deviates ↔
      ∃ value, holds pos (consumed ++ rest) value ∧ next value pos consumed rest result deviates := by
  constructor
  · rintro ⟨_, _, value, _, _, rfl, head, tail, rfl⟩
    obtain ⟨rfl, here, rfl⟩ := still.mp head
    exact ⟨value, by simpa using here, by simpa using tail⟩
  · rintro ⟨value, head, tail⟩
    exact ⟨[], consumed, value, false, deviates, rfl, still.mpr ⟨rfl, head, rfl⟩, tail, by simp⟩

theorem pure_bind (value : α) :
    (pure value >>= next) pos consumed rest result deviates ↔ next value pos consumed rest result deviates :=
  (still_bind Iff.rfl).trans (by simp)

theorem item_bind {next : τ → Format τ β} : (item >>= next) pos consumed rest result deviates ↔
    ∃ symbol back, consumed = symbol :: back ∧ next symbol (pos + 1) back rest result deviates := by
  constructor
  · rintro ⟨_, back, symbol, _, _, rfl, ⟨rfl, rfl⟩, tail, rfl⟩
    exact ⟨symbol, back, rfl, by simpa using tail⟩
  · rintro ⟨symbol, back, rfl, tail⟩
    exact ⟨[symbol], back, symbol, false, deviates, rfl, ⟨rfl, rfl⟩, tail, by simp⟩

theorem check_apply {passes : Bool} {value : Unit} : (check passes : Format τ Unit) pos consumed rest value deviates ↔
    passes = true ∧ consumed = [] ∧ deviates = false := by
  cases passes
  · simp [check, fail]
  · simp [check, pure_apply]

theorem check_bind {passes : Bool} {next : Unit → Format τ β} :
    (check passes >>= next) pos consumed rest result deviates ↔
    passes = true ∧ next () pos consumed rest result deviates := by
  cases passes
  · simp [bind_apply, check, fail]
  · simp [check, pure_bind]

theorem position_bind {next : Nat → Format τ β} :
    (position >>= next) pos consumed rest result deviates ↔ next pos pos consumed rest result deviates :=
  (still_bind Iff.rfl).trans (by simp)

theorem atEnd_bind {next : Bool → Format τ β} : (atEnd >>= next) pos consumed rest result deviates ↔
    next (consumed ++ rest).isEmpty pos consumed rest result deviates :=
  (still_bind Iff.rfl).trans (by simp)

theorem peek_bind {next : τ → Format τ β} : (peek >>= next) pos consumed rest result deviates ↔
    ∃ symbol, (consumed ++ rest).head? = some symbol ∧ next symbol pos consumed rest result deviates :=
  still_bind Iff.rfl

end

end Format

structure Reads (read : Reader τ α) (format : Format τ α) : Prop where
  sound : ∀ {data : List τ} {pos : Nat} {result : α} {last : Cursor τ},
    read ⟨data, pos⟩ = (some result, last) →
      ∃ consumed deviates, data = consumed ++ last.data ∧ last.pos = pos + consumed.length ∧
        format pos consumed last.data result deviates
  complete : ∀ {pos : Nat} {consumed rest : List τ} {result : α} {deviates : Bool},
    format pos consumed rest result deviates →
      read ⟨consumed ++ rest, pos⟩ = (some result, ⟨rest, pos + consumed.length⟩)
  determined : ∀ {pos : Nat} {consumed rest : List τ} {result : α} {one other : Bool},
    format pos consumed rest result one → format pos consumed rest result other → one = other

namespace Reads

variable {read : Reader τ α} {format : Format τ α}

theorem unique (reads : Reads read format) {pos : Nat} {consumed rest consumed' rest' : List τ} {result result' : α}
    {deviates deviates' : Bool} (one : format pos consumed rest result deviates)
    (other : format pos consumed' rest' result' deviates') (same : consumed ++ rest = consumed' ++ rest') :
    consumed = consumed' ∧ rest = rest' ∧ result = result' ∧ deviates = deviates' := by
  have first := reads.complete one
  have second := reads.complete other
  rw [same, second] at first
  simp only [Prod.mk.injEq, Option.some.injEq, Cursor.mk.injEq] at first
  obtain ⟨rfl, rfl, _⟩ := first
  have front : consumed = consumed' := append_cancel_right same
  subst front
  exact ⟨rfl, rfl, rfl, reads.determined one other⟩

theorem congr {format' : Format τ α} (reads : Reads read format)
    (same : ∀ pos consumed rest result deviates, format' pos consumed rest result deviates ↔
      format pos consumed rest result deviates) :
    Reads read format' := by
  have equal : format' = format := by
    funext pos consumed rest result deviates
    exact propext (same pos consumed rest result deviates)
  rwa [equal]

theorem remark {format' : Format τ α} (reads : Reads read format)
    (forward : ∀ {pos consumed rest result deviates}, format pos consumed rest result deviates → ∃ deviates',
      format' pos consumed rest result deviates')
    (backward : ∀ {pos consumed rest result deviates}, format' pos consumed rest result deviates → ∃ deviates',
      format pos consumed rest result deviates')
    (determined : ∀ {pos consumed rest result one other}, format' pos consumed rest result one →
      format' pos consumed rest result other → one = other) :
    Reads read format' where
  sound := by
    intro _ pos result _ found
    obtain ⟨consumed, deviates, split, moved, matched⟩ := reads.sound found
    obtain ⟨deviates', matched'⟩ := forward matched
    exact ⟨consumed, deviates', split, moved, matched'⟩
  complete := by
    intro _ _ _ _ _ matched
    obtain ⟨_, matched'⟩ := backward matched
    exact reads.complete matched'
  determined := determined

theorem still (outcome : Cursor τ → Option α) (stays : ∀ cursor, read cursor = (outcome cursor, cursor))
    (same : ∀ {pos consumed rest result deviates}, format pos consumed rest result deviates ↔
      consumed = [] ∧ outcome ⟨rest, pos⟩ = some result ∧ deviates = false) : Reads read format where
  sound := by
    intro _ pos result _ found
    rw [stays] at found
    obtain ⟨value, rfl⟩ := Prod.mk.inj found
    exact ⟨[], false, rfl, rfl, same.mpr ⟨rfl, value, rfl⟩⟩
  complete := by
    intro pos consumed rest result _ matched
    obtain ⟨rfl, value, _⟩ := same.mp matched
    rw [stays, nil_append, value]
    rfl
  determined := by
    intro _ _ _ _ _ _ first second
    rw [(same.mp first).2.2, (same.mp second).2.2]

protected theorem pure (value : α) : Reads (pure value : Reader τ α) (pure value) :=
  still (fun _ => some value) (fun _ => rfl) (by simp [Format.pure_apply, eq_comm])

theorem bind_of_yields {next : α → Reader τ β} {nextFormat : α → Format τ β} (first : Reads read format)
    (second : ∀ value, (∃ pos consumed rest deviates, format pos consumed rest value deviates) →
      Reads (next value) (nextFormat value)) :
    Reads (read >>= next) (format >>= nextFormat) where
  sound := by
    intro _ pos result _ found
    obtain ⟨value, middle, head, tail⟩ := Reader.bind_eq_some.mp found
    obtain ⟨front, early, split, moved, matched⟩ := first.sound head
    obtain ⟨_, _⟩ := middle
    obtain ⟨back, late, backSplit, backMoved, backMatched⟩ :=
      (second value ⟨_, _, _, _, matched⟩).sound tail
    subst moved backSplit
    refine ⟨front ++ back, early || late, by simp [split], ?_, ?_⟩
    · simp only [length_append]
      omega
    · exact ⟨front, back, value, early, late, rfl, matched, backMatched, rfl⟩
  complete := by
    rintro pos _ rest _ _ ⟨front, back, value, early, late, rfl, head, tail, rfl⟩
    refine Reader.bind_eq_some.mpr ⟨value, ⟨back ++ rest, pos + front.length⟩, ?_, ?_⟩
    · rw [append_assoc]
      exact first.complete head
    · rw [(second value ⟨_, _, _, _, head⟩).complete tail, length_append, Nat.add_assoc]
  determined := by
    rintro _ _ _ _ _ _
      ⟨front, back, value, early, late, rfl, head, tail, rfl⟩
      ⟨front', back', value', early', late', split, head', tail', rfl⟩
    obtain ⟨rfl, _, rfl, rfl⟩ := first.unique head head' (by rw [← append_assoc, split, append_assoc])
    have backs : back = back' := append_cancel_left split
    subst backs
    rw [(second value ⟨_, _, _, _, head⟩).determined tail tail']

protected theorem bind {read : Reader τ α} {format : Format τ α} {next : α → Reader τ β}
    {nextFormat : α → Format τ β} (first : Reads read format)
    (second : ∀ value, Reads (next value) (nextFormat value)) :
    Reads (read >>= next) (format >>= nextFormat) :=
  first.bind_of_yields fun value _ => second value

theorem fail : Reads (Reader.fail : Reader τ α) Format.fail where
  sound := by
    intro _ pos result _ found
    simp [Reader.fail] at found
  complete := by
    intro pos consumed rest result _ impossible
    exact impossible.elim
  determined := by
    intro _ _ _ _ _ _ impossible
    exact impossible.elim

theorem check (passes : Bool) : Reads (Reader.check passes : Reader τ Unit) (Format.check passes) := by
  cases passes
  · exact .fail
  · exact .pure ()

theorem ite {condition : Prop} [Decidable condition] {yes no : Reader τ α} {yesFormat noFormat : Format τ α}
    (yesReads : Reads yes yesFormat) (noReads : Reads no noFormat) :
    Reads (if condition then yes else no) (if condition then yesFormat else noFormat) := by
  split
  · exact yesReads
  · exact noReads

theorem item : Reads (Reader.item : Reader τ τ) Format.item where
  sound := by
    intro data pos result _ found
    cases data with
    | nil => simp [Reader.item] at found
    | cons symbol =>
      simp only [Reader.item, Prod.mk.injEq, Option.some.injEq] at found
      obtain ⟨rfl, rfl⟩ := found
      exact ⟨[symbol], false, by simp, by simp, rfl, rfl⟩
  complete := by
    rintro _ _ _ _ _ ⟨rfl, rfl⟩
    simp [Reader.item]
  determined := by
    rintro _ _ _ _ _ _ ⟨_, rfl⟩ ⟨_, rfl⟩
    rfl

theorem peek : Reads (Reader.peek : Reader τ τ) Format.peek := still (·.data.head?) (fun _ => rfl) Iff.rfl

theorem atEnd : Reads (Reader.atEnd : Reader τ Bool) Format.atEnd :=
  still (some ·.data.isEmpty) (fun _ => rfl) (by simp [Format.atEnd, eq_comm])

theorem position : Reads (Reader.position : Reader τ Nat) Format.position :=
  still (some ·.pos) (fun _ => rfl) (by simp [Format.position, eq_comm])

theorem take (count : Nat) : Reads (Reader.take count : Reader τ (List τ)) (Format.take count) where
  sound := by
    intro data pos result _ found
    simp only [Reader.take] at found
    split at found
    · simp at found
    next enough =>
      obtain ⟨rfl, rfl⟩ := found
      refine ⟨data.take count, false, by simp, ?_, rfl, ?_, rfl⟩
      all_goals
        simp only [length_take]
        omega
  complete := by
    rintro _ _ _ _ _ ⟨rfl, rfl, rfl⟩
    simp [Reader.take]
  determined := by
    rintro _ _ _ _ _ _ ⟨_, _, rfl⟩ ⟨_, _, rfl⟩
    rfl

section

variable (reads : Reads read format)
include reads

theorem consumed : Reads read.consumed format.consumed where
  sound := by
    intro _ pos result _ found
    simp only [Reader.consumed] at found
    split at found
    next value moved first =>
      simp only [Prod.mk.injEq, Option.some.injEq] at found
      obtain ⟨taken, rfl⟩ := found
      obtain ⟨front, deviates, split, advanced, matched⟩ := reads.sound first
      have same : result = front := by
        rw [← taken, advanced, split]
        simp
      exact ⟨front, deviates, split, advanced, same, value, matched⟩
    · simp at found
  complete := by
    rintro _ _ _ _ _ ⟨rfl, _, matched⟩
    simp [Reader.consumed, reads.complete matched]
  determined := by
    rintro _ _ _ _ _ _ ⟨_, _, matched⟩ ⟨_, _, matched'⟩
    exact (reads.unique matched matched' rfl).2.2.2

theorem attempt (forward : read.Forward) : Reads read.attempt (format.attempt read) where
  sound := by
    intro data pos result _ found
    obtain ⟨rfl, rfl⟩ := found
    rcases outcome : read ⟨data, pos⟩ with ⟨_ | _, _⟩
    · obtain ⟨consumed, split, moved⟩ := forward ⟨data, pos⟩
      rw [outcome] at split moved
      refine ⟨consumed, !consumed.isEmpty, split, moved, ?_, rfl⟩
      rw [← split, outcome, ← moved]
    · exact reads.sound outcome
  complete := by
    intro pos consumed rest result _ matched
    cases result with
    | none => simp [Reader.attempt, matched.1]
    | some => simp [Reader.attempt, reads.complete matched]
  determined := by
    intro _ _ _ result _ _ matched matched'
    cases result with
    | none => rw [matched.2, matched'.2]
    | some => exact reads.determined matched matched'

theorem untilEnd_sound {fuel : Nat} : ∀ {data : List τ} {pos : Nat} {result : List α} {last : Cursor τ},
      Reader.untilEnd read fuel ⟨data, pos⟩ = (some result, last) →
        last = ⟨[], pos + data.length⟩ ∧ ∃ deviates, format.each pos data result deviates := by
  induction fuel with
  | zero =>
    intro data pos result last found
    rw [Reader.untilEnd, Reader.atEnd_bind] at found
    cases data with
    | nil =>
      cases found
      simp [Format.each]
    | cons => simp [Reader.fail] at found
  | succ _ ih =>
    intro data _ _ _ found
    rw [Reader.untilEnd, Reader.atEnd_bind] at found
    cases data with
    | nil =>
      cases found
      simp [Format.each]
    | cons =>
      obtain ⟨_, ⟨middleData, _⟩, head, later⟩ := Reader.bind_eq_some.mp found
      obtain ⟨_, _, tail, done⟩ := Reader.bind_eq_some.mp later
      cases done
      obtain ⟨front, early, split, moved, matched⟩ := reads.sound head
      obtain ⟨rfl, late, matchedLater⟩ := ih tail
      rw [split]
      subst moved
      exact ⟨by simp [Nat.add_assoc], early || late, front, middleData, early, late, rfl, matched,
        matchedLater, rfl⟩

theorem untilEnd_complete (moves : ∀ pos rest value deviates, ¬ format pos [] rest value deviates) {result : List α} :
    ∀ {fuel : Nat} {data : List τ} {pos : Nat} {deviates : Bool}, format.each pos data result deviates →
      data.length ≤ fuel → Reader.untilEnd read fuel ⟨data, pos⟩ = (some result, ⟨[], pos + data.length⟩) := by
  induction result with
  | nil =>
    rintro fuel _ pos _ ⟨rfl, _⟩ _
    cases fuel <;> rfl
  | cons first others ih =>
    rintro fuel _ pos _ ⟨front, back, _, _, rfl, head, tail, rfl⟩ enough
    have nonempty : front ≠ [] := by
      rintro rfl
      exact moves _ _ _ _ head
    have positive := length_pos_of_ne_nil nonempty
    rw [length_append] at enough
    cases fuel with
    | zero => omega
    | succ fuel =>
      have later : Reader.untilEnd read fuel ⟨back, pos + front.length⟩ = _ := ih tail (by omega)
      have unfinished : (front ++ back).isEmpty = false := by simp [nonempty]
      rw [Reader.untilEnd, Reader.atEnd_bind, unfinished]
      refine Reader.bind_eq_some.mpr ⟨first, _, reads.complete head, ?_⟩
      refine Reader.bind_eq_some.mpr ⟨others, _, later, ?_⟩
      rw [Reader.pure_apply, length_append, Nat.add_assoc]

theorem each_determined {result : List α} : ∀ {pos : Nat} {data : List τ} {one other : Bool},
      format.each pos data result one → format.each pos data result other → one = other := by
  induction result with
  | nil =>
    rintro _ _ _ _ ⟨_, rfl⟩ ⟨_, rfl⟩
    rfl
  | cons _ _ ih =>
    rintro _ _ _ _ ⟨_, _, _, _, rfl, head, tail, rfl⟩
      ⟨front', back', early', late', split, head', tail', rfl⟩
    obtain ⟨rfl, rfl, _, rfl⟩ := reads.unique head head' split
    rw [ih tail tail']

theorem many (moves : ∀ pos rest value deviates, ¬ format pos [] rest value deviates) :
    Reads read.many format.many where
  sound := by
    intro data pos result _ found
    obtain ⟨rfl, deviates, matched⟩ := reads.untilEnd_sound found
    exact ⟨data, deviates, by simp, by simp, rfl, matched⟩
  complete := by
    rintro _ _ _ _ _ ⟨rfl, matched⟩
    rw [append_nil]
    exact reads.untilEnd_complete moves matched (le_refl _)
  determined := by
    rintro _ _ _ _ _ _ ⟨_, matched⟩ ⟨_, matched'⟩
    exact reads.each_determined matched matched'

end

theorem mark (flag : α → Bool) (reads : Reads read format) : Reads read (format.mark flag) where
  sound := by
    intro _ pos result _ found
    obtain ⟨consumed, early, split, moved, matched⟩ := reads.sound found
    exact ⟨consumed, early || flag result, split, moved, early, matched, rfl⟩
  complete := by
    rintro _ _ _ _ _ ⟨_, matched, rfl⟩
    exact reads.complete matched
  determined := by
    rintro _ _ _ _ _ _ ⟨_, matched, rfl⟩ ⟨_, matched', rfl⟩
    rw [reads.determined matched matched']

end Reads

end Lib
