import TkinedRemix.Tcl.Braces

/-!
Scripts that methods of `tkiMethods.c` write: the command that shows a label, and the one that restores the points
of a graph.
-/

namespace Tkined

open List Option Tcl

/-- A dollar sign in front of this is a variable. -/
def startsName (text : List Char) : Bool :=
  text.head?.any (fun char => char.isAlphanum || char = '_' || char = '{' || char = '(') || text.take 2 = [':', ':']

/-- The word up to the closing quote and the text behind it, if nothing is substituted. -/
def closeQuote : List Char → Option (List Char × List Char)
  | [] => none
  | char :: text =>
    if char = '"' then some ([], text)
    else if char = '[' ∨ char = '\\' ∨ (char = '$' ∧ startsName text) then none
    else keep char (closeQuote text)

def bareChar (char : Char) : Bool := char.isAlphanum || char = '_'

def bareWord (script : List Char) : Option (List Char × List Char) :=
  match script.takeWhile bareChar, script.dropWhile bareChar with
  | first :: word, ' ' :: rest => some (first :: word, rest)
  | _, _ => none

/-- The words of a command in which nothing is substituted, the last one in quotes. -/
def labelWords (script : List Char) : Option (List (List Char)) := do
  let (first, rest) ← bareWord script
  let (second, rest) ← bareWord rest
  let (third, rest) ← if rest.head? = some '"' then closeQuote rest.tail else none
  if rest = [] then some [first, second, third] else none

/-- The script of `m_label`. -/
def labelScript (type id text : List Char) : List Char :=
  (type ++ "__label".toList) ++ ' ' :: (id ++ ' ' :: '"' :: (text ++ ['"']))

def literal : List Char → Bool
  | [] => true
  | char :: text => char ≠ '"' && char ≠ '[' && char ≠ '\\' && (char ≠ '$' || !startsName text) && literal text

theorem startsName_append (text rest : List Char) : startsName (text ++ '"' :: rest) = startsName text := by
  rcases text with _ | ⟨_, _ | ⟨_, _⟩⟩ <;> simp [startsName]

theorem closeQuote_iff (text rest : List Char) :
    closeQuote (text ++ '"' :: rest) = some (text, rest) ↔ literal text := by
  induction text with
  | nil => simp [closeQuote, literal]
  | cons char text ih =>
    rw [cons_append, closeQuote, startsName_append]
    split_ifs with quote special
    · simp [literal, quote]
    · rcases special with rfl | rfl | ⟨rfl, named⟩ <;> simp_all [literal]
    · rw [keep_eq_some_cons, ih]
      simp only [not_or, not_and, Bool.not_eq_true] at special
      simp [literal, quote, special, Decidable.imp_iff_not_or.mp special.2.2]

theorem bareWord_append {word : List Char} (filled : word ≠ []) (bare : ∀ char ∈ word, bareChar char)
    (rest : List Char) :
    bareWord (word ++ ' ' :: rest) = some (word, rest) := by
  obtain ⟨first, word, rfl⟩ := exists_cons_of_ne_nil filled
  rw [bareWord, takeWhile_append_of_pos bare, dropWhile_append_of_pos bare]
  simp [bareChar]

theorem labelWords_iff {type id : List Char} (typeBare : ∀ char ∈ type, bareChar char) (idFilled : id ≠ [])
    (idBare : ∀ char ∈ id, bareChar char) (text : List Char) :
    labelWords (labelScript type id text) = some [type ++ "__label".toList, id, text] ↔ literal text := by
  have procedure : ∀ char ∈ type ++ "__label".toList, bareChar char :=
    forall_mem_append.mpr ⟨typeBare, all_eq_true.mp (by decide)⟩
  rw [← closeQuote_iff text [], labelScript, labelWords, bareWord_append (by simp) procedure]
  generalize type ++ "__label".toList = first
  simp only [bind_eq_bind, bind_some, bareWord_append idFilled idBare, tail_cons]
  rcases closeQuote (text ++ ['"']) with _ | ⟨third, rest⟩
  · simp
  · by_cases whole : rest = [] <;> simp [whole]

theorem labelWords_plain : labelWords (labelScript "NODE".toList "node0".toList "a; \x7bb".toList) =
    some ["NODE__label".toList, "node0".toList, "a; \x7bb".toList] :=
  (@labelWords_iff "NODE".toList "node0".toList (all_eq_true.mp (by decide)) (by decide)
    (all_eq_true.mp (by decide)) _).mpr
    (by decide)

/-- A command substitution. -/
theorem labelWords_substituted : labelWords (labelScript "NODE".toList "node0".toList "[exit]".toList) = none := by
  decide

section

variable {α : Type}

/-- An argument of `m_values` with the time at which it is read. -/
def addPoint (values : List α) : α × List α → Option (List α)
  | (_, []) => none
  | (clock, [y]) => some (values ++ [clock, y])
  | (_, x :: y :: _) => some (values ++ [x, y])

def mValues (values : List α) (arguments : List (α × List α)) : Option (List α) := arguments.foldlM addPoint values

/-- The arguments of the `values` command; without any there is no command. -/
def mGraphDump (values : List α) : List (List α) := values.map fun value => [value, value]

theorem mValues_dump (clock : α) (stored : List α) : ∀ values, mValues values ((mGraphDump stored).map (clock, ·)) =
    some (values ++ stored.flatMap fun value => [value, value]) := by
  induction stored with
  | nil => simp [mValues, mGraphDump]
  | cons value stored ih =>
    intro values
    rw [flatMap_cons, ← append_assoc]
    exact ih (values ++ [value, value])

/-- Every coordinate is restored as a point of its own. -/
theorem restored_iff (clock : α) (stored : List α) :
    mValues [] ((mGraphDump stored).map (clock, ·)) = some stored ↔ stored = [] := by
  rw [mValues_dump, nil_append, some_inj]
  constructor
  · intro same
    have doubled := congrArg List.length same
    simp only [length_flatMap, length_cons, length_nil, map_const', sum_replicate_nat] at doubled
    exact length_eq_zero_iff.mp (by omega)
  · rintro rfl
    rfl

theorem restored_doubled : mValues [] [(0, [1, 2])] = some [1, 2] ∧
    mValues [] ((mGraphDump [1, 2]).map (0, ·)) = some [1, 1, 2, 2] := by
  decide

end

end Tkined
