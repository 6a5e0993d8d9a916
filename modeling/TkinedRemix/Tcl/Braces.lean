import Mathlib

/-!
Braced words as the Tcl library reads them; a backslash takes the character behind it out of the count.
-/

namespace Tcl

open List Option

def isBlank (char : Char) : Bool :=
  char = ' ' || char = '\t' || char = '\n' || char = '\x0b' || char = '\x0c' || char = '\r'

def keep (char : Char) (closed : Option (List Char × List Char)) : Option (List Char × List Char) :=
  closed.map fun found => (char :: found.1, found.2)

/-- The text up to the closing brace and the text behind it, from `depth` inner braces on. -/
def closeBrace : Nat → Bool → List Char → Option (List Char × List Char)
  | _, _, [] => none
  | depth, true, char :: text => keep char (closeBrace depth false text)
  | depth, false, char :: text =>
    if char = '\\' then keep char (closeBrace depth true text)
    else if char = '{' then keep char (closeBrace (depth + 1) false text)
    else if char = '}' then
      match depth with
      | 0 => some ([], text)
      | depth + 1 => keep char (closeBrace depth false text)
    else keep char (closeBrace depth false text)

/-- The text closes exactly the braces it opens, and leaves no backslash pending. -/
def balanced : Nat → Bool → List Char → Bool
  | depth, escaped, [] => depth == 0 && !escaped
  | depth, true, _ :: text => balanced depth false text
  | depth, false, char :: text =>
    if char = '\\' then balanced depth true text
    else if char = '{' then balanced (depth + 1) false text
    else if char = '}' then
      match depth with
      | 0 => false
      | depth + 1 => balanced depth false text
    else balanced depth false text

theorem keep_eq_some_cons {char : Char} {word rest : List Char} {closed : Option (List Char × List Char)} :
    keep char closed = some (char :: word, rest) ↔ closed = some (word, rest) := by
  rcases closed with _ | ⟨_, _⟩ <;> simp [keep]

theorem keep_ne_nil {char : Char} {rest : List Char} {closed : Option (List Char × List Char)} :
    keep char closed ≠ some ([], rest) := by
  rcases closed with _ | ⟨_, _⟩ <;> simp [keep]

theorem closeBrace_text {text : List Char} : ∀ {depth escaped} {word rest : List Char},
    closeBrace depth escaped text = some (word, rest) → text = word ++ '}' :: rest := by
  induction text with
  | nil =>
    intro depth escaped word rest closed
    cases closed
  | cons char text ih =>
    have kept : ∀ {depth escaped} {word rest : List Char},
        keep char (closeBrace depth escaped text) = some (word, rest) → char :: text = word ++ '}' :: rest := by
      intro depth escaped word rest closed
      obtain ⟨⟨_, _⟩, inner, same⟩ := map_eq_some_iff.mp closed
      cases same
      rw [ih inner]
      rfl
    intro depth escaped _ _ closed
    cases escaped with
    | true => exact kept closed
    | false =>
      unfold closeBrace at closed
      split_ifs at closed with _ _ isClose
      · exact kept closed
      · exact kept closed
      · cases depth with
        | zero =>
          cases closed
          rw [isClose]
          rfl
        | succ => exact kept closed
      · exact kept closed

theorem closeBrace_iff (rest : List Char) (word : List Char) : ∀ depth escaped,
    closeBrace depth escaped (word ++ '}' :: rest) = some (word, rest) ↔ balanced depth escaped word = true := by
  induction word with
  | nil =>
    intro depth escaped
    cases escaped with
    | true => simp [closeBrace, balanced, keep_ne_nil]
    | false =>
      cases depth with
      | zero => simp [closeBrace, balanced]
      | succ => simp [closeBrace, balanced, keep_ne_nil]
  | cons char _ ih =>
    intro depth escaped
    rw [cons_append]
    cases escaped with
    | true => rw [closeBrace, balanced, keep_eq_some_cons, ih]
    | false =>
      unfold closeBrace balanced
      split_ifs
      · rw [keep_eq_some_cons, ih]
      · rw [keep_eq_some_cons, ih]
      · cases depth with
        | zero => simp
        | succ => simp only [keep_eq_some_cons, ih]
      · rw [keep_eq_some_cons, ih]

/-- `Tcl_SplitList` and `Tcl_CommandComplete`. -/
structure Parser where
  splitList : List Char → Option (List (List Char))
  commandComplete : List Char → Bool

def braced (words : List (List Char)) : List Char := words.flatMap fun word => '{' :: (word ++ ['}', ' '])

/-- What the manual says of lists and commands whose words are in braces. -/
structure Parser.ReadsBraces (tcl : Parser) : Prop where
  split_nil : tcl.splitList [] = some []
  split_blank : ∀ text, tcl.splitList (' ' :: text) = tcl.splitList text
  split_brace : ∀ text, tcl.splitList ('{' :: text) = (closeBrace 0 false text).bind fun closed =>
    if closed.2.head?.all isBlank then (tcl.splitList closed.2).map (closed.1 :: ·) else none
  complete : ∀ words, (∀ word ∈ words, balanced 0 false word ∧ '\n' ∉ word) →
    tcl.commandComplete (braced words ++ ['\n']) = true

section

variable {tcl : Parser} (reads : tcl.ReadsBraces)

include reads

theorem split_braced_iff (words : List (List Char)) :
    tcl.splitList (braced words) = some words ↔ ∀ word ∈ words, balanced 0 false word := by
  induction words with
  | nil => simp [braced, reads.split_nil]
  | cons word words ih =>
    have shape : braced (word :: words) = '{' :: (word ++ '}' :: ' ' :: braced words) := by
      simp [braced]
    rw [shape, reads.split_brace, forall_mem_cons, ← ih, ← closeBrace_iff (' ' :: braced words)]
    constructor
    · intro read
      rw [bind_eq_some_iff] at read
      obtain ⟨⟨_, rest⟩, closed, read⟩ := read
      split at read
      next =>
        obtain ⟨_, split, same⟩ := map_eq_some_iff.mp read
        cases same
        -- the closing brace stands behind the word, so what follows it is the rest of the list
        have tail : rest = ' ' :: braced words := by
          have text := closeBrace_text closed
          simpa using text.symm
        subst tail
        rw [reads.split_blank] at split
        exact ⟨closed, split⟩
      next => cases read
    · rintro ⟨closed, split⟩
      rw [closed, bind_some, reads.split_blank, split]
      rfl

end

theorem closeBrace_length {text word rest : List Char} {depth : Nat} {escaped : Bool}
    (closed : closeBrace depth escaped text = some (word, rest)) : rest.length < text.length := by
  rw [closeBrace_text closed, length_append, length_cons]
  omega

def splitBraced : List Char → Option (List (List Char))
  | [] => some []
  | char :: text =>
    if isBlank char then splitBraced text
    else if char = '{' then
      match _closed : closeBrace 0 false text with
      | none => none
      | some (word, rest) => if rest.head?.all isBlank then (splitBraced rest).map (word :: ·) else none
    else none
termination_by text => text.length
decreasing_by
  · simp
  · have shorter := closeBrace_length ‹closeBrace 0 false text = _›
    simp only [length_cons]
    omega

def bracedLists : Parser := ⟨splitBraced, fun script => (splitBraced script).isSome⟩

theorem splitBraced_blank {char : Char} (blank : isBlank char) (text : List Char) :
    splitBraced (char :: text) = splitBraced text := by
  rw [splitBraced, if_pos blank]

theorem splitBraced_brace (text : List Char) : splitBraced ('{' :: text) = (closeBrace 0 false text).bind fun closed =>
    if closed.2.head?.all isBlank then (splitBraced closed.2).map (closed.1 :: ·) else none := by
  rw [splitBraced, if_neg (by decide), if_pos rfl]
  split
  next unclosed => rw [unclosed, bind_none]
  next word rest closed => rw [closed, bind_some]

theorem bracedLists_reads : bracedLists.ReadsBraces where
  split_nil := by
    change splitBraced [] = some []
    rw [splitBraced]
  split_blank := splitBraced_blank (by decide)
  split_brace := splitBraced_brace
  complete := by
    intro words isBalanced
    have read : splitBraced (braced words ++ ['\n']) = some words := by
      induction words with
      | nil => rw [braced, flatMap_nil, nil_append, splitBraced_blank (by decide), splitBraced]
      | cons word words ih =>
        rw [forall_mem_cons] at isBalanced
        have shape : braced (word :: words) ++ ['\n'] = '{' :: (word ++ '}' :: ' ' :: (braced words ++ ['\n'])) := by
          simp [braced]
        rw [shape, splitBraced_brace, (closeBrace_iff _ _ _ _).mpr isBalanced.1.1, bind_some,
          splitBraced_blank (by decide), ih isBalanced.2]
        rfl
    simp [bracedLists, read]

end Tcl
