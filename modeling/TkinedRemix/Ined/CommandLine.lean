import TkinedRemix.Tcl.Braces

/-!
The line on which a tool sends an `ined` command to the editor: `Tnm_InedObjCmd` writes the arguments in braces,
and the editor's `receive` collects a complete script and splits it into words.
-/

namespace Tnm.Ined

open List

open Tcl

/-- The characters of a C string end at the first null. -/
def cString (text : List Char) : List Char := text.takeWhile (· != '\x00')

def writeChar (char : Char) : List Char :=
  if char = '\r' then [] else if char = '\n' then ['\\', 'n'] else [char]

def inedLine (objv : List (List Char)) : List Char :=
  objv.flatMap (fun arg => '{' :: ((cString arg).flatMap writeChar ++ ['}', ' '])) ++ ['\n']

/-- `InedCompCmd` answers some commands from the list that describes an object. -/
def isLocal (tcl : Parser) (inedCompCmd : List Char → List (List Char) → Bool) : List (List Char) → Bool
  | [_, cmd, list] =>
    match tcl.splitList list with
    | some largv => !largv.isEmpty && inedCompCmd cmd largv
    | none => false
  | _ => false

def tnmInedObjCmd (tcl : Parser) (inedCompCmd : List Char → List (List Char) → Bool) (objv : List (List Char)) :
    Option (List Char) :=
  if objv.length < 2 then none
  else if isLocal tcl inedCompCmd objv then none
  else some (inedLine objv)

structure Interpreter where
  cmd : List Char
  done : Bool
deriving DecidableEq

/-- The pieces of the buffer that end in a newline, from `line` on. -/
def pieces : List Char → List Char → List (List Char)
  | [], _ => []
  | char :: rest, line => if char = '\n' then line :: pieces rest [] else pieces rest (line ++ [char])

/-- One read from the tool and the lines it makes the editor process, the buffer read as a C string. `none` at the
end, and where the last character of the empty string is read. No dialog of a command enters `receive` again. -/
def receive (tcl : Parser) (object : Interpreter) (input : List Char) : Option (Interpreter × List (List Char)) :=
  if input = [] ∧ object.done = true then none
  else
    let cmd := (if object.done then [] else object.cmd) ++ input
    let text := cString cmd
    if tcl.commandComplete text && text == [] then none
    else if !tcl.commandComplete text || text.getLast? != some '\n' then some (⟨cmd, false⟩, [])
    else some (⟨cmd, true⟩, pieces text [])

def receiveAll (tcl : Parser) : Interpreter → List (List Char) → Option (Interpreter × List (List Char))
  | object, [] => some (object, [])
  | object, input :: inputs => do
      let (object, lines) ← receive tcl object input
      let (object, later) ← receiveAll tcl object inputs
      return (object, lines ++ later)

inductive Handled where
  | ined (argv : List (List Char))
  | puts (line : List Char)
deriving DecidableEq

def handle (tcl : Parser) (line : List Char) : Handled :=
  match tcl.splitList line with
  | none => .puts line
  | some argv => if 1 < argv.length ∧ argv.head? = some "ined".toList then .ined argv else .puts line

def oneLine (arg : List Char) : List Char :=
  ((cString arg).filter (· != '\r')).flatMap fun char => if char = '\n' then ['\\', 'n'] else [char]

theorem writeChar_oneLine (arg : List Char) : (cString arg).flatMap writeChar = oneLine arg := by
  rw [oneLine]
  induction cString arg with
  | nil => rfl
  | cons char _ ih =>
    rw [flatMap_cons, ih]
    by_cases isReturn : char = '\r' <;> simp [writeChar, isReturn]

theorem inedLine_eq (objv : List (List Char)) : inedLine objv = braced (objv.map oneLine) ++ ['\n'] := by
  simp only [inedLine, braced, flatMap_map, writeChar_oneLine]

theorem oneLine_clean (arg : List Char) : '\n' ∉ oneLine arg ∧ '\x00' ∉ oneLine arg := by
  constructor
  · intro inside
    obtain ⟨_, _, written⟩ := mem_flatMap.mp inside
    split at written
    next => simp at written
    next other =>
      rw [mem_singleton] at written
      exact other written.symm
  · intro inside
    obtain ⟨char, member, written⟩ := mem_flatMap.mp inside
    have text := mem_takeWhile_imp (mem_of_mem_filter member)
    split at written
    next => simp at written
    next =>
      rw [mem_singleton] at written
      simp [← written] at text

theorem braced_clean {mark : Char} (other : mark ∉ ['{', '}', ' ']) {words : List (List Char)}
    (clean : ∀ word ∈ words, mark ∉ word) : mark ∉ braced words := by
  intro inside
  obtain ⟨word, member, written⟩ := mem_flatMap.mp inside
  have outside := clean word member
  simp_all

theorem cString_eq_self {text : List Char} (plain : '\x00' ∉ text) : cString text = text := by
  refine takeWhile_eq_self_iff.mpr fun char member => ?_
  have other : char ≠ '\x00' := fun null => plain (null ▸ member)
  simpa using other

theorem pieces_line {body : List Char} (clean : '\n' ∉ body) (line : List Char) :
    pieces (body ++ ['\n']) line = [line ++ body] := by
  induction body generalizing line with
  | nil => simp [pieces]
  | cons _ _ ih =>
    rw [mem_cons, not_or] at clean
    rw [cons_append, pieces, if_neg (Ne.symm clean.1), ih clean.2, append_assoc]
    rfl

theorem receiveAll_line (tcl : Parser) {body : List Char} (clean : '\n' ∉ body) (plain : '\x00' ∉ body)
    (complete : tcl.commandComplete (body ++ ['\n']) = true) : ∀ (inputs : List (List Char)) (object : Interpreter),
    (∀ input ∈ inputs, input ≠ []) → inputs ≠ [] →
    (if object.done then [] else object.cmd) ++ inputs.flatten = body ++ ['\n'] →
    receiveAll tcl object inputs = some (⟨body ++ ['\n'], true⟩, [body]) := by
  intro inputs
  induction inputs with
  | nil => exact fun _ _ none => absurd rfl none
  | cons input inputs ih =>
    intro object filled _ whole
    rw [forall_mem_cons] at filled
    rw [flatten_cons, ← append_assoc] at whole
    generalize start : (if object.done then [] else object.cmd) ++ input = cmd at whole
    cases inputs with
    | nil =>
      rw [flatten_nil, append_nil] at whole
      have processed : receive tcl object input = some (⟨body ++ ['\n'], true⟩, [body]) := by
        have text : cString (body ++ ['\n']) = body ++ ['\n'] := cString_eq_self (by simp [plain])
        simp only [receive, filled.1, start, whole, text, complete]
        rw [pieces_line clean]
        simp
      simp [receiveAll, processed]
    | cons next others =>
      -- some of the line is still to come, so what was read does not end in the newline
      have pending : (next :: others).flatten ≠ [] := by
        intro empty
        have first := filled.2 next mem_cons_self
        simp [first] at empty
      have inside : cmd.getLast? ≠ some '\n' := by
        intro ends
        rcases eq_nil_or_concat (next :: others).flatten with empty | ⟨_, _, split⟩
        · exact pending empty
        · rw [split, concat_eq_append, ← append_assoc] at whole
          apply clean
          rw [← (append_inj' whole rfl).1]
          exact mem_append_left _ (mem_of_getLast? ends)
      have text : cString cmd = cmd := by
        apply cString_eq_self
        intro null
        have member : '\x00' ∈ body ++ ['\n'] := whole ▸ mem_append_left _ null
        simp [plain] at member
      have nonempty : cmd ≠ [] := by
        rintro rfl
        exact filled.1 (append_eq_nil_iff.mp start).2
      have waits : receive tcl object input = some (⟨cmd, false⟩, []) := by
        simp [receive, filled.1, start, inside, text, nonempty]
      have later := ih ⟨cmd, false⟩ filled.2 (by simp) (by simpa using whole)
      rw [receiveAll, waits, Option.bind_eq_bind, Option.bind_some]
      dsimp only
      rw [later]
      rfl

/-- The line is processed as one command with these words, however it is read. -/
def Delivered (tcl : Parser) (line : List Char) (words : List (List Char)) : Prop :=
  ∀ object inputs, object.done = true → (∀ input ∈ inputs, input ≠ []) → inputs.flatten = line →
    ∃ after received, receiveAll tcl object inputs = some (after, [received]) ∧ after.done = true ∧
      tcl.splitList received = some words ∧ (words.head? = some "ined".toList → handle tcl received = .ined words)

/-- The line arrives with the arguments as its words exactly when their braces are balanced. -/
theorem inedLine_delivered_iff {tcl : Parser} (reads : tcl.ReadsBraces)
    (inedCompCmd : List Char → List (List Char) → Bool) (objv : List (List Char)) {line : List Char}
    (written : tnmInedObjCmd tcl inedCompCmd objv = some line) :
    Delivered tcl line (objv.map oneLine) ↔ ∀ arg ∈ objv, balanced 0 false (oneLine arg) := by
  have ⟨isLine, atLeast⟩ : line = braced (objv.map oneLine) ++ ['\n'] ∧ 1 < objv.length := by
    unfold tnmInedObjCmd at written
    split_ifs at written
    cases written
    exact ⟨inedLine_eq objv, by omega⟩
  subst isLine
  have lines : ∀ word ∈ objv.map oneLine, '\n' ∉ word := List.forall_mem_map.mpr fun arg _ => (oneLine_clean arg).1
  have clean := braced_clean (by decide) lines
  have plain : '\x00' ∉ braced (objv.map oneLine) :=
    braced_clean (by decide) (List.forall_mem_map.mpr fun arg _ => (oneLine_clean arg).2)
  have text : cString (braced (objv.map oneLine) ++ ['\n']) = braced (objv.map oneLine) ++ ['\n'] :=
    cString_eq_self (by simp [plain])
  have words : (∀ arg ∈ objv, balanced 0 false (oneLine arg)) ↔
      ∀ word ∈ objv.map oneLine, balanced 0 false word := by
    rw [List.forall_mem_map]
  rw [words, ← split_braced_iff reads]
  constructor
  · intro delivered
    obtain ⟨_, received, run, _, split, _⟩ := delivered ⟨[], true⟩ [braced (objv.map oneLine) ++ ['\n']] rfl
      (by simp) (by simp)
    have same : received = braced (objv.map oneLine) := by
      simp only [receiveAll, receive, if_true, nil_append, text] at run
      by_cases complete : tcl.commandComplete (braced (objv.map oneLine) ++ ['\n']) = true
      · simp [complete, pieces_line clean] at run
        exact run.2.symm
      · simp [complete] at run
    rw [← same, split]
  · intro split object inputs ready filled whole
    have isBalanced := (split_braced_iff reads _).mp split
    have complete : tcl.commandComplete (braced (objv.map oneLine) ++ ['\n']) = true :=
      reads.complete _ fun word member => ⟨isBalanced word member, lines word member⟩
    have nonempty : inputs ≠ [] := by
      rintro rfl
      simp at whole
    have run :=
      receiveAll_line tcl clean plain complete inputs object filled nonempty (by rw [ready]; simpa using whole)
    refine ⟨_, _, run, rfl, split, fun first => ?_⟩
    rw [handle, split]
    exact if_pos ⟨by simpa using atLeast, first⟩

/-- A command of the tools: the newline in its argument arrives as two characters. -/
theorem inedLine_delivered_acknowledge :
    tnmInedObjCmd bracedLists (fun _ _ => false) ["ined".toList, "acknowledge".toList, "a \x7bb\x7d\r\nc".toList] =
        some (inedLine ["ined".toList, "acknowledge".toList, "a \x7bb\x7d\r\nc".toList]) ∧
      Delivered bracedLists (inedLine ["ined".toList, "acknowledge".toList, "a \x7bb\x7d\r\nc".toList])
        ["ined".toList, "acknowledge".toList, "a \x7bb\x7d\\nc".toList] := by
  have written : tnmInedObjCmd bracedLists (fun _ _ => false)
      ["ined".toList, "acknowledge".toList, "a \x7bb\x7d\r\nc".toList] =
        some (inedLine ["ined".toList, "acknowledge".toList, "a \x7bb\x7d\r\nc".toList]) := by
    cbv
  exact ⟨written, (inedLine_delivered_iff bracedLists_reads _ _ written).mpr (by decide)⟩

/-- An opening brace in an argument: the editor waits for the rest of a command. -/
theorem openBrace_stalls :
    receiveAll bracedLists ⟨[], true⟩ [inedLine ["ined".toList, "acknowledge".toList, "\x7b".toList]] =
      some (⟨"\x7bined\x7d \x7backnowledge\x7d \x7b\x7b\x7d \n".toList, false⟩, []) := by
  cbv

/-- The lines that are lists with `ined` as their first word. -/
def commands (tcl : Parser) (lines : List (List Char)) : List (List (List Char)) :=
  (lines.filterMap tcl.splitList).filter (·.head? = some "ined".toList)

def executed (tcl : Parser) (lines : List (List Char)) : List (List (List Char)) :=
  lines.filterMap fun line =>
    match handle tcl line with
    | .ined argv => some argv
    | .puts _ => none

/-- The reads execute the commands that are complete with them; `line` is what came before the buffer. -/
def Executes (tcl : Parser) (object : Interpreter) (line cmd : List Char) (reads : List (List Char)) : Prop :=
  ∃ after lines, receiveAll tcl object reads = some (after, lines) ∧
    executed tcl lines = commands tcl (pieces (cmd ++ reads.flatten) line)

/-- What is left of the text behind its last newline. -/
def unfinished : List Char → List Char → List Char
  | [], line => line
  | char :: rest, line => if char = '\n' then unfinished rest [] else unfinished rest (line ++ [char])

/-- A read that does not end a complete script leaves no command in the buffer; any other one has its commands in
front of the first null, and they have more than one word. -/
def Timely (tcl : Parser) : List Char → List Char → List (List Char) → Prop
  | _, _, [] => True
  | line, cmd, input :: inputs =>
    let text := cString (cmd ++ input)
    let received := commands tcl (pieces (cmd ++ input) line)
    if tcl.commandComplete text && text == [] then False
    else if !tcl.commandComplete text || text.getLast? != some '\n' then
      received = [] ∧ Timely tcl line (cmd ++ input) inputs
    else received = (commands tcl (pieces text [])).filter (1 < ·.length) ∧
      Timely tcl (unfinished (cmd ++ input) line) [] inputs

theorem executed_eq (tcl : Parser) (lines : List (List Char)) :
    executed tcl lines = (commands tcl lines).filter (1 < ·.length) := by
  rw [commands, filter_filter, executed, filter_filterMap]
  congr 1
  funext line
  rw [handle]
  generalize "ined".toList = name
  cases tcl.splitList line with
  | none => rfl
  | some argv => by_cases named : 1 < argv.length ∧ argv.head? = some name <;> simp [named, Option.filter]

theorem pieces_append (front back line : List Char) :
    pieces (front ++ back) line = pieces front line ++ pieces back (unfinished front line) := by
  induction front generalizing line with
  | nil => rfl
  | cons char front ih =>
    rw [cons_append, pieces, pieces, unfinished]
    split
    · rw [ih, cons_append]
    · exact ih _

section

variable {tcl : Parser} {object after : Interpreter} {line input cmd : List Char} {lines : List (List Char)}

theorem executes_nil : Executes tcl object line cmd [] ↔ commands tcl (pieces cmd line) = [] := by
  rw [Executes, flatten_nil, append_nil]
  constructor
  · rintro ⟨_, _, read, same⟩
    cases read
    exact same.symm
  · exact fun none => ⟨object, [], rfl, none.symm⟩

theorem executes_cons {done : List (List Char)} {rest left : List Char}
    (read : receive tcl object input = some (after, lines))
    (split : ∀ back, pieces (cmd ++ input ++ back) line = done ++ pieces (rest ++ back) left)
    (all : executed tcl lines = commands tcl done) (reads : List (List Char)) :
    Executes tcl object line cmd (input :: reads) ↔ Executes tcl after left rest reads := by
  have joined : ∀ later, executed tcl (lines ++ later) = commands tcl done ++ executed tcl later := by
    intro later
    rw [← all]
    exact filterMap_append
  rw [Executes, flatten_cons, ← append_assoc, split, commands, filterMap_append, filter_append, ← commands, ← commands,
    receiveAll, read, Option.bind_eq_bind, Option.bind_some]
  dsimp only
  constructor
  · rintro ⟨_, _, run, same⟩
    obtain ⟨⟨last, later⟩, found, result⟩ := Option.bind_eq_some_iff.mp run
    cases result
    rw [joined, append_right_inj] at same
    exact ⟨last, later, found, same⟩
  · rintro ⟨last, later, found, same⟩
    refine ⟨last, lines ++ later, ?_, by rw [joined, same]⟩
    rw [found]
    rfl

theorem executes_timely {inputs : List (List Char)} (filled : ∀ input ∈ inputs, input ≠ []) (object : Interpreter)
    (buffered : (if object.done then [] else object.cmd) = cmd) (waiting : commands tcl (pieces cmd line) = []) :
    (∀ reads, reads <+: inputs → Executes tcl object line cmd reads) ↔ Timely tcl line cmd inputs := by
  induction inputs generalizing object line cmd with
  | nil =>
    refine iff_of_true (fun reads front => ?_) trivial
    rw [prefix_nil.mp front]
    exact executes_nil.mpr waiting
  | cons input inputs ih =>
    rw [forall_mem_cons] at filled
    have later : (∀ reads, reads <+: input :: inputs → Executes tcl object line cmd reads) ↔
        ∀ reads, reads <+: inputs → Executes tcl object line cmd (input :: reads) := by
      constructor
      · exact fun all reads front => all _ ((prefix_cons_inj input).mpr front)
      · intro all reads front
        rcases prefix_cons_iff.mp front with rfl | ⟨rest, rfl, inside⟩
        · exact executes_nil.mpr waiting
        · exact all rest inside
    have read : receive tcl object input = _ := if_neg fun last => filled.1 last.1
    rw [buffered] at read
    rw [later, Timely]
    split_ifs with undefined waits
    · -- the first read has no result
      rw [if_pos undefined] at read
      refine iff_of_false (fun all => ?_) id
      obtain ⟨_, _, run, _⟩ := all [] nil_prefix
      simp [receiveAll, read] at run
    · rw [if_neg undefined, if_pos waits] at read
      have step := executes_cons read (fun back => (nil_append (pieces (cmd ++ input ++ back) line)).symm) rfl
      simp only [step]
      constructor
      · intro all
        have none := executes_nil.mp (all [] nil_prefix)
        exact ⟨none, (ih filled.2 ⟨cmd ++ input, false⟩ rfl none).mp all⟩
      · rintro ⟨none, timely⟩
        exact (ih filled.2 ⟨cmd ++ input, false⟩ rfl none).mpr timely
    · rw [if_neg undefined, if_neg waits] at read
      have split : ∀ back, pieces (cmd ++ input ++ back) line =
          pieces (cmd ++ input) line ++ pieces ([] ++ back) (unfinished (cmd ++ input) line) :=
        fun back => pieces_append (cmd ++ input) back line
      have step := executes_cons read split
      rw [← executed_eq, eq_comm]
      constructor
      · intro all
        have first : executed tcl (pieces (cString (cmd ++ input)) []) = commands tcl (pieces (cmd ++ input) line) := by
          obtain ⟨_, _, run, same⟩ := all [] nil_prefix
          simp [receiveAll, read] at run
          simpa [← run.2] using same
        exact ⟨first, (ih filled.2 ⟨_, true⟩ rfl rfl).mp fun reads front => (step first reads).mp (all reads front)⟩
      · rintro ⟨first, timely⟩ reads front
        exact (step first reads).mpr ((ih filled.2 ⟨_, true⟩ rfl rfl).mpr timely reads front)

end

def pageLine : List Char := "\x7bined\x7d \x7bpage\x7d \n".toList

end Tnm.Ined
