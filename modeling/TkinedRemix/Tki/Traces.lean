import TkinedRemix.Lib.Machine

/-!
The interpreters that trace an editor, and the counter by which `TkiTrace` of `tkiObjects.c` knows of them.
-/

namespace Tkined.Traces

open Lib List

structure Interpreter where
  editor : Option Nat
  trace : Bool
  traceCmd : String
deriving DecidableEq

/-- An interpreter stands at its number, and a deleted one leaves its place empty. -/
structure State where
  tkiObjectTable : List (Option Interpreter)
  traceCount : Nat → Int

def start : State := ⟨[], fun _ => 0⟩

/-- The `trace` command of `ined`: the object afterwards, and the change of its editor's counter. -/
def inedTrace (traceCmd : String) (object : Interpreter) : Option Interpreter × Int :=
  if object.editor = none then (some { object with traceCmd := traceCmd }, 0)
  else if traceCmd ≠ "" then (some { object with traceCmd := traceCmd, trace := true }, 1)
  else (some { object with traceCmd := traceCmd, trace := false }, -1)

def mInterpreterDelete (object : Interpreter) : Option Interpreter × Int := (none, if object.trace then -1 else 0)

def State.alter (state : State) (number : Nat) (method : Interpreter → Option Interpreter × Int) : State :=
  match state.tkiObjectTable[number]?.join with
  | none => state
  | some object => {
      tkiObjectTable := state.tkiObjectTable.set number (method object).1
      traceCount := fun editor =>
        state.traceCount editor + if object.editor = some editor then (method object).2 else 0 }

inductive Command where
  | create (editor : Option Nat)
  | trace (number : Nat) (traceCmd : String)
  | delete (number : Nat)

def exec (state : State) : Command → State
  | .create editor => { state with tkiObjectTable := state.tkiObjectTable ++ [some ⟨editor, false, ""⟩] }
  | .trace number traceCmd => state.alter number (inedTrace traceCmd)
  | .delete number => state.alter number mInterpreterDelete

def Interpreter.traces (editor : Nat) (object : Interpreter) : Bool := object.trace && object.editor = some editor

def State.traced (state : State) (editor : Nat) : List (Option Interpreter) :=
  state.tkiObjectTable.filter (Option.any (Interpreter.traces editor))

/-- The interpreters that a traced command is written to. -/
def tkiTrace (state : State) (editor : Nat) : List (Option Interpreter) :=
  if state.traceCount editor > 0 then state.traced editor else []

def Counted (state : State) : Prop := ∀ editor, state.traceCount editor = (state.traced editor).length

theorem Counted.alter {state : State} (counted : Counted state) {number : Nat}
    {method : Interpreter → Option Interpreter × Int}
    (follows : ∀ object, state.tkiObjectTable[number]?.join = some object → ∀ editor,
      (if object.editor = some editor then (method object).2 else 0) + (object.traces editor).toInt =
        ((method object).1.any (Interpreter.traces editor)).toInt) : Counted (state.alter number method) := by
  intro editor
  rw [State.alter]
  split
  next => exact counted editor
  next object found =>
    obtain ⟨inside, entry⟩ := List.getElem?_eq_some_iff.mp (Option.join_eq_some_iff.mp found)
    have changes := follows object found editor
    have before := counted editor
    have present : object.traces editor → 0 < state.tkiObjectTable.countP (Option.any (Interpreter.traces editor)) :=
      fun traces => countP_pos_iff.mpr ⟨some object, entry ▸ getElem_mem inside, traces⟩
    simp only [State.traced, ← countP_eq_length_filter, countP_set inside, entry, Option.any_some] at before ⊢
    generalize (if object.editor = some editor then _ else (0 : Int)) = change at changes
    generalize countP _ state.tkiObjectTable = count at before present
    generalize object.traces editor = old at changes present
    generalize (method object).1.any _ = new at changes
    cases old <;> cases new <;> simp at changes present ⊢ <;> omega

/-- A trace command has to change the flag. -/
def Switches (state : State) : Command → Prop
  | .trace number traceCmd => ∀ object, state.tkiObjectTable[number]?.join = some object → object.editor ≠ none →
      object.trace = decide (traceCmd = "")
  | _ => True

theorem Counted.exec (state : State) (command : Command) (switches : Switches state command) (counted : Counted state) :
    Counted (exec state command) := by
  cases command with
  | create =>
    intro editor
    simpa [Traces.exec, State.traced, Interpreter.traces] using counted editor
  | trace number traceCmd =>
    refine counted.alter fun object found editor => ?_
    have flag := switches object found
    rcases object with ⟨_ | own, trace, _⟩
    · simp [inedTrace, Interpreter.traces]
    · by_cases empty : traceCmd = "" <;> by_cases same : own = editor <;>
        simp_all [inedTrace, Interpreter.traces]
  | delete =>
    refine counted.alter fun object _ editor => ?_
    by_cases same : object.editor = some editor <;> cases trace : object.trace <;>
      simp [mInterpreterDelete, Interpreter.traces, same, trace]

theorem traceCount_eq (commands : List Command) (switches : Meets exec Switches start commands) (editor : Nat) :
    (run exec start commands).traceCount editor = ((run exec start commands).traced editor).length ∧
      tkiTrace (run exec start commands) editor = (run exec start commands).traced editor := by
  have counted : Counted (run exec start commands) := run_invariant Counted.exec (fun _ => rfl) switches
  refine ⟨counted editor, ?_⟩
  rw [tkiTrace, counted editor]
  split
  next => rfl
  next none => exact (length_eq_zero_iff.mp (by omega)).symm

def twoTraces : List Command := [.create (some 0), .create (some 0), .trace 0 "note", .trace 1 "note", .delete 0]

theorem traceCount_two : Meets exec Switches start twoTraces ∧ (run exec start twoTraces).traceCount 0 = 1 := by
  have switches : Meets exec Switches start twoTraces := by
    simp [twoTraces, Meets, Switches, exec, start, State.alter]
  exact ⟨switches, (traceCount_eq twoTraces switches 0).1.trans (by decide)⟩

def idleStops : List Command := [.create (some 0), .create (some 0), .trace 0 "note", .trace 1 ""]

/-- An interpreter that does not trace stops, and nothing is written to the one that does. -/
theorem traceCount_idleStops : (run exec start idleStops).traceCount 0 = 0 ∧
    (run exec start idleStops).traced 0 = [some ⟨some 0, true, "note"⟩] ∧
      tkiTrace (run exec start idleStops) 0 = [] := by
  decide

end Tkined.Traces
