import TkinedRemix.Lib.Chain
import TkinedRemix.Lib.Machine

/-!
The queue of messages from the editor, as `tnmIned.c` keeps it. The scripts that a flush evaluates can append to
the queue and flush it again. The use of a freed message has no state.
-/

namespace Tnm.Ined

open Lib Function

structure Message where
  msg : String
  nextPtr : Option Nat
deriving DecidableEq

/-- `InedFlushQueue` evaluates `m` and continues at `p`, or `Tnm_InedObjCmd` waits. -/
inductive InedFrame where
  | flush (m : Nat) (p : Option Nat)
  | wait
deriving DecidableEq

structure InedState where
  heap : Nat → Option Message
  allocated : Nat
  queue : Option Nat
  frames : List InedFrame
  /-- Pending timers of `InedFlushProc`. -/
  timers : Nat
  initialized : Bool
  arrived : List String
  evaluated : List String
  reports : List Nat

/-- A line from the editor, a call of `ined`, a line while a command waits, a timer, the end of a script. -/
inductive InedAction where
  | receive (line : String)
  | command
  | read (line : String)
  | timer
  | done
deriving DecidableEq

def inedStart : InedState := ⟨fun _ => none, 0, none, [], 0, false, [], [], []⟩

def inedQueue (state : InedState) : Option InedState := do
  let cells ← follow Message.nextPtr state.heap state.allocated state.queue
  return { state with reports := state.reports ++ [cells.length] }

/-- The loop of `InedFlushQueue` from `p` on, up to the next evaluation. -/
def inedFlushFrom (state : InedState) : Option Nat → Option InedState
  | none => inedQueue { state with queue := none }
  | some p => do
      let m ← state.heap p
      return { state with frames := .flush p m.nextPtr :: state.frames, evaluated := state.evaluated ++ [m.msg] }

def inedFlushQueue (state : InedState) : Option InedState :=
  if state.queue = none then some state
  else do
    let state ← inedQueue state
    inedFlushFrom state state.queue

def inedAppendQueue (msg : String) (state : InedState) : Option InedState :=
  let np := state.allocated
  let state := { state with heap := update state.heap np (some ⟨msg, none⟩), allocated := np + 1 }
  if state.queue = none then some { state with queue := some np }
  else do
    let cells ← follow Message.nextPtr state.heap state.allocated state.queue
    let p ← cells.getLast?
    let last ← state.heap p
    inedQueue { state with heap := update state.heap p (some { last with nextPtr := some np }) }

def isReply (line : String) : Bool :=
  "ined ok".toList.isPrefixOf line.toList || "ined error".toList.isPrefixOf line.toList

def blocked (state : InedState) : Bool := state.frames.head? = some .wait

def inedReceiveProc (line : String) (state : InedState) : Option InedState := do
  let state ← inedAppendQueue line { state with arrived := state.arrived ++ [line] }
  inedFlushQueue state

/-- A line in the loop of `Tnm_InedObjCmd`. -/
def inedWaitRead (line : String) (outer : List InedFrame) (state : InedState) : Option InedState :=
  let state := { state with arrived := state.arrived ++ [line] }
  if line = "" then some state
  else if isReply line then some { state with frames := outer }
  else do
    let state ← inedAppendQueue line state
    return { state with timers := state.timers + 1 }

/-- The evaluation of `m` has returned: it is freed, and the loop goes on. -/
def inedEvaluated (m : Nat) (p : Option Nat) (outer : List InedFrame) (state : InedState) : Option InedState := do
  let _ ← state.heap m
  inedFlushFrom { state with heap := update state.heap m none, frames := outer } p

/-- One action; what cannot happen in a state does nothing. -/
def inedTurn (state : InedState) : InedAction → Option InedState
  | .receive line =>
    if blocked state || !state.initialized then some state else inedReceiveProc line state
  | .command =>
    if blocked state then some state
    else some { state with initialized := true, frames := .wait :: state.frames }
  | .read line =>
    match state.frames with
    | .wait :: outer => inedWaitRead line outer state
    | _ => some state
  | .timer =>
    if blocked state || state.timers = 0 then some state
    else inedFlushQueue { state with timers := state.timers - 1 }
  | .done =>
    match state.frames with
    | .flush m p :: outer => inedEvaluated m p outer state
    | _ => some state

def inedStep (state : Option InedState) (action : InedAction) : Option InedState :=
  state.bind fun state => inedTurn state action

def flushes (frames : List InedFrame) : List (Nat × Option Nat) :=
  frames.filterMap fun
    | .flush m p => some (m, p)
    | .wait => none

def texts (heap : Nat → Option Message) (cells : List Nat) : List String :=
  cells.filterMap fun address => (heap address).map Message.msg

def unbegun (state : InedState) : List String :=
  let pointer := match flushes state.frames with
    | [] => state.queue
    | (_, p) :: _ => p
  texts state.heap ((follow Message.nextPtr state.heap state.allocated pointer).getD [])

def messages (lines : List String) : List String := lines.filter fun line => !isReply line

/-- A message is appended behind the one that is evaluated, and no flush starts in another one. -/
def InedSafe (state : InedState) : InedAction → Prop
  | .receive _ => flushes state.frames = []
  | .timer => flushes state.frames = []
  | .read line => line ≠ "" ∧ (isReply line ∨ flushes state.frames = [] ∨
      ∃ m p, flushes state.frames = [(m, some p)] ∧ state.queue = some m)
  | .command => True
  | .done => True

end Tnm.Ined
