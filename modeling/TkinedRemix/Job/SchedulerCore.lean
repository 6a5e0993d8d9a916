import TkinedRemix.Lib.Machine
import TkinedRemix.Tcl.Time

/-!
The job scheduler of `tnmJob.c`. A script that it evaluates is a frame; while it is on top, the actions are the
commands of that script, which may run the scheduler again.
-/

namespace Tnm.Jobs

open Lib

inductive Status where
  | suspended
  | waiting
  | running
  | expired
deriving DecidableEq

structure Job where
  id : Nat
  cmd : String
  newCmd : Option String
  exitCmd : String
  errorCmd : String
  interval : Int
  iterations : Int
  remtime : Int
  status : Status
  tagList : String
deriving DecidableEq

/-- What the interpreter is in the middle of: a script that `Schedule` evaluates, or a `wait`. -/
inductive Frame where
  | command (id : Nat)
  | error (id : Nat)
  | exit (id : Nat)
  | wait (target : Option Nat)
deriving DecidableEq

/-- The `JobControl` record with the clock and the calls in progress; `ran` records the commands evaluated. -/
structure Control where
  jobs : List Job
  timer : Option Nat
  lastTime : TclTime
  now : TclTime
  nextId : Nat
  unlinked : List Job
  frames : List Frame
  ran : List Nat
deriving DecidableEq

def Control.start (now : TclTime) : Control := ⟨[], none, .zero, now, 0, [], [], []⟩

def Control.linked (control : Control) (id : Nat) : Bool := control.jobs.any fun job => job.id == id

def Control.find (control : Control) (id : Nat) : Option Job :=
  (control.jobs ++ control.unlinked).find? fun job => job.id == id

def modifyJob (id : Nat) (change : Job → Job) (job : Job) : Job := if job.id = id then change job else job

def Control.modify (control : Control) (id : Nat) (change : Job → Job) : Control :=
  { control with
    jobs := control.jobs.map (modifyJob id change)
    unlinked := control.unlinked.map (modifyJob id change) }

/-- `DeleteProc`: the record stays as long as someone holds it. -/
def deleteProc (control : Control) (id : Nat) : Control :=
  { control with
    jobs := control.jobs.filter fun job => job.id != id
    unlinked := control.unlinked ++ control.jobs.filter fun job => job.id == id }

/-- The delay in milliseconds that `NextSchedule` finds; -1 without a job to wait for. -/
def nextDelay (ms : Int) (job : Job) : Int :=
  if (job.status = .waiting ∨ job.status = .expired) ∧ (ms < 0 ∨ job.remtime < ms) then
    if job.remtime < 0 then 0 else job.remtime
  else ms

def nextSchedule (control : Control) : Control :=
  let ms := control.jobs.foldl nextDelay (-1)
  if ms < 0 then { control with timer := none, lastTime := .zero }
  else { control with timer := some (control.now.micros + 1000 * ms.toNat) }

/-- The difference of `AdjustTime`: a `long` that is stored in an `int`, with the division of C. -/
def elapsed (last now : TclTime) : Int :=
  Int.bmod (1000 * ((now.sec : Int) - last.sec) + Int.tdiv ((now.usec : Int) - last.usec) 1000) 4294967296

def Job.refresh (delta : Int) (job : Job) : Job :=
  if job.status = .suspended then job else { job with remtime := job.remtime - delta }

def adjustTime (control : Control) : Option Control :=
  if control.lastTime = .zero then some { control with lastTime := control.now }
  else
    let delta := elapsed control.lastTime control.now
    if delta ≤ 0 then some { control with lastTime := control.now }
    else if ∀ job ∈ control.jobs, -2147483648 ≤ (job.refresh delta).remtime then
      some { control with lastTime := control.now, jobs := control.jobs.map (Job.refresh delta) }
    else none

def Job.promote (job : Job) : Job :=
  match job.newCmd with
  | some cmd => { job with cmd, newCmd := none }
  | none => job

/-- The loop of `Schedule` over the jobs up to the first one that is due. -/
def scan : List Job → List Job × Option Nat
  | [] => ([], none)
  | job :: rest =>
    let job := job.promote
    if job.status = .waiting ∧ job.remtime ≤ 0 then ({ job with status := .running } :: rest, some job.id)
    else
      let (rest, found) := scan rest
      (job :: rest, found)

/-- The loop that deletes the expired jobs, up to the first one with an exit command. -/
def sweep : List Job → List Job × List Job × Option Nat
  | [] => ([], [], none)
  | job :: rest =>
    if job.status = .expired then
      if job.exitCmd = "" then
        let (kept, removed, found) := sweep rest
        (kept, job :: removed, found)
      else (job :: rest, [], some job.id)
    else
      let (kept, removed, found) := sweep rest
      (job :: kept, removed, found)

/-- `Schedule` from the label `repeat`. -/
def expireJobs (control : Control) : Option Control :=
  match sweep control.jobs with
  | (jobs, removed, some id) =>
    some { control with jobs, unlinked := control.unlinked ++ removed, frames := .exit id :: control.frames }
  | (jobs, removed, none) =>
    (adjustTime { control with jobs, unlinked := control.unlinked ++ removed }).map nextSchedule

/-- `Schedule` from the label `restart`. -/
def runJobs (control : Control) : Option Control :=
  match scan control.jobs with
  | (jobs, some id) =>
    some { control with jobs, frames := .command id :: control.frames, ran := control.ran ++ [id] }
  | (jobs, none) => expireJobs { control with jobs }

def schedule (control : Control) : Option Control := (adjustTime control).bind runJobs

def Job.finish (job : Job) : Job :=
  let job := { job with
    status := if job.status = .running then .waiting else job.status
    remtime := job.interval }
  if 0 < job.iterations then
    let job := { job with iterations := job.iterations - 1 }
    if job.iterations = 0 then { job with status := .expired } else job
  else job

/-- The script on top returns, with or without an error. The token of a deleted job is no longer valid. -/
def finish (control : Control) (failed : Bool) : Option Control :=
  match control.frames with
  | .command id :: frames =>
    if failed then
      (control.find id).bind fun job =>
        if job.errorCmd ≠ "" then some { control with frames := .error id :: frames }
        else if control.linked id then
          runJobs ({ control with frames }.modify id fun job => { job with status := .expired }.finish)
        else none
    else runJobs ({ control with frames }.modify id Job.finish)
  | .error id :: frames => runJobs ({ control with frames }.modify id Job.finish)
  | .exit id :: frames => if control.linked id then expireJobs (deleteProc { control with frames } id) else none
  | _ => some control

inductive Setting where
  | command (text : String)
  | error (text : String)
  | exit (text : String)
  | interval (value : Option Int)
  | iterations (value : Option Int)
  | status (value : Option Status)
  | tags (text : String)
  | time
deriving DecidableEq

def setOption (job : Job) : Setting → Option Job
  | .command text => some { job with newCmd := some text }
  | .error text => some { job with errorCmd := text }
  | .exit text => some { job with exitCmd := text }
  | .interval value => (value.filter (1 ≤ ·)).map fun num => { job with interval := num }
  | .iterations value => (value.filter (0 ≤ ·)).map fun num => { job with iterations := num }
  | .status value =>
    value.map fun status => { job with status := if status = .running then .waiting else status }
  | .tags text => some { job with tagList := text }
  | .time => some job

def Setting.isStatus : Setting → Bool
  | .status _ => true
  | _ => false

/-- The second loop of `TnmSetConfig`; the flag is the result. -/
def setOptions (control : Control) (id : Nat) : List Setting → Option (Control × Bool)
  | [] => some (control, true)
  | setting :: rest =>
    (control.find id).bind fun job =>
      match setOption job setting with
      | none => some (control, false)
      | some changed =>
        let control := control.modify id fun _ => changed
        if setting.isStatus then
          (adjustTime control).bind fun control => setOptions (nextSchedule control) id rest
        else setOptions control id rest

/-- `TnmSetConfig`; it reads all the options at the end, and with the remaining time the clock. -/
def setConfig (control : Control) (id : Nat) (settings : List Setting) : Option (Control × Bool) :=
  (setOptions control id settings).bind fun (control, ok) =>
    if ok then (adjustTime control).map fun control => (control, true) else some (control, false)

def newJob (id : Nat) : Job := ⟨id, "", none, "", "", 1000, 0, 0, .waiting, ""⟩

def createJob (control : Control) (settings : List Setting) : Option Control :=
  let id := control.nextId
  let allocated := { control with nextId := id + 1, unlinked := newJob id :: control.unlinked }
  (setConfig allocated id settings).map fun (control, ok) =>
    let others := control.unlinked.filter fun job => job.id != id
    if ok then
      nextSchedule { control with
        jobs := control.jobs ++ control.unlinked.filter fun job => job.id == id
        unlinked := others }
    else { control with unlinked := others }

def Control.blocked (control : Control) (target : Option Nat) : Bool :=
  control.jobs.any fun job => job.status = .waiting ∧ (target = none ∨ target = some job.id)

inductive Action where
  | clock (time : TclTime)
  | create (settings : List Setting)
  | configure (id : Nat) (settings : List Setting)
  | cgetTime (id : Nat)
  | destroy (id : Nat)
  | delete (id : Nat)
  | wait (target : Option Nat)
  | waited
  | schedule
  | fire
  | finish (failed : Bool)
deriving DecidableEq

def jobAction (control : Control) : Action → Option Control
  | .clock time => some { control with now := time }
  | .create settings => createJob control settings
  | .configure id settings =>
    if control.linked id then (setConfig control id settings).map Prod.fst else some control
  | .cgetTime id => if control.linked id then adjustTime control else some control
  | .destroy id =>
    if control.linked id then some (control.modify id fun job => { job with status := .expired })
    else some control
  | .delete id => some (deleteProc control id)
  | .wait target => some { control with frames := .wait target :: control.frames }
  | .waited =>
    match control.frames with
    | .wait target :: frames => if control.blocked target then some control else some { control with frames }
    | _ => some control
  | .schedule => Jobs.schedule control
  | .fire =>
    match control.timer with
    | some deadline =>
      -- the token stays in the record, but its handler is gone
      if deadline ≤ control.now.micros then Jobs.schedule { control with timer := none } else some control
    | none => some control
  | .finish failed => Jobs.finish control failed

def jobStep (state : Option Control) (action : Action) : Option Control := state.bind (jobAction · action)

end Tnm.Jobs
