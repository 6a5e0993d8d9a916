import Mathlib

/-!
The ICMP server `nmicmpd`. Its main loop is cut where something from outside enters: a request, a packet, the
clock, the outcome of `sendto` and `write`.
-/

namespace Tnm.Icmp

structure Timeval where
  sec : Nat
  usec : Nat
  normal : usec < 1000000
deriving DecidableEq

def Timeval.zero : Timeval := ⟨0, 0, by decide⟩

def Timeval.micros (time : Timeval) : Nat := time.sec * 1000000 + time.usec

def timediff2 (t1 t2 : Timeval) : Int := ((t2.sec : Int) - t1.sec) * 1000 + ((t2.usec : Int) - t1.usec).tdiv 1000

def timeDiff (t1 t2 : Timeval) : Int := if timediff2 t1 t2 ≤ 0 then -timediff2 t1 t2 else timediff2 t1 t2

def timediff2usec (t1 t2 : Timeval) : Int := ((t2.sec : Int) - t1.sec) * 1000000 + ((t2.usec : Int) - t1.usec)

def timeDiffUsec (t1 t2 : Timeval) : Int :=
  if timediff2usec t1 t2 ≤ 0 then -timediff2usec t1 t2 else timediff2usec t1 t2

def icmpProtoVersion : Nat := 0

def icmpTypeEcho : Nat := 1
def icmpTypeMask : Nat := 2
def icmpTypeTstamp : Nat := 3
def icmpTypeTrace : Nat := 4

def icmpStatusNoError : Nat := 0
def icmpStatusTimeout : Nat := 1
def icmpStatusGenError : Nat := 2

def icmpFlagFinalHop : Nat := 1

def minDataLen : Nat := 44

def icmpEchoReply : Nat := 0
def icmpUnreach : Nat := 3
def icmpUnreachPort : Nat := 3
def icmpTimxceed : Nat := 11
def icmpTimxceedIntrans : Nat := 0
def icmpTstampReply : Nat := 14
def icmpMaskReply : Nat := 18

def basePort : Nat := 50000
def maxBasePort : Nat := 60000

/-- What `configure` and `InitSockets` decide once. -/
structure Config where
  pid : Nat
  maxDataLen : Nat
  icmpDgram : Bool
  useDlpi : Bool
  srcPort : UInt16
  checkComplementPort : Bool

structure Request where
  version : UInt8
  type : UInt8
  tid : UInt32
  addr : UInt32
  timeout : UInt8
  retries : UInt8
  size : UInt16
  window : UInt16

/-- A job; `serial` tells the records apart, and `data` is what was written over the parameters. -/
structure Job where
  serial : Nat
  type : Nat
  status : Nat
  flags : Nat
  tid : UInt32
  addr : UInt32
  retries : Nat
  data : Option Nat
  window : Nat
  port : Nat
  tv : Timeval
  probeCnt : Nat
  timeSent : Timeval
  retryIval : Nat
  id : Nat
  done : Bool
  inServe : Bool
deriving DecidableEq

structure Reply where
  type : Nat
  status : Nat
  flags : Nat
  tid : UInt32
  addr : UInt32
  data : Option Nat
deriving DecidableEq

inductive Event where
  | arrived (serial retries retryIval : Nat)
  | served (serial window : Nat) (counter : Int)
  | sent (serial id : Nat) (time : Timeval)
  | timedOut (serial : Nat) (time : Timeval)
  | credited (serial : Nat)
  | replied (serial : Nat) (reply : Reply)
  | rejected (tid : UInt32)
deriving DecidableEq

/-- Where the server is in `DoOneEvent`, `SendPending` and `ReceivePending`. -/
inductive Phase where
  | events
  | ready
  | retry (now : Timeval)
  | delay (now : Timeval)
  | stuck
deriving DecidableEq

structure Daemon where
  jobs : List Job
  counter : Int
  identCnt : Nat
  probePort : Nat
  eofSeen : Bool
  phase : Phase
  serials : Nat
  clock : Timeval
  log : List Event

def Daemon.start : Daemon := ⟨[], 0, 0, 0, false, .events, 0, .zero, []⟩

/-- `GetWindow (0)`; the counter is returned as an unsigned short. -/
def getWindow (counter : Int) : Int := counter % 65536

def swapShort (x : Nat) : Nat := x % 256 * 256 + x / 256 % 256

def nextPort (probePort : Nat) : Nat :=
  if probePort + 1 < basePort ∨ maxBasePort < probePort + 1 then basePort else probePort + 1

def portInUse (jobs : List Job) (port : Nat) : Bool :=
  jobs.any fun job => job.type = icmpTypeTrace && (job.port = port || job.port = swapShort port)

/-- The recursion never ends if it has seen every port in use. -/
def getFreeUdpPort (jobs : List Job) : Nat → Nat → Option Nat
  | 0, _ => none
  | fuel + 1, probePort =>
    if portInUse jobs (nextPort probePort) then getFreeUdpPort jobs fuel (nextPort probePort)
    else some (nextPort probePort)

def portCount : Nat := maxBasePort - basePort + 1

def cleaned (blocks : Nat → Bool) (job : Job) : Bool := job.done && !blocks job.serial

def Job.reply (job : Job) : Event :=
  .replied job.serial ⟨job.type, job.status, job.flags, job.tid, job.addr, job.data⟩

def cleanupJobs (blocks : Nat → Bool) (daemon : Daemon) : Daemon :=
  { daemon with
    jobs := daemon.jobs.filter fun job => !cleaned blocks job
    counter := daemon.counter - daemon.jobs.countP (cleaned blocks)
    log := daemon.log ++ (daemon.jobs.filter (cleaned blocks)).map Job.reply }

/-- A packet as the server looks at it, with the ports of the datagram it quotes. -/
structure Packet where
  short : Bool
  icmpType : UInt8
  icmpCode : UInt8
  icmpId : UInt16
  source : UInt32
  uhSport : UInt16
  uhDport : UInt16
  sent : Timeval
  words : UInt32 × UInt32

/-- The type of job a packet can answer, and if it comes from the target of a trace. -/
def replyType (packet : Packet) : Option (Nat × Bool) :=
  if packet.icmpType.toNat = icmpEchoReply then some (icmpTypeEcho, false)
  else if packet.icmpType.toNat = icmpMaskReply then some (icmpTypeMask, false)
  else if packet.icmpType.toNat = icmpTstampReply then some (icmpTypeTstamp, false)
  else if packet.icmpType.toNat = icmpUnreach then
    if packet.icmpCode.toNat = icmpUnreachPort then some (icmpTypeTrace, true) else none
  else if packet.icmpType.toNat = icmpTimxceed then
    if packet.icmpCode.toNat = icmpTimxceedIntrans then some (icmpTypeTrace, false) else none
  else none

def findJobById (jobs : List Job) (id : Nat) : Option Job := jobs.find? fun job => job.id = id

def portMatches (config : Config) (packet : Packet) (job : Job) : Bool :=
  let id := packet.uhSport.toNat
  let port := packet.uhDport.toNat
  let src := if config.useDlpi then config.srcPort.toNat else job.id % 65536
  (job.port = port && src = id) ||
    (config.checkComplementPort &&
      ((job.port = swapShort port && src = swapShort id) || (job.port = port && src = swapShort id) ||
        (job.port = swapShort port && src = id)))

def findJobByPort (config : Config) (jobs : List Job) (packet : Packet) : Option Job :=
  jobs.find? (portMatches config packet)

def findJob (config : Config) (jobs : List Job) (packet : Packet) (type : Nat) : Option Job :=
  if type = icmpTypeTrace then findJobByPort config jobs packet else findJobById jobs packet.icmpId.toNat

def replyData (type : Nat) (packet : Packet) (tp2 : Timeval) (job : Job) : Nat :=
  if type = icmpTypeEcho then (timeDiffUsec packet.sent tp2 % 4294967296).toNat
  else if type = icmpTypeMask then packet.words.1.toNat
  else if type = icmpTypeTstamp then (packet.words.2 - packet.words.1).toNat
  else (timeDiffUsec job.tv tp2 % 4294967296).toNat

def credit (type : Nat) (final : Bool) (packet : Packet) (tp2 : Timeval) (job : Job) : Job :=
  { job with
    data := some (replyData type packet tp2 job)
    addr := packet.source
    flags := if final then job.flags ||| icmpFlagFinalHop else job.flags
    done := true }

def creditedJob (config : Config) (jobs : List Job) (packet : Packet) : Option (Job × Nat × Bool) := do
  guard !packet.short
  let (type, final) ← replyType packet
  let job ← findJob config jobs packet type
  guard !job.done
  guard (type = icmpTypeTrace || packet.source = job.addr)
  return (job, type, final)

def updateJob (serial : Nat) (change : Job → Job) (jobs : List Job) : List Job :=
  jobs.map fun job => if job.serial = serial then change job else job

def receivePacket (config : Config) (packet : Packet) (tp2 : Timeval) (blocks : Nat → Bool) (daemon : Daemon) :
    Daemon :=
  let daemon := { daemon with clock := tp2 }
  match creditedJob config daemon.jobs packet with
  | none => daemon
  | some (job, type, final) =>
    cleanupJobs blocks
      { daemon with
        jobs := updateJob job.serial (credit type final packet tp2) daemon.jobs
        log := daemon.log ++ [.credited job.serial] }

/-- What `read` and `malloc` do. The port of a job that is no trace is not initialised. -/
inductive Input where
  | eof
  | partialRead
  | command (request : Request) (leftover : Nat) (memory : Bool)

def badRequest (config : Config) (request : Request) : Bool :=
  request.version.toNat ≠ icmpProtoVersion || 4 < request.type.toNat || config.maxDataLen < request.size.toNat ||
    request.size.toNat < minDataLen

def newJob (config : Config) (request : Request) (serial id port : Nat) : Job where
  serial := serial
  type := request.type.toNat
  status := if badRequest config request then icmpStatusGenError else icmpStatusNoError
  flags := 0
  tid := request.tid
  addr := request.addr
  retries := request.retries.toNat
  data := if badRequest config request then some 0 else none
  window := request.window.toNat
  port := port
  tv := .zero
  probeCnt := 0
  timeSent := .zero
  retryIval := 1000 * request.timeout.toNat / (request.retries.toNat + 1)
  id := id
  done := badRequest config request
  inServe := request.window.toNat = 0

def nextIdent (config : Config) (daemon : Daemon) : Nat :=
  if daemon.identCnt = 0 then config.pid % 256 * 256 else daemon.identCnt

def readJob (config : Config) (input : Input) (daemon : Daemon) : Daemon :=
  let ident := nextIdent config daemon
  match input with
  | .eof => { daemon with identCnt := ident, eofSeen := true, phase := .ready }
  | .partialRead => { daemon with identCnt := ident, phase := .ready }
  | .command request leftover memory =>
    let counter := if request.window.toNat = 0 then daemon.counter + 1 else daemon.counter
    let daemon := { daemon with identCnt := (ident + 1) % 65536, counter, phase := .ready }
    let isTrace := request.type.toNat = icmpTypeTrace
    match if isTrace then getFreeUdpPort daemon.jobs portCount daemon.probePort else some leftover with
    | none => { daemon with phase := .stuck }
    | some port =>
      let daemon := if isTrace then { daemon with probePort := port } else daemon
      if memory then
        let job := newJob config request daemon.serials ident port
        { daemon with
          jobs := job :: daemon.jobs
          serials := daemon.serials + 1
          log := daemon.log ++ [.arrived job.serial job.retries job.retryIval] }
      else { daemon with log := daemon.log ++ [.rejected request.tid] }

inductive Due where
  | send
  | expired
deriving DecidableEq

def Job.due (now : Timeval) (job : Job) : Option Due :=
  if !job.inServe || job.done then none
  else if job.probeCnt ≤ job.retries + 1 ∧ (job.retryIval : Int) < timeDiff job.timeSent now then some .send
  else if job.retries + 1 < job.probeCnt then some .expired
  else none

def Job.fits (counter : Int) (job : Job) : Bool := !job.inServe && getWindow counter < job.window

def Job.grant (counter : Int) (job : Job) : Int × List Event × Job :=
  if job.fits counter
  then (counter + 1, [.served job.serial job.window counter], { job with inServe := true })
  else (counter, [], job)

structure Scan where
  jobs : List Job
  counter : Int
  served : List Event
  found : Option (Due × Job)

/-- The loop from `retry` on, up to a job that has to be sent or is given up. -/
def scanJobs (now : Timeval) (counter : Int) : List Job → Scan
  | [] => ⟨[], counter, [], none⟩
  | job :: rest =>
    let (after, events, job) := job.grant counter
    match job.due now with
    | some due => ⟨job :: rest, after, events, some (due, job)⟩
    | none =>
      let scan := scanJobs now after rest
      ⟨job :: scan.jobs, scan.counter, events ++ scan.served, scan.found⟩

/-- A mask or timestamp request on an unprivileged socket is refused without a packet. -/
def refused (config : Config) (job : Job) : Bool :=
  config.icmpDgram && (job.type = icmpTypeMask || job.type = icmpTypeTstamp)

def sendPacket (ok : Bool) (job : Job) : Job :=
  if ok then job else { job with status := icmpStatusGenError, data := some 0, done := true }

def sendTrace (tv stamp : Timeval) (ok : Bool) (job : Job) : Job :=
  sendPacket ok { job with tv, probeCnt := job.probeCnt + 1, timeSent := stamp }

def sendIcmp (config : Config) (tv : Timeval) (ok : Bool) (job : Job) : Job :=
  if refused config job then { job with status := icmpStatusGenError, done := true }
  else sendPacket ok { job with probeCnt := job.probeCnt + 1, timeSent := tv }

def sendProbe (config : Config) (tv stamp : Timeval) (ok : Bool) (job : Job) : Job :=
  if job.type = icmpTypeTrace then sendTrace tv stamp ok job else sendIcmp config tv ok job

def probeEvents (config : Config) (tv stamp : Timeval) (job : Job) : List Event :=
  if job.type = icmpTypeTrace then [.sent job.serial job.id stamp]
  else if refused config job then []
  else [.sent job.serial job.id tv]

def giveUp (job : Job) : Job := { job with done := true, data := some 0, status := job.status ||| icmpStatusTimeout }

def sendPending (config : Config) (now tv stamp : Timeval) (ok : Bool) (blocks : Nat → Bool) (daemon : Daemon) :
    Daemon :=
  let scan := scanJobs now daemon.counter daemon.jobs
  let daemon := { daemon with
    jobs := scan.jobs
    counter := scan.counter
    log := daemon.log ++ scan.served
    clock := stamp }
  match scan.found with
  | none => { cleanupJobs blocks daemon with phase := .events }
  | some (.send, job) =>
    { daemon with
      jobs := updateJob job.serial (sendProbe config tv stamp ok) daemon.jobs
      log := daemon.log ++ probeEvents config tv stamp job
      phase := .delay now }
  | some (.expired, job) =>
    { daemon with
      jobs := updateJob job.serial giveUp daemon.jobs
      log := daemon.log ++ [.timedOut job.serial tv] }

inductive Action where
  /-- A packet is received by `ReceivePending`. -/
  | packet (packet : Packet) (tp2 : Timeval) (blocks : Nat → Bool)
  | read (input : Input)
  /-- `SendPending` begins and reads the clock. -/
  | pass (now : Timeval)
  /-- `SendPending` from `retry` on; `tv` and `stamp` are the times of the call and of the packet. -/
  | scan (tv stamp : Timeval) (ok : Bool) (blocks : Nat → Bool)
  /-- `ReceivePending` returns to `SendPending`. -/
  | resume

def exited (daemon : Daemon) : Bool := daemon.eofSeen && daemon.jobs.isEmpty && daemon.phase = .events

def daemonStep (config : Config) (daemon : Daemon) (action : Action) : Daemon :=
  if exited daemon then daemon
  else
    match action, daemon.phase with
    | .packet packet tp2 blocks, .events => receivePacket config packet tp2 blocks daemon
    | .packet packet tp2 blocks, .delay _ => receivePacket config packet tp2 blocks daemon
    | .read input, .events => readJob config input daemon
    | .pass now, .events => { daemon with clock := now, phase := .retry now }
    | .pass now, .ready => { daemon with clock := now, phase := .retry now }
    | .scan tv stamp ok blocks, .retry now => sendPending config now tv stamp ok blocks daemon
    | .resume, .delay now => { daemon with phase := .retry now }
    | _, _ => daemon

end Tnm.Icmp
