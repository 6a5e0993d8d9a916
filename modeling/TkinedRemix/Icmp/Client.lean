import TkinedRemix.Lib.Machine

/-!
The client side of `nmicmpd`: `TnmIcmp` writes one request for each target and reads as many replies, which
arrive in any order.
-/

namespace Tnm.Icmp

open Lib List Function

structure IcmpMsg where
  type : UInt8
  status : UInt8
  flags : UInt8
  tid : Nat
  addr : UInt32
  data : UInt32
deriving DecidableEq

structure Target where
  tid : Nat
  dst : UInt32
  res : UInt32
  data : UInt32
  status : UInt8
  flags : UInt8
deriving DecidableEq

structure Call where
  type : UInt8
  flags : UInt8
  targets : List Target
  replies : List IcmpMsg
deriving DecidableEq

/-- The requests not answered, the replies in the channel, and what was answered and returned so far. -/
structure Client where
  lastTid : Nat
  outstanding : List (Nat × UInt8)
  channel : List IcmpMsg
  call : Option Call
  answered : List IcmpMsg
  returned : List (Bool × Call)

def Client.start : Client := ⟨1, [], [], none, [], []⟩

/-- The `icmp` command with its hosts, an answer of the server, a `Tcl_Read` that finds a reply. -/
inductive ClientAction where
  | icmp (type flags : UInt8) (hosts : List (Option UInt32)) (few : hosts.length < 2147483648)
  | answer (index : Nat) (status flags : UInt8) (addr data : UInt32)
  | read

/-- The loop of `IcmpRequest` over the hosts; `lastTid` is an unsigned number of 32 bits. -/
def numberTargets (lastTid : Nat) : List (Option UInt32) → Option (List Target) × Nat
  | [] => (some [], lastTid)
  | none :: _ => (none, lastTid)
  | some dst :: rest =>
    let (targets, last) := numberTargets ((lastTid + 1) % 4294967296) rest
    (targets.map (⟨lastTid, dst, 0, 0, 0, 0⟩ :: ·), last)

def icmpRequest (type flags : UInt8) (hosts : List (Option UInt32)) (client : Client) : Client :=
  match numberTargets client.lastTid hosts with
  | (none, lastTid) => { client with lastTid, returned := client.returned ++ [(false, ⟨type, flags, [], []⟩)] }
  | (some [], lastTid) => { client with lastTid, returned := client.returned ++ [(true, ⟨type, flags, [], []⟩)] }
  | (some targets, lastTid) =>
    { client with
      lastTid
      outstanding := client.outstanding ++ targets.map fun target => (target.tid, type)
      call := some ⟨type, flags, targets, []⟩ }

def statusGenError : UInt8 := 2

def knownType (type : UInt8) : Bool := type = 1 || type = 2 || type = 3 || type = 4

def fillTarget (flags : UInt8) (msg : IcmpMsg) (target : Target) : Target :=
  { target with
    res := msg.addr
    data := if knownType msg.type then msg.data else target.data
    status := msg.status
    flags := flags &&& msg.flags }

def setResult (flags : UInt8) (msg : IcmpMsg) : List Target → List Target
  | [] => []
  | target :: rest =>
    if target.tid = msg.tid then fillTarget flags msg target :: rest else target :: setResult flags msg rest

def readReply (client : Client) : Client :=
  match client.call, client.channel with
  | some call, msg :: rest =>
    let replies := call.replies ++ [msg]
    if msg.status = statusGenError then
      { client with channel := rest, call := none, returned := client.returned ++ [(false, { call with replies })] }
    else
      let call := { call with targets := setResult call.flags msg call.targets, replies }
      if replies.length < call.targets.length then { client with channel := rest, call := some call }
      else { client with channel := rest, call := none, returned := client.returned ++ [(true, call)] }
  | _, _ => client

def answerRequest (index : Nat) (status flags : UInt8) (addr data : UInt32) (client : Client) : Client :=
  match client.outstanding[index]? with
  | none => client
  | some (tid, type) =>
    let msg : IcmpMsg := ⟨type, status, flags, tid, addr, data⟩
    { client with
      outstanding := client.outstanding.eraseIdx index
      channel := client.channel ++ [msg]
      answered := client.answered ++ [msg] }

def clientStep (client : Client) : ClientAction → Client
  | .icmp type flags hosts _ => if client.call.isSome then client else icmpRequest type flags hosts client
  | .answer index status flags addr data => answerRequest index status flags addr data client
  | .read => readReply client

/-- A reply that says that a message could not be sent is the last one of its call. -/
def ErrorsLast (client : Client) : ClientAction → Prop
  | .read => ∀ call msg rest, client.call = some call → client.channel = msg :: rest → msg.status = statusGenError →
      call.replies.length + 1 = call.targets.length
  | _ => True

structure SetFrom (flags : UInt8) (target : Target) (msg : IcmpMsg) : Prop where
  tid : msg.tid = target.tid
  res : target.res = msg.addr
  status : target.status = msg.status
  flags : target.flags = flags &&& msg.flags
  data : knownType msg.type → target.data = msg.data

theorem numberTargets_tids {lastTid last : Nat} {hosts : List (Option UInt32)} {targets : List Target}
    (small : lastTid < 4294967296) (numbered : numberTargets lastTid hosts = (some targets, last)) :
    targets.map Target.tid = (List.range hosts.length).map fun offset => (lastTid + offset) % 4294967296 := by
  induction hosts generalizing lastTid targets with
  | nil =>
    cases numbered
    rfl
  | cons host rest ih =>
    cases host with
    | none => cases numbered
    | some =>
      rw [numberTargets] at numbered
      generalize tail : numberTargets ((lastTid + 1) % 4294967296) rest = later at numbered
      obtain ⟨found, _⟩ := later
      cases found with
      | none => cases numbered
      | some =>
        cases numbered
        have behind := ih (Nat.mod_lt _ (by decide)) tail
        rw [length_cons, range_succ_eq_map, map_cons, map_cons, List.map_map, behind]
        congr 1
        · exact (Nat.mod_eq_of_lt small).symm
        · refine map_congr_left fun offset _ => ?_
          simp only [Function.comp]
          omega

theorem numberTargets_nodup {lastTid last : Nat} {hosts : List (Option UInt32)} {targets : List Target}
    (small : lastTid < 4294967296) (few : hosts.length < 2147483648)
    (numbered : numberTargets lastTid hosts = (some targets, last)) : (targets.map Target.tid).Nodup := by
  rw [numberTargets_tids small numbered]
  refine List.Nodup.map_on (fun first firstIn second secondIn same => ?_) nodup_range
  rw [mem_range] at firstIn secondIn
  omega

theorem numberTargets_small (lastTid : Nat) (hosts : List (Option UInt32)) (small : lastTid < 4294967296) :
    (numberTargets lastTid hosts).2 < 4294967296 := by
  induction hosts generalizing lastTid with
  | nil => exact small
  | cons host _ ih =>
    cases host with
    | none => exact small
    | some => exact ih _ (Nat.mod_lt _ (by decide))

section

variable {flags : UInt8} {msg : IcmpMsg} {targets : List Target}

theorem setResult_tids (flags : UInt8) (msg : IcmpMsg) (targets : List Target) :
    (setResult flags msg targets).map Target.tid = targets.map Target.tid := by
  induction targets with
  | nil => rfl
  | cons _ _ ih =>
    rw [setResult]
    split_ifs
    · rfl
    · rw [map_cons, map_cons, ih]

theorem setResult_length (flags : UInt8) (msg : IcmpMsg) (targets : List Target) :
    (setResult flags msg targets).length = targets.length := by
  have tids := congrArg List.length (setResult_tids flags msg targets)
  simpa using tids

theorem fillTarget_set (flags : UInt8) {target : Target} (same : target.tid = msg.tid) :
    SetFrom flags (fillTarget flags msg target) msg :=
  ⟨same.symm, rfl, rfl, rfl, fun known => if_pos known⟩

theorem setResult_mem (nodup : (targets.map Target.tid).Nodup) {target : Target}
    (member : target ∈ setResult flags msg targets) :
    (target.tid = msg.tid ∧ SetFrom flags target msg) ∨ (target.tid ≠ msg.tid ∧ target ∈ targets) := by
  induction targets with
  | nil => cases member
  | cons _ _ ih =>
    rw [map_cons, nodup_cons] at nodup
    rw [setResult] at member
    split_ifs at member with same
    · rcases mem_cons.mp member with rfl | later
      · exact .inl ⟨same, fillTarget_set flags same⟩
      · refine .inr ⟨fun equal => nodup.1 ?_, mem_cons_of_mem _ later⟩
        rw [same, ← equal]
        exact List.mem_map_of_mem later
    · rcases mem_cons.mp member with rfl | later
      · exact .inr ⟨same, mem_cons_self⟩
      · rcases ih nodup.2 later with set | ⟨apart, behind⟩
        · exact .inl set
        · exact .inr ⟨apart, mem_cons_of_mem _ behind⟩

end

structure CallOk (outstanding : List (Nat × UInt8)) (channel answered : List IcmpMsg) (call : Call) : Prop where
  nodup : (call.targets.map Target.tid).Nodup
  accounted : (outstanding.map Prod.fst ++ channel.map IcmpMsg.tid ++ call.replies.map IcmpMsg.tid).Perm
    (call.targets.map Target.tid)
  filled : ∀ target ∈ call.targets, target.tid ∈ call.replies.map IcmpMsg.tid →
    ∃ msg ∈ answered, SetFrom call.flags target msg

def AllSet (answered : List IcmpMsg) (call : Call) : Prop :=
  ∀ target ∈ call.targets, ∃ msg ∈ answered, SetFrom call.flags target msg

structure ClientOk (client : Client) : Prop where
  small : client.lastTid < 4294967296
  carried : ∀ msg ∈ client.channel, msg ∈ client.answered
  idle : client.call = none → client.outstanding = [] ∧ client.channel = []
  active : ∀ call, client.call = some call → CallOk client.outstanding client.channel client.answered call
  unfinished : ∀ call, client.call = some call → call.replies.length < call.targets.length
  returned : ∀ call, (true, call) ∈ client.returned → AllSet client.answered call

section

variable {outstanding : List (Nat × UInt8)} {channel answered : List IcmpMsg} {call : Call} {msg : IcmpMsg}

theorem CallOk.answer (ok : CallOk outstanding channel answered call) {index : Nat} {type : UInt8}
    (request : outstanding[index]? = some (msg.tid, type)) :
    CallOk (outstanding.eraseIdx index) (channel ++ [msg]) (answered ++ [msg]) call := by
  refine ⟨ok.nodup, List.Perm.trans (List.Perm.append_right _ ?_) ok.accounted, fun target place read => ?_⟩
  · obtain ⟨within, found⟩ := List.getElem?_eq_some_iff.mp request
    have moved : ((msg.tid, type) :: outstanding.eraseIdx index).Perm outstanding :=
      found ▸ getElem_cons_eraseIdx_perm within
    rw [map_append, ← append_assoc]
    exact (perm_append_singleton _ _).trans ((moved.map Prod.fst).append_right _)
  · obtain ⟨earlier, member, set⟩ := ok.filled target place read
    exact ⟨earlier, mem_append_left _ member, set⟩

theorem perm_moved (outstanding channel replies : List Nat) (tid : Nat) :
    (outstanding ++ channel ++ (replies ++ [tid])).Perm (outstanding ++ tid :: channel ++ replies) := by
  have front : (outstanding ++ tid :: channel ++ replies).Perm (tid :: (outstanding ++ channel ++ replies)) :=
    perm_middle.append_right replies
  rw [← append_assoc]
  exact (perm_append_singleton _ _).trans front.symm

theorem CallOk.read (ok : CallOk outstanding (msg :: channel) answered call) (carried : msg ∈ answered) :
    CallOk outstanding channel answered
      { call with targets := setResult call.flags msg call.targets, replies := call.replies ++ [msg] } := by
  refine ⟨?_, ?_, fun target place read => ?_⟩
  · rw [setResult_tids]
    exact ok.nodup
  · rw [setResult_tids]
    refine List.Perm.trans ?_ ok.accounted
    rw [map_append]
    exact perm_moved _ _ _ _
  · rcases setResult_mem ok.nodup place with ⟨_, set⟩ | ⟨apart, before⟩
    · exact ⟨msg, carried, set⟩
    · refine ok.filled target before ?_
      rw [map_append, mem_append] at read
      exact read.resolve_right fun equal => apart (mem_singleton.mp equal)

theorem CallOk.complete (ok : CallOk outstanding channel answered call)
    (all : call.targets.length ≤ call.replies.length) :
    (outstanding = [] ∧ channel = []) ∧ AllSet answered call := by
  have lengths := ok.accounted.length_eq
  simp only [length_append, length_map] at lengths
  have none : outstanding = [] := length_eq_zero_iff.mp (by omega)
  have empty : channel = [] := length_eq_zero_iff.mp (by omega)
  refine ⟨⟨none, empty⟩, fun target place => ok.filled target place ?_⟩
  have accounted := ok.accounted
  rw [none, empty] at accounted
  exact accounted.mem_iff.mpr (List.mem_map_of_mem place)

end

variable {client : Client}

theorem icmpRequest_ok (type flags : UInt8) {hosts : List (Option UInt32)} (few : hosts.length < 2147483648)
    (ok : ClientOk client) (free : client.call = none) : ClientOk (icmpRequest type flags hosts client) := by
  obtain ⟨none, empty⟩ := ok.idle free
  have small := numberTargets_small client.lastTid hosts ok.small
  unfold icmpRequest
  split
  next lastTid numbered =>
    rw [numbered] at small
    refine ⟨small, ok.carried, ok.idle, ok.active, ok.unfinished, fun call member => ok.returned call ?_⟩
    simpa using member
  next lastTid numbered =>
    rw [numbered] at small
    refine ⟨small, ok.carried, ok.idle, ok.active, ok.unfinished, fun call member => ?_⟩
    rcases mem_append.mp member with before | now
    · exact ok.returned call before
    · cases mem_singleton.mp now
      exact fun target place => by cases place
  next targets lastTid notEmpty numbered =>
    have nodup := numberTargets_nodup ok.small few numbered
    rw [numbered] at small
    refine ⟨small, ok.carried, fun absent => (by cases absent), fun call active => ?_, fun call active => ?_,
      ok.returned⟩
    · cases active
      refine ⟨nodup, ?_, fun target _ member => (by cases member)⟩
      rw [none, empty]
      simp [comp_def]
    · cases active
      exact length_pos_iff.mpr notEmpty

theorem answerRequest_ok (index : Nat) (status flags : UInt8) (addr data : UInt32) (ok : ClientOk client) :
    ClientOk (answerRequest index status flags addr data client) := by
  unfold answerRequest
  split
  · exact ok
  next tid type request =>
    refine ⟨ok.small, ?_, fun free => ?_, fun call active => ?_, ok.unfinished, fun call member target place => ?_⟩
    · intro msg member
      rcases mem_append.mp member with before | now
      · exact mem_append_left _ (ok.carried msg before)
      · exact mem_append_right _ now
    · rw [(ok.idle free).1] at request
      cases request
    · exact (ok.active call active).answer request
    · obtain ⟨msg, before, set⟩ := ok.returned call member target place
      exact ⟨msg, mem_append_left _ before, set⟩

theorem readReply_ok (safe : ErrorsLast client .read) (ok : ClientOk client) : ClientOk (readReply client) := by
  unfold readReply
  split
  next call msg rest active channel =>
    have before := ok.active call active
    rw [channel] at before
    have carried : ∀ msg ∈ rest, msg ∈ client.answered :=
      fun msg member => ok.carried msg (channel ▸ mem_cons_of_mem _ member)
    have after := before.read (ok.carried msg (channel ▸ mem_cons_self))
    dsimp only
    split_ifs with failed more
    · -- the call gives up: nothing is left only because this was its last reply
      have last := safe call msg rest active channel failed
      refine ⟨ok.small, carried, fun _ => (after.complete ?_).1, fun _ none => (by cases none),
        fun _ none => (by cases none),
        fun other member => ok.returned other (by simpa using member)⟩
      rw [setResult_length, length_append]
      exact Nat.le_of_eq last.symm
    · refine ⟨ok.small, carried, fun absent => (by cases absent), fun other found => ?_, fun other found => ?_,
        ok.returned⟩
      · cases found
        exact after
      · cases found
        exact more
    · obtain ⟨nothing, set⟩ := after.complete (Nat.le_of_not_lt more)
      refine ⟨ok.small, carried, fun _ => nothing, fun _ none => (by cases none), fun _ none => (by cases none),
        fun other member => ?_⟩
      rcases mem_append.mp member with earlier | now
      · exact ok.returned other earlier
      · cases mem_singleton.mp now
        exact set
  · exact ok

theorem clientStep_ok (client : Client) (action : ClientAction) (safe : ErrorsLast client action)
    (ok : ClientOk client) :
    ClientOk (clientStep client action) := by
  cases action with
  | icmp type flags _ few =>
    rw [clientStep]
    split_ifs with busy
    · exact ok
    · exact icmpRequest_ok type flags few ok (by simpa using busy)
  | answer index status flags addr data => exact answerRequest_ok index status flags addr data ok
  | read => exact readReply_ok safe ok

/-- A call that succeeds has its own replies, and leaves none behind, if error replies come last. -/
theorem calls_synchronised (actions : List ClientAction) (client : Client)
    (reached : client = run clientStep Client.start actions) (safe : Meets clientStep ErrorsLast Client.start actions) :
    (∀ call, (true, call) ∈ client.returned → AllSet client.answered call) ∧
      (client.call = none → client.outstanding = [] ∧ client.channel = []) := by
  have start : ClientOk Client.start := by constructor <;> simp [Client.start]
  have ok := run_invariant clientStep_ok start safe
  rw [← reached] at ok
  exact ⟨ok.returned, ok.idle⟩

def pinged : List ClientAction :=
  [.icmp 1 0 [some 7, some 8] (by decide), .answer 1 0 0 8 20, .answer 0 0 0 7 10, .read, .read]

theorem calls_synchronised_pinged :
    let client := run clientStep Client.start pinged
    (client.returned.map fun result => (result.1, result.2.targets.map Target.data)) = [(true, [10, 20])] ∧
      client.outstanding = [] ∧ client.channel = [] := by
  refine ⟨by decide, (calls_synchronised pinged _ rfl ?_).2 rfl⟩
  refine ⟨trivial, trivial, trivial, ?_, ?_, trivial⟩
  all_goals
    intro _ _ _ _ channel failed
    injection channel with head
    subst head
    exact absurd failed (by decide)

/-- The first of two replies is an error; the next call reads the second one instead of its own. -/
theorem calls_outOfStep :
    let failed := run clientStep Client.start
      [.icmp 1 0 [some 7, some 8] (by decide), .answer 0 2 0 7 0, .answer 0 0 0 8 20, .read]
    let next := run clientStep failed [.icmp 1 0 [some 9] (by decide), .read]
    (failed.returned.map Prod.fst = [false] ∧ failed.call = none ∧ failed.channel.map IcmpMsg.tid = [2]) ∧
      (next.returned.map Prod.fst = [false, true] ∧ next.outstanding.map Prod.fst = [3] ∧
        next.returned.map (fun result => result.2.targets.map Target.res) = [[0, 0], [0]]) := by
  decide

end Tnm.Icmp
