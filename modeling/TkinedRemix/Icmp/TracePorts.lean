import TkinedRemix.Icmp.DaemonSteps

/-!
The UDP ports of trace jobs. No two of them have the same port, but a message that quotes a datagram is looked
up among the jobs of all types.
-/

namespace Tnm.Icmp

open Lib List

variable {config : Config} {jobs : List Job} {fuel probePort port : Nat}

theorem swapShort_swapShort {x : Nat} (small : x < 65536) : swapShort (swapShort x) = x := by
  have high : x / 256 % 256 = x / 256 := Nat.mod_eq_of_lt (by omega)
  have upper : (x % 256 * 256 + x / 256) / 256 = x % 256 := by
    omega
  rw [swapShort, swapShort, high]
  omega

theorem nextPort_range (probePort : Nat) : basePort ≤ nextPort probePort ∧ nextPort probePort ≤ maxBasePort := by
  unfold nextPort basePort maxBasePort
  split_ifs <;> omega

theorem getFreeUdpPort_free (found : getFreeUdpPort jobs fuel probePort = some port) :
    portInUse jobs port = false ∧ basePort ≤ port ∧ port ≤ maxBasePort := by
  induction fuel generalizing probePort with
  | zero => cases found
  | succ _ ih =>
    rw [getFreeUdpPort] at found
    split_ifs at found with used
    · exact ih found
    · cases found
      exact ⟨by simpa using used, nextPort_range probePort⟩

def portsBefore (port probePort : Nat) : Nat :=
  if nextPort probePort ≤ port then port - nextPort probePort
  else maxBasePort - nextPort probePort + 1 + (port - basePort)

section

variable (lower : basePort ≤ port) (upper : port ≤ maxBasePort)
include lower upper

theorem portsBefore_next (passed : nextPort probePort ≠ port) :
    portsBefore port (nextPort probePort) + 1 = portsBefore port probePort := by
  have range := nextPort_range probePort
  unfold portsBefore
  generalize nextPort probePort = current at *
  unfold nextPort
  split_ifs <;> omega

theorem getFreeUdpPort_found (free : portInUse jobs port = false) (near : portsBefore port probePort < fuel) :
    (getFreeUdpPort jobs fuel probePort).isSome := by
  induction fuel generalizing probePort with
  | zero => cases near
  | succ _ ih =>
    rw [getFreeUdpPort]
    split_ifs with used
    · have passed : nextPort probePort ≠ port := by
        rintro rfl
        cases free.symm.trans used
      have closer := portsBefore_next lower upper passed
      exact ih (by omega)
    · rfl

end

theorem getFreeUdpPort_isSome_iff (more : Nat) : (getFreeUdpPort jobs (portCount + more) probePort).isSome ↔
    ∃ port, portInUse jobs port = false ∧ basePort ≤ port ∧ port ≤ maxBasePort := by
  constructor
  · intro found
    obtain ⟨port, isPort⟩ := Option.isSome_iff_exists.mp found
    exact ⟨port, getFreeUdpPort_free isPort⟩
  · rintro ⟨port, free, lower, upper⟩
    refine getFreeUdpPort_found lower upper free ?_
    have range := nextPort_range probePort
    unfold portsBefore portCount basePort maxBasePort at *
    split_ifs <;> omega

def Apart (first second : Nat) : Prop :=
  first ≠ second ∧ first ≠ swapShort second ∧ swapShort first ≠ second

theorem Apart.symm {first second : Nat} (apart : Apart first second) : Apart second first :=
  ⟨Ne.symm apart.1, Ne.symm apart.2.2, Ne.symm apart.2.1⟩

def TracesApart (first second : Nat × Nat) : Prop :=
  first.1 = icmpTypeTrace → second.1 = icmpTypeTrace → Apart first.2 second.2

def typeAndPort (job : Job) : Nat × Nat := (job.type, job.port)

structure PortsOk (jobs : List Job) : Prop where
  small : ∀ entry ∈ jobs.map typeAndPort, entry.1 = icmpTypeTrace → entry.2 < 65536
  distinct : (jobs.map typeAndPort).Pairwise TracesApart

theorem PortsOk.evolves {later : List Job} (ok : PortsOk jobs) (evolves : Evolves jobs later) : PortsOk later := by
  have sublist : (later.map typeAndPort).Sublist (jobs.map typeAndPort) :=
    evolves.map_sublist fun same => by rw [typeAndPort, typeAndPort, same.type, same.port]
  exact ⟨fun entry member => ok.small entry (sublist.subset member), ok.distinct.sublist sublist⟩

theorem PortsOk.admits {daemon : Daemon} {input : Input} {job : Job} (ok : PortsOk daemon.jobs)
    (admits : Admits config daemon input job) : PortsOk (job :: daemon.jobs) := by
  obtain ⟨request, _, port, -, rfl, place⟩ := admits
  by_cases isTrace : request.type.toNat = icmpTypeTrace
  · rw [if_pos isTrace] at place
    obtain ⟨free, -, upper⟩ := getFreeUdpPort_free place
    have small : port < 65536 := Nat.lt_of_le_of_lt upper (by decide)
    refine ⟨?_, ?_⟩
    · intro entry member trace
      rcases mem_cons.mp member with rfl | later
      · exact small
      · exact ok.small entry later trace
    · refine List.Pairwise.cons ?_ ok.distinct
      intro entry member _ trace
      obtain ⟨other, live, rfl⟩ := List.mem_map.mp member
      have otherSmall : other.port < 65536 := ok.small _ member trace
      -- the search has compared the new port and its swapped form with this one
      have compared : other.port ≠ port ∧ other.port ≠ swapShort port := by
        have unused := List.any_eq_false.mp free other live
        have otherTrace : other.type = icmpTypeTrace := trace
        simpa [otherTrace] using unused
      refine ⟨Ne.symm compared.1, fun equal => compared.2 ?_, Ne.symm compared.2⟩
      have portEq : port = swapShort other.port := equal
      rw [portEq, swapShort_swapShort otherSmall]
  · refine ⟨?_, ?_⟩
    · intro entry member trace
      rcases mem_cons.mp member with rfl | later
      · exact absurd trace isTrace
      · exact ok.small entry later trace
    · exact List.Pairwise.cons (fun _ _ trace => absurd trace isTrace) ok.distinct

theorem daemonStep_ports (daemon : Daemon) (action : Action) (ok : PortsOk daemon.jobs) :
    PortsOk (daemonStep config daemon action).jobs := by
  rcases (daemonStep_inv config daemon action).changes with ⟨evolves, -⟩ | ⟨_, _, -, admits, jobs, -⟩
  · exact ok.evolves evolves
  · exact jobs ▸ ok.admits admits

theorem run_ports (config : Config) (actions : List Action) :
    PortsOk (run (daemonStep config) Daemon.start actions).jobs :=
  run_always (fun daemon : Daemon => PortsOk daemon.jobs) daemonStep_ports ⟨by simp [Daemon.start], .nil⟩ actions

/-- The quoted port is the job's, in either byte order. -/
def Quotes (packet : Packet) (job : Job) : Prop :=
  job.port = packet.uhDport.toNat ∨ job.port = swapShort packet.uhDport.toNat

instance (packet : Packet) (job : Job) : Decidable (Quotes packet job) := inferInstanceAs (Decidable (_ ∨ _))

theorem Apart.not_quotes {first second quoted : Nat} (apart : Apart first second) (small : quoted < 65536)
    (left : first = quoted ∨ first = swapShort quoted) (right : second = quoted ∨ second = swapShort quoted) :
    False := by
  obtain ⟨different, swapped, -⟩ := apart
  rcases left with rfl | rfl <;> rcases right with rfl | rfl
  · exact different rfl
  · exact swapped (swapShort_swapShort small).symm
  · exact swapped rfl
  · exact different rfl

theorem portMatches_quotes {packet : Packet} {job : Job} (found : portMatches config packet job = true) :
    Quotes packet job := by
  unfold portMatches at found
  simp only [Bool.or_eq_true, Bool.and_eq_true, decide_eq_true_eq] at found
  tauto

theorem creditedJob_inv {packet : Packet} {job : Job} {type : Nat} {final : Bool}
    (credited : creditedJob config jobs packet = some (job, type, final)) :
    findJob config jobs packet type = some job ∧ job.done = false := by
  simp only [creditedJob, guard, Option.bind_eq_bind, Option.bind_eq_some_iff] at credited
  obtain ⟨_, _, ⟨_, _⟩, _, _, located, _, unfinished, _, _, same⟩ := credited
  cases same
  refine ⟨located, ?_⟩
  split_ifs at unfinished with notDone
  simpa using notDone

theorem findJob_mem {packet : Packet} {type : Nat} {job : Job} (found : findJob config jobs packet type = some job) :
    job ∈ jobs := by
  unfold findJob at found
  split_ifs at found <;> exact mem_of_find?_eq_some found

/-- The ports of two trace jobs differ in either byte order, and a message finds the job it belongs to. -/
theorem tracePorts_distinct (config : Config) (actions : List Action) (daemon : Daemon)
    (reached : daemon = run (daemonStep config) Daemon.start actions) : (daemon.jobs.Pairwise fun first second =>
        first.type = icmpTypeTrace → second.type = icmpTypeTrace → Apart first.port second.port) ∧
      ∀ packet, (∀ job ∈ daemon.jobs, Quotes packet job → job.type = icmpTypeTrace) →
        ∀ job final, creditedJob config daemon.jobs packet = some (job, icmpTypeTrace, final) →
          job ∈ daemon.jobs ∧ job.type = icmpTypeTrace ∧ Quotes packet job ∧
            ∀ other ∈ daemon.jobs, Quotes packet other → other = job := by
  have ok : PortsOk daemon.jobs := reached ▸ run_ports config actions
  have distinct := pairwise_map.mp ok.distinct
  refine ⟨distinct, fun packet onlyTraces job final credited => ?_⟩
  have located : daemon.jobs.find? (portMatches config packet) = some job := (creditedJob_inv credited).1
  have live := mem_of_find?_eq_some located
  have quotes := portMatches_quotes (find?_some located)
  refine ⟨live, onlyTraces job live quotes, quotes, fun other otherLive otherQuotes => ?_⟩
  by_contra different
  have symmetric : Std.Symm fun first second : Job => TracesApart (typeAndPort first) (typeAndPort second) :=
    ⟨fun _ _ apart left right => (apart right left).symm⟩
  have apart := distinct.forall otherLive live different (onlyTraces other otherLive otherQuotes)
    (onlyTraces job live quotes)
  exact apart.not_quotes packet.uhDport.toNat_lt otherQuotes quotes

def sampleConfig : Config := ⟨255, 65536, false, true, 40000, true⟩

def sampleRequest (type size : UInt8) : Request := ⟨0, type, 1, 7, 1, 0, size.toUInt16, 0⟩

def tenSeconds : Timeval := ⟨10, 0, Nat.succ_pos _⟩

def served (type : UInt8) (leftover : Nat) : List Action :=
  [.read (.command (sampleRequest type 64) leftover true), .pass tenSeconds,
    .scan tenSeconds tenSeconds true fun _ => false, .resume, .scan tenSeconds tenSeconds true fun _ => false]

def unreachable : Packet := ⟨false, 3, 3, 0, 7, 40000, 50000, .zero, (0, 0)⟩

theorem tracePorts_distinct_served :
    ∃ job final, creditedJob sampleConfig (run (daemonStep sampleConfig) Daemon.start (served 4 0 ++ served 1 0)).jobs
        unreachable = some (job, icmpTypeTrace, final) ∧ job.type = icmpTypeTrace := by
  refine ⟨_, _, rfl, ?_⟩
  exact ((tracePorts_distinct sampleConfig (served 4 0 ++ served 1 0) _ rfl).2 unreachable (by decide) _ _ rfl).2.1

/-- The port field of an echo job still holds the port of the trace job read before it. -/
theorem unreachable_creditedToEcho :
    let jobs := (run (daemonStep sampleConfig) Daemon.start (served 4 0 ++ served 1 50000)).jobs
    jobs.map typeAndPort = [(icmpTypeEcho, 50000), (icmpTypeTrace, 50000)] ∧
      (creditedJob sampleConfig jobs unreachable).map (fun credited => credited.1.type) = some icmpTypeEcho := by
  decide

end Tnm.Icmp
