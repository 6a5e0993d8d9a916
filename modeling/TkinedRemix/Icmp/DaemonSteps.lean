import TkinedRemix.Icmp.DaemonCore
import TkinedRemix.Lib.Machine

/-!
What a step of the server can do to its jobs. A job keeps its identity until it is removed.
-/

namespace Tnm.Icmp

open Lib List

variable {config : Config} {daemon after : Daemon} {action : Action}

inductive DaemonTurn (config : Config) (daemon : Daemon) : Action → Daemon → Prop
  | nothing (action : Action) : DaemonTurn config daemon action daemon
  | packet (packet : Packet) (tp2 : Timeval) (blocks : Nat → Bool)
      (receiving : daemon.phase = .events ∨ ∃ now, daemon.phase = .delay now) :
      DaemonTurn config daemon (.packet packet tp2 blocks) (receivePacket config packet tp2 blocks daemon)
  | read (input : Input) (waiting : daemon.phase = .events) :
      DaemonTurn config daemon (.read input) (readJob config input daemon)
  | pass (now : Timeval) (waiting : daemon.phase = .events ∨ daemon.phase = .ready) :
      DaemonTurn config daemon (.pass now) { daemon with clock := now, phase := .retry now }
  | scan (now tv stamp : Timeval) (ok : Bool) (blocks : Nat → Bool) (scanning : daemon.phase = .retry now) :
      DaemonTurn config daemon (.scan tv stamp ok blocks) (sendPending config now tv stamp ok blocks daemon)
  | resume (now : Timeval) (receiving : daemon.phase = .delay now) :
      DaemonTurn config daemon .resume { daemon with phase := .retry now }

theorem daemonStep_inv (config : Config) (daemon : Daemon) (action : Action) :
    DaemonTurn config daemon action (daemonStep config daemon action) := by
  unfold daemonStep
  split_ifs
  · exact .nothing action
  · split
    next packet tp2 blocks waiting => exact .packet packet tp2 blocks (.inl waiting)
    next packet tp2 blocks now waiting => exact .packet packet tp2 blocks (.inr ⟨now, waiting⟩)
    next input waiting => exact .read input waiting
    next now waiting => exact .pass now (.inl waiting)
    next now waiting => exact .pass now (.inr waiting)
    next tv stamp ok blocks now scanning => exact .scan now tv stamp ok blocks scanning
    next now receiving => exact .resume now receiving
    · exact .nothing _

def Served (job served : Job) : Prop :=
  served = job ∨ (job.inServe = false ∧ served = { job with inServe := true })

theorem grant_served (counter : Int) (job : Job) : Served job (job.grant counter).2.2 := by
  unfold Job.grant
  split_ifs with fits
  · refine .inr ⟨?_, rfl⟩
    simp only [Job.fits, Bool.and_eq_true, Bool.not_eq_true'] at fits
    exact fits.1
  · exact .inl rfl

section

variable (now : Timeval) (counter : Int) (jobs : List Job)

theorem scanJobs_served : List.Forall₂ Served jobs (scanJobs now counter jobs).jobs := by
  induction jobs generalizing counter with
  | nil => exact .nil
  | cons job _ ih =>
    rw [scanJobs]
    dsimp only
    split
    · exact .cons (grant_served counter job) (forall₂_same.mpr fun job _ => .inl rfl)
    · exact .cons (grant_served counter job) (ih _)

theorem scanJobs_found {due : Due} {job : Job} (found : (scanJobs now counter jobs).found = some (due, job)) :
    job ∈ (scanJobs now counter jobs).jobs ∧ job.due now = some due := by
  induction jobs generalizing counter with
  | nil => cases found
  | cons first _ ih =>
    rw [scanJobs] at found ⊢
    generalize first.grant counter = turn at found
    obtain ⟨_, _, first⟩ := turn
    dsimp only at found ⊢
    cases isDue : first.due now with
    | some =>
      rw [isDue] at found
      cases found
      exact ⟨mem_cons_self, isDue⟩
    | none =>
      rw [isDue] at found
      obtain ⟨member, jobDue⟩ := ih _ found
      exact ⟨mem_cons_of_mem _ member, jobDue⟩

theorem due_inServe {job : Job} {due : Due} (isDue : job.due now = some due) :
    job.inServe = true ∧ job.done = false := by
  unfold Job.due at isDue
  split_ifs at isDue with idle <;> simpa using idle

end

structure Same (job later : Job) : Prop where
  serial : later.serial = job.serial
  type : later.type = job.type
  id : later.id = job.id
  port : later.port = job.port
  window : later.window = job.window
  retries : later.retries = job.retries
  retryIval : later.retryIval = job.retryIval

theorem Same.refl (job : Job) : Same job job := ⟨rfl, rfl, rfl, rfl, rfl, rfl, rfl⟩

theorem Same.trans {first second third : Job} (left : Same first second) (right : Same second third) :
    Same first third :=
  ⟨right.serial.trans left.serial, right.type.trans left.type, right.id.trans left.id, right.port.trans left.port,
    right.window.trans left.window, right.retries.trans left.retries, right.retryIval.trans left.retryIval⟩

variable {job : Job}

theorem Served.same {served : Job} (relation : Served job served) : Same job served := by
  rcases relation with rfl | ⟨_, rfl⟩
  · exact .refl _
  · exact ⟨rfl, rfl, rfl, rfl, rfl, rfl, rfl⟩

theorem credit_same (type : Nat) (final : Bool) (packet : Packet) (tp2 : Timeval) (job : Job) :
    Same job (credit type final packet tp2 job) := ⟨rfl, rfl, rfl, rfl, rfl, rfl, rfl⟩

theorem sendPacket_same {later : Job} (same : Same job later) (ok : Bool) : Same job (sendPacket ok later) := by
  unfold sendPacket
  split_ifs
  · exact same
  · exact same.trans ⟨rfl, rfl, rfl, rfl, rfl, rfl, rfl⟩

theorem sendProbe_same (config : Config) (tv stamp : Timeval) (ok : Bool) (job : Job) :
    Same job (sendProbe config tv stamp ok job) := by
  unfold sendProbe sendTrace sendIcmp
  split_ifs
  · refine sendPacket_same ?_ ok
    exact ⟨rfl, rfl, rfl, rfl, rfl, rfl, rfl⟩
  · exact ⟨rfl, rfl, rfl, rfl, rfl, rfl, rfl⟩
  · refine sendPacket_same ?_ ok
    exact ⟨rfl, rfl, rfl, rfl, rfl, rfl, rfl⟩

theorem sendProbe_inServe (config : Config) (tv stamp : Timeval) (ok : Bool) (job : Job) :
    (sendProbe config tv stamp ok job).inServe = job.inServe := by
  unfold sendProbe sendTrace sendIcmp sendPacket
  split_ifs <;> rfl

theorem giveUp_same (job : Job) : Same job (giveUp job) := ⟨rfl, rfl, rfl, rfl, rfl, rfl, rfl⟩

variable {serial : Nat} {jobs : List Job}

theorem updateJob_related {relation : Job → Job → Prop} {change : Job → Job}
    (changed : ∀ job ∈ jobs, job.serial = serial → relation job (change job))
    (kept : ∀ job ∈ jobs, job.serial ≠ serial → relation job job) :
    List.Forall₂ relation jobs (updateJob serial change jobs) := by
  rw [updateJob, forall₂_map_right_iff, forall₂_same]
  intro job member
  split_ifs with same
  · exact changed job member same
  · exact kept job member same

theorem updateJob_same {change : Job → Job} (changed : ∀ job, Same job (change job)) (jobs : List Job) :
    List.Forall₂ Same jobs (updateJob serial change jobs) :=
  updateJob_related (fun job _ _ => changed job) (fun job _ _ => .refl job)

def Evolves (jobs later : List Job) : Prop := List.SublistForall₂ (flip Same) later jobs

instance : Std.Refl (flip Same) := ⟨Same.refl⟩

instance : IsTrans Job (flip Same) := ⟨fun _ _ _ right left => Same.trans left right⟩

theorem Evolves.of_changed {changed : List Job} (related : List.Forall₂ Same jobs changed) : Evolves jobs changed :=
  sublistForall₂_iff.mpr ⟨jobs, related.flip, List.Sublist.refl jobs⟩

variable {later : List Job}

theorem Evolves.of_sublist (sublist : later.Sublist jobs) : Evolves jobs later :=
  sublist.sublistForall₂

theorem Evolves.trans {first second third : List Job} (left : Evolves first second) (right : Evolves second third) :
    Evolves first third :=
  IsTrans.trans third second first right left

theorem Evolves.map_sublist {β : Type} (evolves : Evolves jobs later) {view : Job → β}
    (fixed : ∀ {job changed}, Same job changed → view changed = view job) :
    (later.map view).Sublist (jobs.map view) := by
  obtain ⟨kept, related, sublist⟩ := sublistForall₂_iff.mp evolves
  have equal : later.map view = kept.map view := by
    clear sublist evolves
    induction related with
    | nil => rfl
    | cons same _ ih => rw [map_cons, map_cons, fixed same, ih]
  exact equal ▸ sublist.map view

theorem Evolves.mem (evolves : Evolves jobs later) (member : job ∈ later) : ∃ earlier ∈ jobs, Same earlier job := by
  induction evolves with
  | nil => cases member
  | cons same _ ih =>
    rcases mem_cons.mp member with rfl | later
    · exact ⟨_, mem_cons_self, same⟩
    · obtain ⟨earlier, found, same⟩ := ih later
      exact ⟨earlier, mem_cons_of_mem _ found, same⟩
  | cons_right _ ih =>
    obtain ⟨earlier, found, same⟩ := ih member
    exact ⟨earlier, mem_cons_of_mem _ found, same⟩

theorem cleanupJobs_evolves (blocks : Nat → Bool) (daemon : Daemon) :
    Evolves daemon.jobs (cleanupJobs blocks daemon).jobs :=
  .of_sublist filter_sublist

theorem receivePacket_evolves (packet : Packet) (tp2 : Timeval) (blocks : Nat → Bool) (daemon : Daemon) :
    Evolves daemon.jobs (receivePacket config packet tp2 blocks daemon).jobs := by
  unfold receivePacket
  dsimp only
  split
  · exact .of_sublist (List.Sublist.refl _)
  · exact (Evolves.of_changed (updateJob_same (credit_same _ _ _ _) _)).trans (cleanupJobs_evolves _ _)

theorem scanJobs_evolves (now : Timeval) (daemon : Daemon) :
    Evolves daemon.jobs (scanJobs now daemon.counter daemon.jobs).jobs :=
  .of_changed ((scanJobs_served now daemon.counter daemon.jobs).imp fun _ _ => Served.same)

theorem sendPending_evolves (now tv stamp : Timeval) (ok : Bool) (blocks : Nat → Bool) (daemon : Daemon) :
    Evolves daemon.jobs (sendPending config now tv stamp ok blocks daemon).jobs := by
  have scanned := scanJobs_evolves now daemon
  unfold sendPending
  dsimp only
  split
  · exact scanned.trans (cleanupJobs_evolves _ _)
  · exact scanned.trans (.of_changed (updateJob_same (sendProbe_same _ _ _ _) _))
  · exact scanned.trans (.of_changed (updateJob_same giveUp_same _))

theorem receivePacket_frame (packet : Packet) (tp2 : Timeval) (blocks : Nat → Bool) (daemon : Daemon) :
    let after := receivePacket config packet tp2 blocks daemon
    after.serials = daemon.serials ∧ after.clock = tp2 ∧ after.phase = daemon.phase := by
  unfold receivePacket
  dsimp only
  split <;> exact ⟨rfl, rfl, rfl⟩

theorem sendPending_frame (now tv stamp : Timeval) (ok : Bool) (blocks : Nat → Bool) (daemon : Daemon) :
    let after := sendPending config now tv stamp ok blocks daemon
    after.serials = daemon.serials ∧ after.clock = stamp ∧
      (after.phase = .events ∨ after.phase = .delay now ∨ after.phase = daemon.phase) := by
  unfold sendPending
  dsimp only
  split
  · exact ⟨rfl, rfl, .inl rfl⟩
  · exact ⟨rfl, rfl, .inr (.inl rfl)⟩
  · exact ⟨rfl, rfl, .inr (.inr rfl)⟩

def Quiet : Event → Prop
  | .credited _ | .replied _ _ | .rejected _ => True
  | _ => False

def GrowsQuietly (before after : List Event) : Prop := ∃ added, after = before ++ added ∧ ∀ event ∈ added, Quiet event

theorem cleanupJobs_log (blocks : Nat → Bool) (daemon : Daemon) :
    GrowsQuietly daemon.log (cleanupJobs blocks daemon).log := by
  refine ⟨_, rfl, fun event member => ?_⟩
  obtain ⟨_, _, rfl⟩ := List.mem_map.mp member
  exact trivial

theorem receivePacket_log (config : Config) (packet : Packet) (tp2 : Timeval) (blocks : Nat → Bool) (daemon : Daemon) :
    GrowsQuietly daemon.log (receivePacket config packet tp2 blocks daemon).log := by
  unfold receivePacket
  dsimp only
  split
  · exact ⟨[], (append_nil _).symm, by simp⟩
  next job type final _ =>
    obtain ⟨replies, log, quiet⟩ := cleanupJobs_log blocks { daemon with
      clock := tp2
      jobs := updateJob job.serial (credit type final packet tp2) daemon.jobs
      log := daemon.log ++ [.credited job.serial] }
    refine ⟨.credited job.serial :: replies, ?_, ?_⟩
    · rw [log, append_assoc, singleton_append]
    · exact forall_mem_cons.mpr ⟨trivial, quiet⟩

variable {event : Event}

theorem GrowsQuietly.mem_iff {before after : List Event} (grows : GrowsQuietly before after) (loud : ¬ Quiet event) :
    event ∈ after ↔ event ∈ before := by
  obtain ⟨_, rfl, quiet⟩ := grows
  rw [mem_append]
  exact ⟨fun either => either.resolve_right fun member => loud (quiet event member), .inl⟩

theorem grant_log {counter : Int} (member : event ∈ (job.grant counter).2.1) :
    job.fits counter ∧ event = .served job.serial job.window counter := by
  unfold Job.grant at member
  split_ifs at member with fits
  · exact ⟨fits, mem_singleton.mp member⟩
  · cases member

theorem scanJobs_log (now : Timeval) (counter : Int) (jobs : List Job)
    (member : event ∈ (scanJobs now counter jobs).served) :
    ∃ serial window counter, event = .served serial window counter := by
  induction jobs generalizing counter with
  | nil => cases member
  | cons _ _ ih =>
    rw [scanJobs] at member
    dsimp only at member
    split at member
    · exact ⟨_, _, _, (grant_log member).2⟩
    · rcases mem_append.mp member with place | place
      · exact ⟨_, _, _, (grant_log place).2⟩
      · exact ih _ place

theorem readJob_phase (config : Config) (input : Input) (daemon : Daemon) :
    (readJob config input daemon).phase = .ready ∨ (readJob config input daemon).phase = .stuck := by
  unfold readJob
  dsimp only
  split
  · exact .inl rfl
  · exact .inl rfl
  · split
    · exact .inr rfl
    · split_ifs <;> exact .inl rfl

def Admits (config : Config) (daemon : Daemon) (input : Input) (job : Job) : Prop :=
  ∃ request leftover port, input = .command request leftover true ∧
    job = newJob config request daemon.serials (nextIdent config daemon) port ∧
    if request.type.toNat = icmpTypeTrace then getFreeUdpPort daemon.jobs portCount daemon.probePort = some port
    else port = leftover

inductive ReadDone (config : Config) (daemon : Daemon) (input : Input) (after : Daemon) : Prop
  | skipped (jobs : after.jobs = daemon.jobs) (serials : after.serials = daemon.serials) (log : after.log = daemon.log)
      (counter : after.counter = daemon.counter)
  | rejected (request : Request) (leftover : Nat) (memory : Bool) (read : input = .command request leftover memory)
      (lacking : memory = false ∨
        (request.type.toNat = icmpTypeTrace ∧ getFreeUdpPort daemon.jobs portCount daemon.probePort = none))
      (jobs : after.jobs = daemon.jobs) (serials : after.serials = daemon.serials)
      (log : after.log = daemon.log ∨ after.log = daemon.log ++ [.rejected request.tid])
  | admitted (job : Job) (admits : Admits config daemon input job) (jobs : after.jobs = job :: daemon.jobs)
      (serials : after.serials = daemon.serials + 1)
      (log : after.log = daemon.log ++ [.arrived job.serial job.retries job.retryIval])
      (counter : after.counter = if job.inServe then daemon.counter + 1 else daemon.counter)
      (phase : after.phase = .ready)

theorem readJob_done (config : Config) (input : Input) (daemon : Daemon) :
    ReadDone config daemon input (readJob config input daemon) := by
  cases input with
  | eof | partialRead => exact .skipped rfl rfl rfl rfl
  | command request leftover memory =>
    unfold readJob
    dsimp only
    split
    next lacking =>
      split_ifs at lacking with isTrace
      exact .rejected request leftover memory rfl (.inr ⟨isTrace, lacking⟩) rfl rfl (.inl rfl)
    next port found =>
      cases memory with
      | false =>
        rw [if_neg (by decide)]
        split_ifs <;> exact .rejected request leftover false rfl (.inl rfl) rfl rfl (.inr rfl)
      | true =>
        have admits : Admits config daemon (.command request leftover true)
            (newJob config request daemon.serials (nextIdent config daemon) port) := by
          refine ⟨request, leftover, port, rfl, rfl, ?_⟩
          split_ifs at found ⊢
          · exact found
          · exact (Option.some.inj found).symm
        have counter : (if request.window.toNat = 0 then daemon.counter + 1 else daemon.counter) =
            if (newJob config request daemon.serials (nextIdent config daemon) port).inServe
            then daemon.counter + 1 else daemon.counter := by
          simp [newJob]
        by_cases isTrace : request.type.toNat = icmpTypeTrace
        · simp only [if_pos isTrace]
          exact .admitted _ admits rfl rfl rfl counter rfl
        · simp only [if_neg isTrace]
          exact .admitted _ admits rfl rfl rfl counter rfl

theorem DaemonTurn.changes (turn : DaemonTurn config daemon action after) :
    (Evolves daemon.jobs after.jobs ∧ after.serials = daemon.serials) ∨
      ∃ input job, action = .read input ∧ Admits config daemon input job ∧ after.jobs = job :: daemon.jobs ∧
        after.serials = daemon.serials + 1 := by
  have same : Evolves daemon.jobs daemon.jobs := .of_sublist (List.Sublist.refl _)
  cases turn with
  | nothing | pass | resume => exact .inl ⟨same, rfl⟩
  | packet packet tp2 blocks =>
    exact .inl ⟨receivePacket_evolves packet tp2 blocks daemon, (receivePacket_frame packet tp2 blocks daemon).1⟩
  | read input =>
    cases readJob_done config input daemon with
    | skipped jobs serials | rejected _ _ _ _ _ jobs serials => exact .inl ⟨jobs ▸ same, serials⟩
    | admitted job admits jobs serials => exact .inr ⟨input, job, rfl, admits, jobs, serials⟩
  | scan now tv stamp ok blocks =>
    exact .inl ⟨sendPending_evolves now tv stamp ok blocks daemon, (sendPending_frame now tv stamp ok blocks daemon).1⟩

theorem probeEvents_mem {tv stamp : Timeval} (member : event ∈ probeEvents config tv stamp job) :
    ∃ time, event = .sent job.serial job.id time := by
  unfold probeEvents at member
  split_ifs at member
  · exact ⟨_, mem_singleton.mp member⟩
  · cases member
  · exact ⟨_, mem_singleton.mp member⟩

theorem sendPending_sent {now tv stamp : Timeval} {ok : Bool} {blocks : Nat → Bool} {id : Nat} {time : Timeval}
    (sent : .sent serial id time ∈ (sendPending config now tv stamp ok blocks daemon).log) :
    .sent serial id time ∈ daemon.log ∨ ∃ job ∈ daemon.jobs, job.serial = serial ∧ job.id = id := by
  have scanned : .sent serial id time ∈ daemon.log ++ (scanJobs now daemon.counter daemon.jobs).served →
      .sent serial id time ∈ daemon.log := by
    intro member
    rcases mem_append.mp member with before | served
    · exact before
    · obtain ⟨_, _, _, equal⟩ := scanJobs_log _ _ _ served
      cases equal
  unfold sendPending at sent
  dsimp only at sent
  split at sent
  · exact .inl (scanned (((cleanupJobs_log blocks _).mem_iff (by simp [Quiet])).mp sent))
  next job found =>
    rcases mem_append.mp sent with before | probe
    · exact .inl (scanned before)
    · obtain ⟨_, equal⟩ := probeEvents_mem probe
      cases equal
      obtain ⟨earlier, live, same⟩ := (scanJobs_evolves now daemon).mem (scanJobs_found _ _ _ found).1
      exact .inr ⟨earlier, live, same.serial.symm, same.id.symm⟩
  · rcases mem_append.mp sent with before | expired
    · exact .inl (scanned before)
    · cases mem_singleton.mp expired

theorem DaemonTurn.sent {id : Nat} {time : Timeval} (turn : DaemonTurn config daemon action after)
    (sent : .sent serial id time ∈ after.log) :
    .sent serial id time ∈ daemon.log ∨ ∃ job ∈ daemon.jobs, job.serial = serial ∧ job.id = id := by
  cases turn with
  | nothing | pass | resume => exact .inl sent
  | packet packet tp2 blocks =>
    exact .inl (((receivePacket_log config packet tp2 blocks daemon).mem_iff (by simp [Quiet])).mp sent)
  | read input =>
    left
    cases readJob_done config input daemon with
    | skipped _ _ log => rwa [log] at sent
    | rejected _ _ _ _ _ _ _ log => rcases log with log | log <;> simpa [log] using sent
    | admitted _ _ _ _ log => simpa [log] using sent
  | scan => exact sendPending_sent sent

structure SerialsOk (daemon : Daemon) : Prop where
  below : ∀ job ∈ daemon.jobs, job.serial < daemon.serials
  distinct : (daemon.jobs.map Job.serial).Nodup
  sentBelow : ∀ serial id time, .sent serial id time ∈ daemon.log → serial < daemon.serials
  own : ∀ serial id time, .sent serial id time ∈ daemon.log → ∀ job ∈ daemon.jobs, job.serial = serial → job.id = id

theorem SerialsOk.scanned (ok : SerialsOk daemon) (now : Timeval) :
    ((scanJobs now daemon.counter daemon.jobs).jobs.map Job.serial).Nodup :=
  ok.distinct.sublist ((scanJobs_evolves now daemon).map_sublist Same.serial)

theorem SerialsOk.step (ok : SerialsOk daemon) (turn : DaemonTurn config daemon action after) : SerialsOk after := by
  have sentBefore : ∀ serial id time, .sent serial id time ∈ after.log → serial < daemon.serials ∧ ∀ job ∈ daemon.jobs,
      job.serial = serial → job.id = id := by
    intro serial id time sent
    rcases turn.sent sent with before | ⟨sender, live, rfl, rfl⟩
    · exact ⟨ok.sentBelow serial id time before, ok.own serial id time before⟩
    · refine ⟨ok.below sender live, fun job jobLive same => ?_⟩
      rw [inj_on_of_nodup_map ok.distinct jobLive live same]
  rcases turn.changes with ⟨evolves, serials⟩ | ⟨_, job, -, admits, jobs, serials⟩
  · refine ⟨fun job live => ?_, ?_, fun serial id time sent => ?_, fun serial id time sent job live same => ?_⟩
    · obtain ⟨earlier, earlierLive, kept⟩ := evolves.mem live
      rw [serials, kept.serial]
      exact ok.below earlier earlierLive
    · exact ok.distinct.sublist (evolves.map_sublist Same.serial)
    · rw [serials]
      exact (sentBefore serial id time sent).1
    · obtain ⟨earlier, earlierLive, kept⟩ := evolves.mem live
      rw [kept.id]
      exact (sentBefore serial id time sent).2 earlier earlierLive (kept.serial ▸ same)
  · have fresh : job.serial = daemon.serials := by
      obtain ⟨_, _, _, -, rfl, -⟩ := admits
      rfl
    refine ⟨fun other live => ?_, ?_, fun serial id time sent => ?_, fun serial id time sent other live same => ?_⟩
    · rw [jobs] at live
      rw [serials]
      rcases mem_cons.mp live with rfl | before
      · rw [fresh]
        exact Nat.lt_succ_self _
      · exact Nat.lt_succ_of_lt (ok.below other before)
    · rw [jobs, map_cons, nodup_cons]
      refine ⟨fun member => ?_, ok.distinct⟩
      obtain ⟨other, live, _⟩ := List.mem_map.mp member
      exact absurd (ok.below other live) (by omega)
    · rw [serials]
      exact Nat.lt_succ_of_lt (sentBefore serial id time sent).1
    · rw [jobs] at live
      obtain ⟨_, own⟩ := sentBefore serial id time sent
      rcases mem_cons.mp live with rfl | before
      · omega
      · exact own other before same

theorem run_serials (config : Config) (actions : List Action) :
    SerialsOk (run (daemonStep config) Daemon.start actions) := by
  have initial : SerialsOk .start := by constructor <;> simp [Daemon.start]
  exact run_always SerialsOk (fun _ action ok => ok.step (daemonStep_inv _ _ action)) initial actions

theorem serials_eq (related : List.Forall₂ Same jobs later) : later.map Job.serial = jobs.map Job.serial := by
  rw [← forall₂_eq_eq_eq, forall₂_map_left_iff, forall₂_map_right_iff]
  exact related.flip.imp fun _ _ => Same.serial

def repliedTo : Event → Option Nat
  | .replied serial _ => some serial
  | _ => none

def accounted (daemon : Daemon) : List Nat := daemon.log.filterMap repliedTo ++ daemon.jobs.map Job.serial

theorem cleanupJobs_accounted (blocks : Nat → Bool) :
    (accounted (cleanupJobs blocks daemon)).Perm (accounted daemon) := by
  have replies (jobs : List Job) : (jobs.map Job.reply).filterMap repliedTo = jobs.map Job.serial := by
    rw [filterMap_map, ← filterMap_eq_map]
    rfl
  rw [accounted, cleanupJobs, filterMap_append, replies, append_assoc, ← map_append]
  exact ((filter_append_perm ..).map _).append_left _

theorem sendPending_accounted (now tv stamp : Timeval) (ok : Bool) (blocks : Nat → Bool) :
    (accounted (sendPending config now tv stamp ok blocks daemon)).Perm (accounted daemon) := by
  have same := serials_eq ((scanJobs_served now daemon.counter daemon.jobs).imp fun _ _ => Served.same)
  have silent : (scanJobs now daemon.counter daemon.jobs).served.filterMap repliedTo = [] := by
    refine filterMap_eq_nil_iff.mpr fun _ member => ?_
    obtain ⟨_, _, _, rfl⟩ := scanJobs_log _ _ _ member
    rfl
  unfold sendPending
  dsimp only
  split
  · refine (cleanupJobs_accounted blocks).trans (.of_eq ?_)
    simp [accounted, same, silent]
  next job _ =>
    have probe : (probeEvents config tv stamp job).filterMap repliedTo = [] := by
      unfold probeEvents
      split_ifs <;> rfl
    simp [accounted, serials_eq (updateJob_same (sendProbe_same _ _ _ _) _), same, silent, probe]
  · simp [accounted, serials_eq (updateJob_same giveUp_same _), same, silent, filterMap_cons, repliedTo]

theorem DaemonTurn.replies (turn : DaemonTurn config daemon action after)
    (all : (accounted daemon).Perm (range daemon.serials)) : (accounted after).Perm (range after.serials) := by
  cases turn with
  | nothing | pass | resume => exact all
  | packet packet tp2 blocks =>
    rw [(receivePacket_frame packet tp2 blocks daemon).1]
    refine Perm.trans ?_ all
    unfold receivePacket
    dsimp only
    split
    · rfl
    · refine (cleanupJobs_accounted blocks).trans (.of_eq ?_)
      simp [accounted, serials_eq (updateJob_same (credit_same _ _ _ _) _), filterMap_cons, repliedTo]
  | read input =>
    rw [accounted] at all ⊢
    cases readJob_done config input daemon with
    | skipped jobs serials log => rwa [serials, jobs, log]
    | rejected _ _ _ _ _ jobs serials log =>
      rw [serials, jobs]
      rcases log with log | log <;> simpa [log, filterMap_cons, repliedTo] using all
    | admitted _ admits jobs serials log =>
      obtain ⟨_, _, _, -, rfl, -⟩ := admits
      rw [serials, range_succ, jobs, log, filterMap_append, filterMap_cons_none rfl, filterMap_nil, append_nil]
      exact perm_middle.trans ((all.cons _).trans (perm_append_singleton ..).symm)
  | scan now tv stamp ok blocks =>
    rw [(sendPending_frame now tv stamp ok blocks daemon).1]
    exact (sendPending_accounted now tv stamp ok blocks).trans all

/-- Every request that is taken is either waiting or answered, and answered only once. -/
theorem replies_accounted (config : Config) (actions : List Action) :
    (accounted (run (daemonStep config) .start actions)).Perm
      (range (run (daemonStep config) .start actions).serials) :=
  run_always (fun daemon => (accounted daemon).Perm (range daemon.serials))
    (fun _ action all => (daemonStep_inv _ _ action).replies all) (.refl _) actions

end Tnm.Icmp
