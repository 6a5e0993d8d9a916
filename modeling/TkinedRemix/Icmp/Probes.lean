import TkinedRemix.Icmp.TracePorts

/-!
The probes of a job: how many are sent, how far they are apart, and when the job is given up.
-/

namespace Tnm.Icmp

open Lib List

variable {config : Config} {daemon after : Daemon} {action : Action} {log : List Event}

def sends (log : List Event) (serial : Nat) : List Timeval :=
  log.filterMap fun
    | .sent sender _ time => if sender = serial then some time else none
    | _ => none

def Silent : Event → Prop
  | .arrived _ _ _ | .sent _ _ _ | .timedOut _ _ => False
  | _ => True

@[simp] theorem sends_append (first second : List Event) (serial : Nat) :
    sends (first ++ second) serial = sends first serial ++ sends second serial := filterMap_append ..

theorem sends_silent {added : List Event} (silent : ∀ event ∈ added, Silent event) (serial : Nat) :
    sends added serial = [] := by
  refine filterMap_eq_nil_iff.mpr fun event member => ?_
  have quiet := silent event member
  cases event with
  | sent => cases quiet
  | _ => rfl

theorem Quiet.silent {event : Event} (quiet : Quiet event) : Silent event := by
  cases event with
  | arrived | served | sent | timedOut => cases quiet
  | _ => trivial

theorem scanJobs_silent (now : Timeval) (counter : Int) (jobs : List Job) :
    ∀ event ∈ (scanJobs now counter jobs).served, Silent event := by
  intro _ member
  obtain ⟨_, _, _, rfl⟩ := scanJobs_log _ _ _ member
  trivial

structure Unprobed (job later : Job) : Prop where
  same : Same job later
  probeCnt : later.probeCnt = job.probeCnt
  timeSent : later.timeSent = job.timeSent

theorem Unprobed.refl (job : Job) : Unprobed job job := ⟨Same.refl job, rfl, rfl⟩

theorem Unprobed.trans {first second third : Job} (left : Unprobed first second) (right : Unprobed second third) :
    Unprobed first third :=
  ⟨left.same.trans right.same, right.probeCnt.trans left.probeCnt, right.timeSent.trans left.timeSent⟩

variable {job : Job}

theorem Served.unprobed {served : Job} (relation : Served job served) : Unprobed job served := by
  refine ⟨relation.same, ?_, ?_⟩ <;> rcases relation with rfl | ⟨_, rfl⟩ <;> rfl

def Comes (relation : Job → Job → Prop) (jobs later : List Job) : Prop :=
  ∀ job ∈ later, ∃ earlier ∈ jobs, relation earlier job

variable {relation : Job → Job → Prop} {jobs : List Job}

theorem Comes.of_related {later : List Job} (related : List.Forall₂ relation jobs later) :
    Comes relation jobs later := by
  intro _ member
  induction related with
  | nil => cases member
  | cons first _ ih =>
    rcases mem_cons.mp member with rfl | behind
    · exact ⟨_, mem_cons_self, first⟩
    · obtain ⟨earlier, place, relates⟩ := ih behind
      exact ⟨earlier, mem_cons_of_mem _ place, relates⟩

theorem Comes.filter {later : List Job} (comes : Comes relation jobs later) (keep : Job → Bool) :
    Comes relation jobs (later.filter keep) :=
  fun job member => comes job (mem_of_mem_filter member)

def Probed (serial : Nat) (time : Timeval) (job later : Job) : Prop :=
  Same job later ∧
    (job.serial = serial → later.probeCnt = job.probeCnt + 1 ∧ later.timeSent = time) ∧
    (job.serial ≠ serial → Unprobed job later)

def Logs (before after extra : List Event) : Prop :=
  ∃ added, after = before ++ added ++ extra ∧ ∀ event ∈ added, Silent event

section

variable {before after extra : List Event} {event : Event}

theorem Logs.of_silent {added : List Event} (log : after = before ++ added) (silent : ∀ event ∈ added, Silent event) :
    Logs before after [] := ⟨added, by rw [append_nil, log], silent⟩

theorem Logs.refl (log : List Event) : Logs log log [] := .of_silent (append_nil log).symm (by simp)

theorem Logs.sends_eq (logs : Logs before after extra) (serial : Nat) :
    sends after serial = sends before serial ++ sends extra serial := by
  obtain ⟨_, rfl, silent⟩ := logs
  rw [sends_append, sends_append, sends_silent silent, append_nil]

theorem Logs.mem_iff (logs : Logs before after extra) (loud : ¬ Silent event) :
    event ∈ after ↔ event ∈ before ∨ event ∈ extra := by
  obtain ⟨added, rfl, silent⟩ := logs
  rw [mem_append, mem_append]
  tauto

end

structure Sending (daemon : Daemon) (action : Action) (now time : Timeval) (job : Job) : Prop where
  scanning : daemon.phase = .retry now
  taken : ∃ tv stamp ok blocks, action = .scan tv stamp ok blocks ∧ (time = tv ∨ time = stamp)
  live : job ∈ daemon.jobs
  unfinished : job.done = false
  left : job.probeCnt ≤ job.retries + 1
  elapsed : (job.retryIval : Int) < timeDiff job.timeSent now

inductive ProbeStep (daemon : Daemon) (action : Action) (after : Daemon) : Prop
  | silent (serials : after.serials = daemon.serials) (jobs : Comes Unprobed daemon.jobs after.jobs)
      (log : Logs daemon.log after.log [])
  | admitted (job : Job) (serials : after.serials = daemon.serials + 1) (jobs : after.jobs = job :: daemon.jobs)
      (fresh : job.serial = daemon.serials) (unsent : job.probeCnt = 0)
      (log : Logs daemon.log after.log [.arrived job.serial job.retries job.retryIval])
  | sent (now time : Timeval) (job : Job) (serials : after.serials = daemon.serials)
      (sending : Sending daemon action now time job)
      (jobs : Comes (Probed job.serial time) daemon.jobs after.jobs)
      (log : Logs daemon.log after.log [.sent job.serial job.id time])
  | expired (time : Timeval) (job : Job) (serials : after.serials = daemon.serials) (live : job ∈ daemon.jobs)
      (late : job.retries + 1 < job.probeCnt) (jobs : Comes Unprobed daemon.jobs after.jobs)
      (log : Logs daemon.log after.log [.timedOut job.serial time])

theorem Comes.updateJob {changed : Job → Job → Prop} {scanned : List Job} {change : Job → Job}
    (comes : Comes relation jobs scanned) (distinct : (scanned.map Job.serial).Nodup) (live : job ∈ scanned)
    (own : ∀ earlier ∈ jobs, relation earlier job → changed earlier (change job))
    (other : ∀ earlier ∈ jobs, ∀ later, later.serial ≠ job.serial → relation earlier later → changed earlier later) :
    Comes changed jobs (updateJob job.serial change scanned) := by
  intro _ member
  obtain ⟨middle, place, rfl⟩ := List.mem_map.mp member
  obtain ⟨earlier, before, relates⟩ := comes middle place
  refine ⟨earlier, before, ?_⟩
  split_ifs with same
  · obtain rfl := inj_on_of_nodup_map distinct place live same
    exact own earlier before relates
  · exact other earlier before middle same relates

def probeTime (tv stamp : Timeval) (job : Job) : Timeval := if job.type = icmpTypeTrace then stamp else tv

theorem sendProbe_cases (config : Config) (tv stamp : Timeval) (ok : Bool) (job : Job) :
    (probeEvents config tv stamp job = [.sent job.serial job.id (probeTime tv stamp job)] ∧
        (sendProbe config tv stamp ok job).probeCnt = job.probeCnt + 1 ∧
        (sendProbe config tv stamp ok job).timeSent = probeTime tv stamp job) ∨
      (probeEvents config tv stamp job = [] ∧ Unprobed job (sendProbe config tv stamp ok job)) := by
  have same := sendProbe_same config tv stamp ok job
  unfold probeEvents probeTime
  unfold sendProbe sendTrace sendIcmp sendPacket at same ⊢
  split_ifs at same ⊢
  · exact .inl ⟨rfl, rfl, rfl⟩
  · exact .inl ⟨rfl, rfl, rfl⟩
  · exact .inr ⟨rfl, same, rfl, rfl⟩
  · exact .inl ⟨rfl, rfl, rfl⟩
  · exact .inl ⟨rfl, rfl, rfl⟩

variable {now : Timeval}

theorem due_send (isDue : job.due now = some .send) :
    job.probeCnt ≤ job.retries + 1 ∧ (job.retryIval : Int) < timeDiff job.timeSent now := by
  unfold Job.due at isDue
  split_ifs at isDue with _ sending
  · exact sending
  · cases isDue

theorem due_expired (isDue : job.due now = some .expired) : job.retries + 1 < job.probeCnt := by
  unfold Job.due at isDue
  split_ifs at isDue with _ sending late
  · cases isDue
  · exact late

theorem served_done {served : Job} (relation : Served job served) : served.done = job.done := by
  rcases relation with rfl | ⟨_, rfl⟩ <;> rfl

theorem sendPending_probes {tv stamp : Timeval} {ok : Bool} {blocks : Nat → Bool} (serials : SerialsOk daemon)
    (scanning : daemon.phase = .retry now) :
    ProbeStep daemon (.scan tv stamp ok blocks) (sendPending config now tv stamp ok blocks daemon) := by
  have related := scanJobs_served now daemon.counter daemon.jobs
  have silent := scanJobs_silent now daemon.counter daemon.jobs
  have distinct := serials.scanned now
  have comes : Comes Served daemon.jobs (scanJobs now daemon.counter daemon.jobs).jobs := .of_related related
  have unprobed : Comes Unprobed daemon.jobs (scanJobs now daemon.counter daemon.jobs).jobs :=
    .of_related (related.imp fun _ _ => Served.unprobed)
  unfold sendPending
  dsimp only
  split
  · obtain ⟨_, log, quiet⟩ := cleanupJobs_log blocks { daemon with
      jobs := (scanJobs now daemon.counter daemon.jobs).jobs
      log := daemon.log ++ (scanJobs now daemon.counter daemon.jobs).served
      clock := stamp }
    refine .silent rfl (unprobed.filter _) (.of_silent (log.trans (append_assoc ..)) ?_)
    exact forall_mem_append.mpr ⟨silent, fun event member => (quiet event member).silent⟩
  next job found =>
    obtain ⟨live, isDue⟩ := scanJobs_found _ _ _ found
    obtain ⟨left, elapsed⟩ := due_send isDue
    obtain ⟨earlier, before, served⟩ := comes job live
    obtain ⟨same, count, time⟩ := served.unprobed
    rcases sendProbe_cases config tv stamp ok job with ⟨log, counted, timed⟩ | ⟨log, skipped⟩
    · refine .sent now (probeTime tv stamp job) earlier rfl
        ⟨scanning, ⟨tv, stamp, ok, blocks, rfl, ?_⟩, before, ?_, ?_, ?_⟩ ?_ ?_
      · unfold probeTime
        split_ifs
        · exact .inr rfl
        · exact .inl rfl
      · rw [← served_done served]
        exact (due_inServe now isDue).2
      · rw [← count, ← same.retries]
        exact left
      · rw [← time, ← same.retryIval]
        exact elapsed
      · refine comes.updateJob distinct live (fun source _ relation => ?_) (fun source _ later apart relation => ?_)
        · refine ⟨relation.same.trans (sendProbe_same config tv stamp ok job), fun _ => ?_, fun apart => ?_⟩
          · rw [counted, relation.unprobed.probeCnt]
            exact ⟨rfl, timed⟩
          · exact absurd (relation.same.serial.symm.trans same.serial) apart
        · rw [relation.same.serial, same.serial] at apart
          exact ⟨relation.same, fun equal => absurd equal apart, fun _ => relation.unprobed⟩
      · refine ⟨_, ?_, silent⟩
        rw [log, same.serial, same.id]
    · refine .silent rfl ?_ (.of_silent ?_ silent)
      · exact comes.updateJob distinct live (fun _ _ relation => relation.unprobed.trans skipped)
          fun _ _ _ _ relation => relation.unprobed
      · rw [log, append_nil]
  next job found =>
    obtain ⟨live, isDue⟩ := scanJobs_found _ _ _ found
    obtain ⟨earlier, before, served⟩ := comes job live
    obtain ⟨same, count, _⟩ := served.unprobed
    refine .expired tv earlier rfl before ?_ ?_ ⟨_, ?_, silent⟩
    · rw [← count, ← same.retries]
      exact due_expired isDue
    · have kept : Unprobed job (giveUp job) := ⟨giveUp_same job, rfl, rfl⟩
      exact comes.updateJob distinct live (fun _ _ relation => relation.unprobed.trans kept)
        fun _ _ _ _ relation => relation.unprobed
    · rw [same.serial]

theorem receivePacket_probes {packet : Packet} {tp2 : Timeval} {blocks : Nat → Bool} :
    ProbeStep daemon (.packet packet tp2 blocks) (receivePacket config packet tp2 blocks daemon) := by
  obtain ⟨_, log, quiet⟩ := receivePacket_log config packet tp2 blocks daemon
  refine .silent (receivePacket_frame packet tp2 blocks daemon).1 ?_
    (.of_silent log fun event member => (quiet event member).silent)
  unfold receivePacket
  dsimp only
  split
  · exact fun job live => ⟨job, live, .refl job⟩
  next job type final _ =>
    refine .filter (.of_related (updateJob_related (fun job _ _ => ?_) fun job _ _ => Unprobed.refl job)) _
    exact ⟨credit_same type final packet tp2 job, rfl, rfl⟩

theorem DaemonTurn.probes (turn : DaemonTurn config daemon action after) (serials : SerialsOk daemon) :
    ProbeStep daemon action after := by
  have kept : Comes Unprobed daemon.jobs daemon.jobs := fun job live => ⟨job, live, .refl job⟩
  have nothing := Logs.refl daemon.log
  cases turn with
  | nothing | pass | resume => exact .silent rfl kept nothing
  | packet => exact receivePacket_probes
  | read input =>
    cases readJob_done config input daemon with
    | skipped jobs serials log => exact .silent serials (jobs ▸ kept) (log ▸ nothing)
    | rejected _ _ _ _ _ jobs serials log =>
      rcases log with log | log
      · exact .silent serials (jobs ▸ kept) (log ▸ nothing)
      · exact .silent serials (jobs ▸ kept) (.of_silent log (by simp [Silent]))
    | admitted _ admits jobs serials log =>
      obtain ⟨_, _, _, -, rfl, -⟩ := admits
      exact .admitted _ serials jobs rfl rfl ⟨[], by rw [append_nil, log], by simp⟩
  | scan _ _ _ _ _ scanning => exact sendPending_probes serials scanning

@[simp] theorem sends_sent (sender id serial : Nat) (time : Timeval) :
    sends [.sent sender id time] serial = if sender = serial then [time] else [] := by
  unfold sends
  split_ifs with same <;> simp [same]

structure ProbesOk (daemon : Daemon) : Prop where
  known : ∀ job ∈ daemon.jobs, .arrived job.serial job.retries job.retryIval ∈ daemon.log
  below : ∀ serial retries retryIval, .arrived serial retries retryIval ∈ daemon.log → serial < daemon.serials
  once : ∀ serial first firstIval second secondIval, .arrived serial first firstIval ∈ daemon.log →
    .arrived serial second secondIval ∈ daemon.log → first = second ∧ firstIval = secondIval
  counted : ∀ job ∈ daemon.jobs, (sends daemon.log job.serial).length = job.probeCnt
  last : ∀ job ∈ daemon.jobs, ∀ time ∈ (sends daemon.log job.serial).getLast?, job.timeSent = time
  unsent : ∀ serial, daemon.serials ≤ serial → sends daemon.log serial = []

theorem ProbesOk.related {extra : List Event} (ok : ProbesOk daemon) (serials : after.serials = daemon.serials)
    (jobs : Comes relation daemon.jobs after.jobs) (logs : Logs daemon.log after.log extra)
    (unsent : ∀ serial, daemon.serials ≤ serial → sends extra serial = [])
    (unarrived : ∀ serial retries ival, .arrived serial retries ival ∉ extra)
    (counts : ∀ earlier later, relation earlier later → Same earlier later ∧
      later.probeCnt = earlier.probeCnt + (sends extra earlier.serial).length ∧
      later.timeSent = (sends extra earlier.serial).getLastD earlier.timeSent) : ProbesOk after := by
  have arrivedIff (serial retries ival : Nat) :
      .arrived serial retries ival ∈ after.log ↔ .arrived serial retries ival ∈ daemon.log := by
    rw [logs.mem_iff id]
    exact ⟨fun either => either.resolve_right (unarrived serial retries ival), .inl⟩
  refine ⟨fun job live => ?_, fun serial retries ival arrived => ?_, fun serial first firstIval second secondIval => ?_,
    fun job live => ?_, fun job live time last => ?_, fun serial above => ?_⟩
  · obtain ⟨earlier, before, relates⟩ := jobs job live
    have same := (counts earlier job relates).1
    rw [arrivedIff, same.serial, same.retries, same.retryIval]
    exact ok.known earlier before
  · rw [serials]
    exact ok.below serial retries ival ((arrivedIff _ _ _).mp arrived)
  · rw [arrivedIff, arrivedIff]
    exact ok.once serial first firstIval second secondIval
  · obtain ⟨earlier, before, relates⟩ := jobs job live
    obtain ⟨same, count, _⟩ := counts earlier job relates
    rw [logs.sends_eq, same.serial, length_append, ok.counted earlier before, count]
  · obtain ⟨earlier, before, relates⟩ := jobs job live
    obtain ⟨same, _, sent⟩ := counts earlier job relates
    rw [logs.sends_eq, same.serial] at last
    rw [sent]
    rcases eq_nil_or_concat (sends extra earlier.serial) with none | ⟨_, _, more⟩
    · rw [none, append_nil] at last
      rw [none]
      exact ok.last earlier before time last
    · simp_all
  · rw [logs.sends_eq, ok.unsent serial (serials ▸ above), unsent serial (serials ▸ above)]
    rfl

theorem ProbesOk.admitted (ok : ProbesOk daemon) (grown : after.serials = daemon.serials + 1)
    (jobs : after.jobs = job :: daemon.jobs) (fresh : job.serial = daemon.serials) (unsent : job.probeCnt = 0)
    (logs : Logs daemon.log after.log [.arrived job.serial job.retries job.retryIval]) : ProbesOk after := by
  have sendsEq (serial : Nat) : sends after.log serial = sends daemon.log serial := by
    rw [logs.sends_eq]
    exact append_nil _
  have none := ok.unsent daemon.serials (le_rfl)
  refine ⟨fun other live => ?_, fun serial retries ival arrived => ?_,
    fun serial first firstIval second secondIval left right => ?_, fun other live => ?_, fun other live => ?_,
    fun serial above => ?_⟩
  · rw [logs.mem_iff id]
    rcases mem_cons.mp (jobs ▸ live) with rfl | before
    · exact .inr mem_cons_self
    · exact .inl (ok.known other before)
  · rw [grown]
    rcases (logs.mem_iff id).mp arrived with before | now
    · exact Nat.lt_succ_of_lt (ok.below serial retries ival before)
    · cases mem_singleton.mp now
      rw [fresh]
      exact Nat.lt_succ_self _
  · have apart {retries ival : Nat} (before : .arrived job.serial retries ival ∈ daemon.log) : False := by
      have lower := ok.below _ _ _ before
      omega
    rcases (logs.mem_iff id).mp left with leftBefore | leftNow <;> rcases (logs.mem_iff id).mp right with
      rightBefore | rightNow
    · exact ok.once serial first firstIval second secondIval leftBefore rightBefore
    · cases mem_singleton.mp rightNow
      exact (apart leftBefore).elim
    · cases mem_singleton.mp leftNow
      exact (apart rightBefore).elim
    · cases mem_singleton.mp leftNow
      cases mem_singleton.mp rightNow
      exact ⟨rfl, rfl⟩
  · rw [sendsEq]
    rcases mem_cons.mp (jobs ▸ live) with rfl | before
    · rw [fresh, none, unsent]
      rfl
    · exact ok.counted other before
  · rw [sendsEq]
    rcases mem_cons.mp (jobs ▸ live) with rfl | before
    · rw [fresh, none]
      intro _ member
      cases member
    · exact ok.last other before
  · rw [sendsEq]
    exact ok.unsent serial (by omega)

theorem ProbesOk.step (serials : SerialsOk daemon) (ok : ProbesOk daemon) (step : ProbeStep daemon action after) :
    ProbesOk after := by
  cases step with
  | silent same jobs logs | expired _ _ same _ _ jobs logs =>
    exact ok.related same jobs logs (fun _ _ => rfl) (by simp) fun _ _ ⟨same, count, time⟩ => ⟨same, count, time⟩
  | admitted _ grown jobs fresh unsent logs => exact ok.admitted grown jobs fresh unsent logs
  | sent _ _ job same sending jobs logs =>
    refine ok.related same jobs logs (fun serial above => ?_) (by simp) fun earlier _ ⟨kept, probed, unprobed⟩ =>
      ⟨kept, ?_⟩
    · have lower := serials.below job sending.live
      rw [sends_sent, if_neg (by omega)]
    · rw [sends_sent]
      split
      next own => exact probed own.symm
      next other =>
        obtain ⟨_, count, time⟩ := unprobed (Ne.symm other)
        exact ⟨count, time⟩

def Bounded (extra : Nat) (log : List Event) : Prop :=
  ∀ serial retries retryIval, .arrived serial retries retryIval ∈ log → (sends log serial).length ≤ retries + extra

def Timely (log : List Event) : Prop :=
  ∀ before behind serial time, log = before ++ .timedOut serial time :: behind →
    ∀ retries retryIval, .arrived serial retries retryIval ∈ before →
      ∀ sent ∈ sends before serial, sent.micros + 1000 * retryIval ≤ time.micros

/-- The scan finds no job whose interval is over after one probe more than it has retries. -/
def Answered (daemon : Daemon) : Action → Prop
  | .scan _ _ _ _ => ∀ now, daemon.phase = .retry now → ∀ job ∈ daemon.jobs, job.done = false →
      job.probeCnt = job.retries + 1 → timeDiff job.timeSent now ≤ job.retryIval
  | _ => True

theorem ProbeStep.history (step : ProbeStep daemon action after) (ok : ProbesOk daemon) {serial retries ival : Nat}
    (arrived : .arrived serial retries ival ∈ after.log) : (sends after.log serial = sends daemon.log serial ∧
        (.arrived serial retries ival ∈ daemon.log ∨ sends daemon.log serial = [])) ∨
      ∃ now time job, Sending daemon action now time job ∧ job.serial = serial ∧ job.retries = retries ∧
        job.retryIval = ival ∧ .arrived serial retries ival ∈ daemon.log ∧
        sends after.log serial = sends daemon.log serial ++ [time] := by
  cases step with
  | silent _ _ logs | expired _ _ _ _ _ _ logs =>
    have before := ((logs.mem_iff id).mp arrived).resolve_right (by simp)
    exact .inl ⟨(logs.sends_eq serial).trans (append_nil _), .inl before⟩
  | admitted _ _ _ fresh _ logs =>
    refine .inl ⟨(logs.sends_eq serial).trans (append_nil _), ?_⟩
    rcases (logs.mem_iff id).mp arrived with before | now
    · exact .inl before
    · cases mem_singleton.mp now
      exact .inr (ok.unsent _ (Nat.le_of_eq fresh.symm))
  | sent now time job _ sending _ logs =>
    have before := ((logs.mem_iff id).mp arrived).resolve_right (by simp)
    have grown := logs.sends_eq serial
    rw [sends_sent] at grown
    by_cases own : job.serial = serial
    · rw [if_pos own] at grown
      subst own
      obtain ⟨rfl, rfl⟩ := ok.once _ _ _ _ _ (ok.known job sending.live) before
      exact .inr ⟨now, time, job, sending, rfl, rfl, rfl, before, grown⟩
    · rw [if_neg own, append_nil] at grown
      exact .inl ⟨grown, .inl before⟩

theorem Bounded.step {extra : Nat} (step : ProbeStep daemon action after) (ok : ProbesOk daemon)
    (bounded : Bounded extra daemon.log)
    (left : ∀ now time job, Sending daemon action now time job → job.probeCnt < job.retries + extra) :
    Bounded extra after.log := by
  intro serial retries ival arrived
  rcases step.history ok arrived with ⟨same, before | none⟩ | ⟨now, time, job, sending, rfl, rfl, rfl, -, grown⟩
  · rw [same]
    exact bounded serial retries ival before
  · rw [same, none]
    exact Nat.zero_le _
  · have room := left now time job sending
    rw [grown, length_append, ok.counted job sending.live]
    exact room

theorem Answered.left (answered : Answered daemon action) {time : Timeval}
    (sending : Sending daemon action now time job) : job.probeCnt < job.retries + 1 := by
  obtain ⟨scanning, ⟨_, _, _, _, rfl, _⟩, live, unfinished, left, _⟩ := sending
  refine Nat.lt_of_le_of_ne left fun full => ?_
  have early := answered now scanning job live unfinished full
  omega

theorem ProbeStep.timedOut (step : ProbeStep daemon action after) (ok : ProbesOk daemon)
    (bounded : Bounded 1 daemon.log)
    (none : ∀ serial time, .timedOut serial time ∉ daemon.log) (serial : Nat) (time : Timeval) :
    .timedOut serial time ∉ after.log := by
  intro member
  cases step with
  | silent _ _ logs | admitted _ _ _ _ _ logs | sent _ _ _ _ _ _ logs =>
    exact none serial time (((logs.mem_iff id).mp member).resolve_right (by simp))
  | expired _ job _ live =>
    have few := bounded _ _ _ (ok.known job live)
    rw [ok.counted job live] at few
    omega

def Logged (daemon : Daemon) : Prop := SerialsOk daemon ∧ ProbesOk daemon

theorem Logged.start : Logged Daemon.start := by
  refine ⟨?_, ?_⟩ <;> constructor <;> simp [Daemon.start, sends]

theorem Logged.step (logged : Logged daemon) (turn : DaemonTurn config daemon action after) : Logged after :=
  ⟨logged.1.step turn, logged.2.step logged.1 (turn.probes logged.1)⟩

structure AnsweredOk (daemon : Daemon) : Prop where
  logged : Logged daemon
  bounded : Bounded 1 daemon.log
  unexpired : ∀ serial time, .timedOut serial time ∉ daemon.log

theorem AnsweredOk.step (config : Config) (daemon : Daemon) (action : Action) (answered : Answered daemon action)
    (ok : AnsweredOk daemon) : AnsweredOk (daemonStep config daemon action) := by
  have turn := daemonStep_inv config daemon action
  have step := turn.probes ok.logged.1
  refine ⟨ok.logged.step turn, ?_, ?_⟩
  · exact ok.bounded.step step ok.logged.2 fun _ _ _ sending => answered.left sending
  · exact step.timedOut ok.logged.2 ok.bounded ok.unexpired

/-- Every job gets at most one probe more than it has retries, if no scan finds one that had them all. -/
theorem probes_bounded (config : Config) (actions : List Action) (daemon : Daemon)
    (reached : daemon = run (daemonStep config) Daemon.start actions) : Bounded 2 daemon.log ∧
      (Meets (daemonStep config) Answered Daemon.start actions → Bounded 1 daemon.log ∧ Timely daemon.log) := by
  subst reached
  have empty (extra : Nat) : Bounded extra Daemon.start.log := by simp [Bounded, Daemon.start]
  constructor
  · refine (run_always (fun daemon => Logged daemon ∧ Bounded 2 daemon.log) ?_ ⟨.start, empty 2⟩ actions).2
    rintro daemon action ⟨logged, bounded⟩
    have turn := daemonStep_inv config daemon action
    refine ⟨logged.step turn, bounded.step (turn.probes logged.1) logged.2 fun _ _ _ sending => ?_⟩
    exact Nat.lt_succ_of_le sending.left
  · intro answered
    have ok := run_invariant (AnsweredOk.step config) ⟨Logged.start, empty 1, by simp [Daemon.start]⟩ answered
    refine ⟨ok.bounded, fun before behind serial time log => ?_⟩
    exact absurd (log ▸ mem_append_right before mem_cons_self) (ok.unexpired serial time)

def later : Timeval := ⟨11, 500000, by decide⟩

def nobody : Nat → Bool := fun _ => false

def unanswered : List Action :=
  served 1 0 ++ [.pass later, .scan later later true nobody, .resume, .scan later later true nobody]

theorem probes_bounded_unanswered : Bounded 2 (run (daemonStep sampleConfig) Daemon.start unanswered).log ∧
      Bounded 1 (run (daemonStep sampleConfig) Daemon.start (served 1 0)).log := by
  refine ⟨(probes_bounded sampleConfig unanswered _ rfl).1, ((probes_bounded sampleConfig (served 1 0) _ rfl).2 ?_).1⟩
  refine ⟨trivial, trivial, ?_, trivial, ?_, trivial⟩
  all_goals
    intro now phase
    cases (phase : Phase.retry tenSeconds = .retry now)
    decide

/-- Two probes leave for a request without retries, and it is given up at the time of the second one. -/
theorem probes_tooMany :
    let log := (run (daemonStep sampleConfig) Daemon.start unanswered).log
    sends log 0 = [tenSeconds, later] ∧ .timedOut 0 later ∈ log ∧ ¬ Bounded 1 log ∧ ¬ Timely log := by
  refine ⟨by decide, by decide, fun bounded => ?_, fun timely => ?_⟩
  · have few := bounded 0 0 1000 (by decide)
    revert few
    decide
  · have waited := timely _ [] 0 later rfl 0 1000 (by decide) later (by decide)
    revert waited
    decide

def Spaced (log : List Event) : Prop :=
  ∀ serial retries retryIval, .arrived serial retries retryIval ∈ log →
    (sends log serial).IsChain fun first second => first.micros + 1000 * retryIval ≤ second.micros

def ClockForward (daemon : Daemon) : Action → Prop
  | .packet _ tp2 _ => daemon.clock.micros ≤ tp2.micros
  | .pass now => daemon.clock.micros ≤ now.micros
  | .scan tv stamp _ _ => daemon.clock.micros ≤ tv.micros ∧ tv.micros ≤ stamp.micros
  | _ => True

/-- No job was sent later than the clock reading of the pass by more than its interval. -/
def PassRecent (daemon : Daemon) : Action → Prop
  | .scan _ _ _ _ => ∀ now, daemon.phase = .retry now → ∀ job ∈ daemon.jobs, job.done = false →
      now.micros < job.timeSent.micros → timeDiff job.timeSent now ≤ job.retryIval
  | _ => True

theorem tdiv_near (micros : Int) : micros - 999 ≤ 1000 * micros.tdiv 1000 ∧ 1000 * micros.tdiv 1000 ≤ micros + 999 := by
  have sign : (1000 : Int).sign = 1 := rfl
  rw [Int.tdiv_eq_ediv]
  split_ifs <;> omega

theorem timeDiff_elapsed {first second : Timeval} (forward : first.micros ≤ second.micros) {interval : Nat}
    (elapsed : (interval : Int) < timeDiff first second) : first.micros + 1000 * interval ≤ second.micros := by
  obtain ⟨_, _⟩ := tdiv_near ((second.usec : Int) - first.usec)
  unfold timeDiff timediff2 at elapsed
  unfold Timeval.micros at *
  split_ifs at elapsed <;> linarith

def Recent (daemon : Daemon) : Prop :=
  ∀ now, daemon.phase = .retry now ∨ daemon.phase = .delay now → now.micros ≤ daemon.clock.micros

structure SpacedOk (daemon : Daemon) : Prop where
  logged : Logged daemon
  spaced : Spaced daemon.log
  recent : Recent daemon

theorem DaemonTurn.recent (turn : DaemonTurn config daemon action after) (forward : ClockForward daemon action)
    (recent : Recent daemon) : Recent after := by
  cases turn with
  | nothing => exact recent
  | packet packet tp2 blocks =>
    intro now phase
    obtain ⟨_, clock, same⟩ := @receivePacket_frame config packet tp2 blocks daemon
    rw [same] at phase
    rw [clock]
    exact Nat.le_trans (recent now phase) forward
  | read input =>
    intro now phase
    rcases readJob_phase config input daemon with ready | stuck
    · simp [ready] at phase
    · simp [stuck] at phase
  | pass began =>
    intro now phase
    obtain rfl : began = now := by simpa using phase
    exact le_rfl
  | scan began tv stamp ok blocks scanning =>
    intro now phase
    obtain ⟨_, clock, phases⟩ := @sendPending_frame config began tv stamp ok blocks daemon
    have same : began = now := by
      rcases phases with ended | delayed | going
      · rw [ended] at phase
        simp at phase
      · rw [delayed] at phase
        simpa using phase
      · rw [going, scanning] at phase
        simpa using phase
    have before := recent began (.inl scanning)
    obtain ⟨_, _⟩ := forward
    rw [clock, ← same]
    omega
  | resume began receiving =>
    intro now phase
    obtain rfl : began = now := by simpa using phase
    exact recent began (.inr receiving)

theorem SpacedOk.step (config : Config) (daemon : Daemon) (action : Action)
    (safe : ClockForward daemon action ∧ PassRecent daemon action) (ok : SpacedOk daemon) :
    SpacedOk (daemonStep config daemon action) := by
  obtain ⟨forward, fresh⟩ := safe
  have turn := daemonStep_inv config daemon action
  have step := turn.probes ok.logged.1
  refine ⟨ok.logged.step turn, fun serial retries ival arrived => ?_, ?_⟩
  · rcases step.history ok.logged.2 arrived with ⟨same, before | none⟩ | ⟨now, time, job, sending, rfl, rfl, rfl,
      before, grown⟩
    · rw [same]
      exact ok.spaced serial retries ival before
    · rw [same, none]
      exact .nil
    · rw [grown, isChain_append]
      refine ⟨ok.spaced _ _ _ before, .singleton _, fun last lastSent next isNext => ?_⟩
      cases isNext
      obtain rfl := ok.logged.2.last job sending.live last lastSent
      obtain ⟨scanning, ⟨_, _, _, _, rfl, clock⟩, live, unfinished, -, elapsed⟩ := sending
      have passed : job.timeSent.micros ≤ now.micros := by
        refine Nat.le_of_not_lt fun ahead => ?_
        have early := fresh now scanning job live unfinished ahead
        omega
      have later : now.micros ≤ time.micros := by
        have recent := ok.recent now (.inl scanning)
        obtain ⟨_, _⟩ := forward
        rcases clock with rfl | rfl <;> omega
      exact Nat.le_trans (timeDiff_elapsed passed elapsed) later
  · exact turn.recent forward ok.recent

/-- Two probes of a job are at least its interval apart. -/
theorem probes_spaced (config : Config) (actions : List Action) (daemon : Daemon)
    (reached : daemon = run (daemonStep config) Daemon.start actions)
    (forward : Meets (daemonStep config) ClockForward Daemon.start actions)
    (recent : Meets (daemonStep config) PassRecent Daemon.start actions) : Spaced daemon.log := by
  subst reached
  have start : SpacedOk Daemon.start := ⟨Logged.start, by simp [Spaced, Daemon.start], by simp [Recent, Daemon.start]⟩
  exact (run_invariant (.step config) start (forward.and recent)).spaced

def atMillis (millis : Fin 1000) : Timeval := ⟨10, millis * 1000, by omega⟩

def retried : List Action :=
  [.read (.command ⟨0, 1, 1, 7, 1, 9, 64, 0⟩ 0 true), .pass (atMillis 0),
    .scan (atMillis 0) (atMillis 0) true nobody, .resume, .scan (atMillis 0) (atMillis 0) true nobody]

theorem probes_spaced_retried : Spaced (run (daemonStep sampleConfig) Daemon.start
    (retried ++ [.pass (atMillis 200), .scan (atMillis 200) (atMillis 200) true nobody])).log := by
  refine probes_spaced sampleConfig _ _ rfl ⟨trivial, ?_, ?_, trivial, ?_, ?_, ?_, trivial⟩
    ⟨trivial, trivial, ?_, trivial, ?_, trivial, ?_, trivial⟩
  · change _ ≤ _
    decide
  · change _ ≤ _ ∧ _ ≤ _
    decide
  · change _ ≤ _ ∧ _ ≤ _
    decide
  · change _ ≤ _
    decide
  · change _ ≤ _ ∧ _ ≤ _
    decide
  · intro now phase
    cases (phase : Phase.retry (atMillis 0) = .retry now)
    decide
  · intro now phase
    cases (phase : Phase.retry (atMillis 0) = .retry now)
    decide
  · intro now phase
    cases (phase : Phase.retry (atMillis 200) = .retry now)
    decide

/-- Two jobs are due in one pass, and the second one is sent twice in one millisecond. -/
theorem probes_tooClose :
    let log := (run (daemonStep sampleConfig) Daemon.start
      (retried ++
        [.read (.command ⟨0, 1, 2, 8, 1, 9, 64, 0⟩ 0 true), .pass (atMillis 300),
          .scan (atMillis 300) (atMillis 300) true nobody, .resume,
          .scan (atMillis 555) (atMillis 555) true nobody, .resume,
          .scan (atMillis 556) (atMillis 556) true nobody])).log
    sends log 0 = [atMillis 0, atMillis 555, atMillis 556] ∧ ¬ Spaced log := by
  refine ⟨by decide, fun spaced => ?_⟩
  have chain := spaced 0 9 100 (by decide)
  revert chain
  decide

end Tnm.Icmp
