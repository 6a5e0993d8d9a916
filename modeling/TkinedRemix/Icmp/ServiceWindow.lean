import TkinedRemix.Icmp.TracePorts

/-!
The window counter is the number of jobs in service as long as every job that is removed was in service.
-/

namespace Tnm.Icmp

open Lib List

variable {config : Config} {daemon after : Daemon} {action : Action} {jobs : List Job} {counter : Int}

def inService (jobs : List Job) : Nat := jobs.countP Job.inServe

theorem admit_counter (counter : Int) (job : Job) (rest : List Job) :
    (job.grant counter).1 + inService (job :: rest) = counter + inService ((job.grant counter).2.2 :: rest) := by
  unfold Job.grant inService
  split_ifs with fits
  · simp only [Job.fits, Bool.and_eq_true, Bool.not_eq_true'] at fits
    simp only [countP_cons, fits.1]
    push_cast
    omega
  · rfl

theorem scanJobs_counter (now : Timeval) (counter : Int) (jobs : List Job) :
    (scanJobs now counter jobs).counter + inService jobs = counter + inService (scanJobs now counter jobs).jobs := by
  induction jobs generalizing counter with
  | nil => rfl
  | cons job rest ih =>
    have first := admit_counter counter job rest
    rw [scanJobs]
    generalize job.grant counter = turn at first
    obtain ⟨after, _⟩ := turn
    dsimp only at first ⊢
    split
    · exact first
    · have later := ih after
      unfold inService at *
      simp only [countP_cons] at *
      omega

theorem admit_grows (counter : Int) (job : Job) : counter ≤ (job.grant counter).1 := by
  unfold Job.grant
  split_ifs
  · exact Int.le_add_one (Int.le_refl _)
  · exact Int.le_refl _

theorem scanJobs_grows (now : Timeval) (counter : Int) (jobs : List Job) :
    counter ≤ (scanJobs now counter jobs).counter := by
  induction jobs generalizing counter with
  | nil => exact Int.le_refl _
  | cons job _ ih =>
    rw [scanJobs]
    dsimp only
    split
    · exact admit_grows counter job
    · exact Int.le_trans (admit_grows counter job) (ih _)

theorem scanJobs_fits (now : Timeval) {jobs : List Job} {counter : Int} {serial window : Nat} {found : Int}
    (member : .served serial window found ∈ (scanJobs now counter jobs).served) :
    getWindow found < window ∧ counter ≤ found ∧ found < (scanJobs now counter jobs).counter := by
  induction jobs generalizing counter with
  | nil => cases member
  | cons job _ ih =>
    have first (place : .served serial window found ∈ (job.grant counter).2.1) :
        getWindow found < window ∧ counter ≤ found ∧ found < (job.grant counter).1 := by
      obtain ⟨fits, equal⟩ := grant_log place
      cases equal
      rw [Job.grant, if_pos fits]
      simp only [Job.fits, Bool.and_eq_true, decide_eq_true_eq] at fits
      exact ⟨fits.2, Int.le_refl _, Int.lt_succ _⟩
    rw [scanJobs] at member ⊢
    dsimp only at member ⊢
    split at member
    · exact first member
    · rcases mem_append.mp member with place | place
      · obtain ⟨fits, lower, upper⟩ := first place
        exact ⟨fits, lower, Int.lt_of_lt_of_le upper (scanJobs_grows _ _ _)⟩
      · obtain ⟨fits, lower, upper⟩ := ih place
        exact ⟨fits, Int.le_trans (admit_grows counter job) lower, upper⟩

def Settled (jobs : List Job) : Prop := ∀ job ∈ jobs, job.done → job.inServe

def Unscanned (counter : Int) : List Job → Prop
  | [] => True
  | job :: rest => (job.done → job.inServe ∨ job.fits counter) ∧ Settled rest

theorem Settled.unscanned (settled : Settled jobs) : Unscanned counter jobs := by
  cases jobs with
  | nil => trivial
  | cons job =>
    exact ⟨fun done => .inl (settled job mem_cons_self done),
      fun other member => settled other (mem_cons_of_mem _ member)⟩

theorem Settled.related {later : List Job} (settled : Settled jobs) (served : List.Forall₂ Served jobs later) :
    Settled later := by
  induction served with
  | nil => exact settled
  | @cons job _ _ _ relation _ ih =>
    intro other member done
    rcases mem_cons.mp member with rfl | later
    · rcases relation with rfl | ⟨_, rfl⟩
      · exact settled _ mem_cons_self done
      · rfl
    · exact ih (fun job place => settled job (mem_cons_of_mem _ place)) other later done

theorem scanJobs_settled (now : Timeval) (unscanned : Unscanned counter jobs) :
    Settled (scanJobs now counter jobs).jobs := by
  cases jobs with
  | nil => exact fun _ member => by cases member
  | cons job =>
    have first : (job.grant counter).2.2.done → (job.grant counter).2.2.inServe := by
      unfold Job.grant
      split_ifs with fits
      · exact fun _ => rfl
      · exact fun done => (unscanned.1 done).resolve_right fits
    rw [scanJobs]
    dsimp only
    split
    · exact forall_mem_cons.mpr ⟨first, unscanned.2⟩
    · exact forall_mem_cons.mpr ⟨first, unscanned.2.related (scanJobs_served _ _ _)⟩

theorem updateJob_settled {job : Job} {change : Job → Job} (settled : Settled jobs)
    (distinct : (jobs.map Job.serial).Nodup)
    (live : job ∈ jobs) (serving : job.inServe = true) (kept : ∀ job, (change job).inServe = job.inServe) :
    Settled (updateJob job.serial change jobs) := by
  intro _ member done
  obtain ⟨earlier, place, rfl⟩ := List.mem_map.mp member
  split_ifs at done ⊢ with same
  · rw [kept, inj_on_of_nodup_map distinct place live same]
    exact serving
  · exact settled earlier place done

theorem updateJob_inService {serial : Nat} {change : Job → Job} (kept : ∀ job, (change job).inServe = job.inServe)
    (jobs : List Job) : inService (updateJob serial change jobs) = inService jobs := by
  rw [inService, updateJob, countP_map]
  refine countP_congr fun job _ => ?_
  simp only [Function.comp]
  split_ifs
  · rw [kept]
  · rfl

theorem cleaned_inService (blocks : Nat → Bool) (settled : Settled jobs) :
    inService (jobs.filter fun job => !cleaned blocks job) + jobs.countP (cleaned blocks) = inService jobs := by
  induction jobs with
  | nil => rfl
  | cons job _ ih =>
    have later := ih fun other member => settled other (mem_cons_of_mem _ member)
    unfold inService at *
    by_cases removed : cleaned blocks job
    · have serving : job.inServe = true := by
        simp only [cleaned, Bool.and_eq_true] at removed
        exact settled job mem_cons_self removed.1
      simp only [countP_cons, filter_cons, removed, serving]
      simp
      omega
    · simp only [countP_cons, filter_cons, removed]
      simp [countP_cons]
      omega

def Fitted (log : List Event) : Prop :=
  ∀ (serial window : Nat) (counter : Int), .served serial window counter ∈ log → counter < window

def Finished (daemon : Daemon) : Prop :=
  match daemon.phase with
  | .events | .delay _ => Settled daemon.jobs
  | _ => Unscanned daemon.counter daemon.jobs

structure WindowOk (daemon : Daemon) : Prop where
  counted : daemon.counter = inService daemon.jobs
  few : daemon.jobs.length < 65536
  finished : Finished daemon
  fitted : Fitted daemon.log

/-- A packet only finishes a job in service, and a request is not refused halfway. -/
def WindowSafe (config : Config) (daemon : Daemon) : Action → Prop
  | .packet packet _ _ => ∀ job type final, creditedJob config daemon.jobs packet = some (job, type, final) →
      job.inServe
  | .read (.command request _ memory) =>
    memory = true ∧ daemon.jobs.length + 1 < 65536 ∧
      (request.type.toNat = icmpTypeTrace → (getFreeUdpPort daemon.jobs portCount daemon.probePort).isSome) ∧
      (badRequest config request → request.window.toNat = 0 ∨ getWindow daemon.counter < request.window.toNat)
  | _ => True

theorem getWindow_small {counter : Int} (lower : 0 ≤ counter) (upper : counter < 65536) : getWindow counter = counter :=
  Int.emod_eq_of_lt lower upper

theorem inService_le (jobs : List Job) : inService jobs ≤ jobs.length := countP_le_length

theorem WindowOk.of_settled (counted : daemon.counter = inService daemon.jobs) (few : daemon.jobs.length < 65536)
    (settled : Settled daemon.jobs) (fitted : Fitted daemon.log) : WindowOk daemon := by
  refine ⟨counted, few, ?_, fitted⟩
  unfold Finished
  split
  · exact settled
  · exact settled
  · exact settled.unscanned

theorem WindowOk.unscanned (ok : WindowOk daemon) : Unscanned daemon.counter daemon.jobs := by
  have finished := ok.finished
  unfold Finished at finished
  split at finished
  · exact finished.unscanned
  · exact finished.unscanned
  · exact finished

theorem WindowOk.settled (ok : WindowOk daemon)
    (receiving : daemon.phase = .events ∨ ∃ now, daemon.phase = .delay now) :
    Settled daemon.jobs := by
  have finished := ok.finished
  unfold Finished at finished
  rcases receiving with idle | ⟨_, delayed⟩
  · rwa [idle] at finished
  · rwa [delayed] at finished

theorem cleanupJobs_windowOk (blocks : Nat → Bool) (counted : daemon.counter = inService daemon.jobs)
    (few : daemon.jobs.length < 65536) (settled : Settled daemon.jobs)
    (fitted : Fitted daemon.log) (phase : Phase) : WindowOk { cleanupJobs blocks daemon with phase } := by
  have divided := cleaned_inService blocks settled
  refine .of_settled ?_ (Nat.lt_of_le_of_lt (length_filter_le _ _) few) (fun job member => ?_)
    (fun serial window counter member => ?_)
  · simp only [cleanupJobs]
    omega
  · exact settled job (mem_of_mem_filter member)
  · exact fitted serial window counter (((cleanupJobs_log blocks daemon).mem_iff (by simp [Quiet])).mp member)

theorem receivePacket_windowOk {packet : Packet} {tp2 : Timeval} {blocks : Nat → Bool} (serials : SerialsOk daemon)
    (ok : WindowOk daemon) (receiving : daemon.phase = .events ∨ ∃ now, daemon.phase = .delay now)
    (safe : WindowSafe config daemon (.packet packet tp2 blocks)) :
    WindowOk (receivePacket config packet tp2 blocks daemon) := by
  have settled := ok.settled receiving
  unfold receivePacket
  dsimp only
  split
  · exact .of_settled ok.counted ok.few settled ok.fitted
  next job type final credited =>
    have live : job ∈ daemon.jobs := findJob_mem (creditedJob_inv credited).1
    refine cleanupJobs_windowOk blocks ?_ ?_ ?_ ?_ daemon.phase
    · have kept (job : Job) : (credit type final packet tp2 job).inServe = job.inServe := rfl
      rw [updateJob_inService kept]
      exact ok.counted
    · rw [updateJob, length_map]
      exact ok.few
    · exact updateJob_settled settled serials.distinct live (safe job type final credited) fun _ => rfl
    · intro serial window counter member
      exact ok.fitted serial window counter (by simpa using member)

theorem readJob_windowOk {input : Input} (ok : WindowOk daemon) (waiting : daemon.phase = .events)
    (safe : WindowSafe config daemon (.read input)) : WindowOk (readJob config input daemon) := by
  have settled := ok.settled (.inl waiting)
  cases readJob_done config input daemon with
  | skipped jobs _ log counter =>
    refine .of_settled ?_ (jobs ▸ ok.few) (jobs ▸ settled) (log ▸ ok.fitted)
    rw [counter, jobs]
    exact ok.counted
  | rejected _ _ _ read lacking =>
    subst read
    obtain ⟨enough, -, port, -⟩ := safe
    rcases lacking with missing | ⟨isTrace, none⟩
    · rw [enough] at missing
      cases missing
    · have found := port isTrace
      rw [none] at found
      cases found
  | admitted _ admits jobs _ log counter phase =>
    obtain ⟨request, _, _, rfl, rfl, -⟩ := admits
    obtain ⟨-, room, -, refusal⟩ := safe
    have counted := ok.counted
    refine ⟨?_, ?_, ?_, ?_⟩
    · rw [counter, jobs]
      unfold inService at *
      rw [countP_cons]
      split_ifs
      · omega
      · exact counted
    · rw [jobs]
      exact room
    · unfold Finished
      rw [phase, jobs]
      refine ⟨fun done => ?_, settled⟩
      rcases refusal done with unlimited | fits
      · exact .inl (by simp [newJob, unlimited])
      · by_cases unlimited : request.window.toNat = 0
        · exact .inl (by simp [newJob, unlimited])
        · rw [counter]
          simpa [Job.fits, newJob, unlimited] using fits
    · intro serial window counter member
      rw [log] at member
      exact ok.fitted serial window counter (by simpa using member)

theorem sendPending_windowOk {now tv stamp : Timeval} {sends : Bool} {blocks : Nat → Bool} (serials : SerialsOk daemon)
    (ok : WindowOk daemon) : WindowOk (sendPending config now tv stamp sends blocks daemon) := by
  have settled := scanJobs_settled now ok.unscanned
  have served := scanJobs_served now daemon.counter daemon.jobs
  have counted := scanJobs_counter now daemon.counter daemon.jobs
  have few : (scanJobs now daemon.counter daemon.jobs).jobs.length < 65536 := served.length_eq ▸ ok.few
  have equal : (scanJobs now daemon.counter daemon.jobs).counter =
      inService (scanJobs now daemon.counter daemon.jobs).jobs := by
    have before := ok.counted
    omega
  have fitted : Fitted (daemon.log ++ (scanJobs now daemon.counter daemon.jobs).served) := by
    intro serial window counter member
    rcases mem_append.mp member with before | scanned
    · exact ok.fitted serial window counter before
    · obtain ⟨fits, _⟩ := scanJobs_fits _ scanned
      have bounded := inService_le (scanJobs now daemon.counter daemon.jobs).jobs
      rwa [getWindow_small (by omega) (by omega)] at fits
  have updated : ∀ due job change, (scanJobs now daemon.counter daemon.jobs).found = some (due, job) →
      (∀ job, (change job).inServe = job.inServe) → ∀ after : Daemon,
      after.jobs = updateJob job.serial change (scanJobs now daemon.counter daemon.jobs).jobs →
      after.counter = (scanJobs now daemon.counter daemon.jobs).counter → Fitted after.log → WindowOk after := by
    intro due job change found kept after jobs counter
    obtain ⟨live, isDue⟩ := scanJobs_found _ _ _ found
    refine .of_settled ?_ ?_ ?_
    · rw [counter, jobs, updateJob_inService kept, equal]
    · rw [jobs, updateJob, length_map]
      exact few
    · rw [jobs]
      exact updateJob_settled settled (serials.scanned now) live (due_inServe now isDue).1 kept
  unfold sendPending
  dsimp only
  split
  · exact cleanupJobs_windowOk blocks equal few settled fitted .events
  next job found =>
    refine updated _ job _ found
      (sendProbe_inServe config tv stamp sends) _ rfl rfl fun serial window counter member => ?_
    rcases mem_append.mp member with before | probe
    · exact fitted serial window counter before
    · obtain ⟨_, other⟩ := probeEvents_mem probe
      cases other
  next job found =>
    refine updated _ job giveUp found (fun _ => rfl) _ rfl rfl fun serial window counter member => ?_
    exact fitted serial window counter (by simpa using member)

theorem DaemonTurn.windowOk (turn : DaemonTurn config daemon action after) (safe : WindowSafe config daemon action)
    (ok : WindowOk daemon ∧ SerialsOk daemon) : WindowOk after ∧ SerialsOk after := by
  refine ⟨?_, ok.2.step turn⟩
  cases turn with
  | nothing => exact ok.1
  | packet _ _ _ receiving => exact receivePacket_windowOk ok.2 ok.1 receiving safe
  | read _ waiting => exact readJob_windowOk ok.1 waiting safe
  | pass | resume => exact ⟨ok.1.counted, ok.1.few, ok.1.unscanned, ok.1.fitted⟩
  | scan => exact sendPending_windowOk ok.2 ok.1

/-- The window counter is the number of jobs in service, and bounds them. -/
theorem window_inService (config : Config) (actions : List Action) (daemon : Daemon)
    (reached : daemon = run (daemonStep config) Daemon.start actions)
    (safe : Meets (daemonStep config) (WindowSafe config) Daemon.start actions) :
    getWindow daemon.counter = inService daemon.jobs ∧ 0 ≤ daemon.counter ∧ Fitted daemon.log := by
  have initial : WindowOk .start ∧ SerialsOk .start :=
    ⟨⟨rfl, by decide, by simp [Finished, Settled, Daemon.start], by simp [Fitted, Daemon.start]⟩,
      by constructor <;> simp [Daemon.start]⟩
  have ok : WindowOk daemon := by
    rw [reached]
    exact (run_invariant (fun daemon action => (daemonStep_inv config daemon action).windowOk) initial safe).1
  have counted := ok.counted
  have bounded := inService_le daemon.jobs
  have few := ok.few
  refine ⟨?_, by omega, ok.fitted⟩
  rw [getWindow_small (by omega) (by omega), counted]

def windowed (size : UInt8) : List Action :=
  [.read (.command ⟨0, 1, 1, 7, 1, 0, size.toUInt16, 1⟩ 0 true), .pass tenSeconds,
    .scan tenSeconds tenSeconds true fun _ => false, .resume, .scan tenSeconds tenSeconds true fun _ => false]

/-- The second of two requests waits. -/
theorem window_inService_waiting :
    let daemon := run (daemonStep sampleConfig) Daemon.start (windowed 64 ++ windowed 64)
    daemon.jobs.length = 2 ∧ inService daemon.jobs = 1 ∧ getWindow daemon.counter = inService daemon.jobs := by
  refine ⟨by decide, by decide, (window_inService sampleConfig (windowed 64 ++ windowed 64) _ rfl ?_).1⟩
  exact ⟨⟨rfl, by decide, by decide, by decide⟩, trivial, trivial, trivial, trivial,
    ⟨rfl, by decide, by decide, by decide⟩, trivial, trivial, trivial, trivial, trivial⟩

def echoReply : Packet := ⟨false, 0, 0, 65280, 7, 0, 0, .zero, (0, 0)⟩

/-- A request of a bad size that has to wait is answered although it is not in service. -/
theorem window_negative :
    let refused := run (daemonStep sampleConfig) Daemon.start (windowed 64 ++ windowed 0)
    let empty := daemonStep sampleConfig refused (.packet echoReply tenSeconds fun _ => false)
    (getWindow refused.counter = 0 ∧ inService refused.jobs = 1) ∧
      (empty.counter = -1 ∧ getWindow empty.counter = 65535 ∧ empty.jobs = []) := by
  decide

end Tnm.Icmp
