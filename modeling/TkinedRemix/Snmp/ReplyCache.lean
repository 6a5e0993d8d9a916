import TkinedRemix.Snmp.AgentRequest

/-!
What the elements of the reply cache hold: an element belongs to the request that reserved it last.
-/

namespace Tnm

open Lib List Function

variable {ω : Type}

inductive CacheTurn (sessions : Sessions) (state : CacheState ω) : CacheAction ω → CacheState ω → Prop
  | still (action clock world) (later : state.clock ≤ clock) :
      CacheTurn sessions state action { state with clock, world }
  | cached (session pdu slot)
      (hit : cacheHit sessions session pdu state.clock (clearedFor sessions state session pdu) = some slot) :
      CacheTurn sessions state (.receive session pdu)
        (answerCached sessions state session pdu slot (clearedFor sessions state session pdu))
  | began (session pdu) (missed : cacheHit sessions session pdu state.clock (clearedFor sessions state session pdu) =
      none) :
      CacheTurn sessions state (.receive session pdu)
        (beginRequest state session pdu (clearedFor sessions state session pdu))
  | reserved (frame rest) (frames : state.frames = frame :: rest) (stage : frame.stage = .begun) :
      CacheTurn sessions state .reserve (reserveSlot state frame rest)
  | responded (frame rest slot response world) (frames : state.frames = frame :: rest)
      (stage : frame.stage = .executing slot) :
      CacheTurn sessions state (.respond response world)
        { state with cache := setSlot state slot { state.cache slot with response }, world }
  | aborted (frame rest slot) (frames : state.frames = frame :: rest) (stage : frame.stage = .executing slot) :
      CacheTurn sessions state .abort { state with frames := rest }
  | finished (frame rest slot) (frames : state.frames = frame :: rest) (stage : frame.stage = .executing slot) :
      CacheTurn sessions state .finish (finishReply state frame rest slot)
  | sent (success frame rest slot) (frames : state.frames = frame :: rest)
      (stage : frame.stage = .ending slot ∨ frame.stage = .resending slot) :
      CacheTurn sessions state (.encode success) (sendReply sessions state frame rest slot)
  | replaced (success frame rest slot) (frames : state.frames = frame :: rest) (stage : frame.stage = .ending slot) :
      CacheTurn sessions state (.encode success) (replaceReply sessions state frame rest slot)
  | dropped (success frame rest slot) (frames : state.frames = frame :: rest)
      (stage : frame.stage = .resending slot) :
      CacheTurn sessions state (.encode success) (dropReply sessions state frame rest slot)

theorem CacheTurn.idle (sessions : Sessions) (state : CacheState ω) (action : CacheAction ω) :
    CacheTurn sessions state action state :=
  .still action state.clock state.world le_rfl

theorem cacheStep_inv (sessions : Sessions) (state : CacheState ω) (action : CacheAction ω) :
    CacheTurn sessions state action (cacheStep sessions state action) := by
  cases action with
  | tick seconds => exact .still _ (state.clock + seconds) state.world (by omega)
  | script world => exact .still _ state.clock world le_rfl
  | receive session pdu =>
    simp only [cacheStep, receiveRequest]
    split
    next slot hit => exact .cached session pdu slot hit
    next missed => exact .began session pdu missed
  | reserve =>
    simp only [cacheStep]
    split
    next frames => exact .reserved _ _ frames rfl
    next => exact .idle sessions state _
  | respond response world =>
    simp only [cacheStep]
    split
    next frames => exact .responded _ _ _ response world frames rfl
    next => exact .idle sessions state _
  | abort =>
    simp only [cacheStep]
    split
    next frames => exact .aborted _ _ _ frames rfl
    next => exact .idle sessions state _
  | finish =>
    simp only [cacheStep]
    split
    next frames => exact .finished _ _ _ frames rfl
    next => exact .idle sessions state _
  | encode success =>
    simp only [cacheStep]
    split
    next frames =>
      split
      · exact .sent success _ _ _ frames (.inl rfl)
      · exact .replaced success _ _ _ frames rfl
    next frames =>
      split
      · exact .sent success _ _ _ frames (.inr rfl)
      · exact .dropped success _ _ _ frames rfl
    next => exact .idle sessions state _

@[simp] theorem v1ErrorStatus_idem (status : Int) : v1ErrorStatus (v1ErrorStatus status) = v1ErrorStatus status := by
  unfold v1ErrorStatus
  split_ifs <;> simp_all [genErr, noSuchName, badValue]

@[simp] theorem encodeStatus_idem (version : SnmpVersion) (response : Response) :
    encodeStatus version (encodeStatus version response) = encodeStatus version response := by
  unfold encodeStatus
  split_ifs <;> simp

def HoldsComputed (sessions : Sessions) (log : List CacheEvent) (element : CacheElement) : Prop :=
  ∃ number session pdu response, .computed number session pdu response ∈ log ∧ element.session = some session ∧
    element.requestId = pdu.requestId ∧ element.request = pdu.varBinds ∧
    encodeStatus (sessions.version session) element.response = encodeStatus (sessions.version session) response

def Frame.shownId (frame : Frame) : Int :=
  match frame.stage with
  | .begun | .executing _ => 0
  | .ending _ | .resending _ => frame.pdu.requestId

def OwnedBy (frame : Frame) (element : CacheElement) : Prop :=
  element.session = some frame.session ∧ element.request = frame.pdu.varBinds ∧ element.requestId = frame.shownId

structure CacheOk (sessions : Sessions) (state : CacheState ω) : Prop where
  owned : ∀ frame ∈ state.frames, ∀ slot, frame.stage.slot = some slot → OwnedBy frame (state.cache slot)
  apart : state.frames.Pairwise fun inner outer =>
    ∀ slot, inner.stage.slot = some slot → outer.stage.slot ≠ some slot
  filled : ∀ slot, (state.cache slot).requestId ≠ 0 → HoldsComputed sessions state.log (state.cache slot)

def SlotFree (state : CacheState ω) : Prop :=
  ∀ frame ∈ state.frames, frame.stage.slot ≠ some (nextSlot state.last)

/-- No reply for another session at the same address fits, and no element in use is reserved again. -/
def KeepsOwners (sessions : Sessions) (state : CacheState ω) : CacheAction ω → Prop
  | .receive session pdu =>
    ∀ number other earlier reply, .computed number other earlier reply ∈ state.log →
      sessions.address other = sessions.address session → earlier.requestId = pdu.requestId →
      earlier.varBinds = pdu.varBinds → other = session
  | .reserve => SlotFree state
  | _ => True

section

variable {sessions : Sessions} {state : CacheState ω}

theorem HoldsComputed.mono {log longer : List CacheEvent} {element : CacheElement}
    (held : HoldsComputed sessions log element) (longerLog : ∀ event ∈ log, event ∈ longer) :
    HoldsComputed sessions longer element := by
  obtain ⟨number, session, pdu, response, member, rest⟩ := held
  exact ⟨number, session, pdu, response, longerLog _ member, rest⟩

theorem CacheOk.logged (ok : CacheOk sessions state) (event : CacheEvent) :
    CacheOk sessions { state with log := event :: state.log } :=
  ⟨ok.owned, ok.apart, fun slot used => (ok.filled slot used).mono fun _ member => mem_cons_of_mem event member⟩

variable {frame : Frame} {rest : List Frame}

theorem CacheOk.popped (ok : CacheOk sessions state) (frames : state.frames = frame :: rest) :
    CacheOk sessions { state with frames := rest } where
  owned := fun other member => ok.owned other (frames ▸ mem_cons_of_mem frame member)
  apart := (pairwise_cons.mp (frames ▸ ok.apart)).2
  filled := ok.filled

theorem CacheOk.pushed (ok : CacheOk sessions state) (frame : Frame)
    (owner : ∀ slot, frame.stage.slot = some slot → OwnedBy frame (state.cache slot))
    (alone : ∀ slot, frame.stage.slot = some slot → ∀ other ∈ state.frames, other.stage.slot ≠ some slot) :
    CacheOk sessions { state with frames := frame :: state.frames } where
  owned := by
    intro other member slot holds
    rcases mem_cons.mp member with rfl | member
    · exact owner slot holds
    · exact ok.owned other member slot holds
  apart := pairwise_cons.mpr ⟨fun other member slot holds => alone slot holds other member, ok.apart⟩
  filled := ok.filled

variable {slot : Nat}

section

variable (ok : CacheOk sessions state)
include ok

theorem CacheOk.alone (frames : state.frames = frame :: rest) (holds : frame.stage.slot = some slot) :
    ∀ other ∈ rest, other.stage.slot ≠ some slot := by
  have apart := ok.apart
  rw [frames, pairwise_cons] at apart
  exact fun other member => apart.1 other member slot holds

theorem CacheOk.stored (element : CacheElement)
    (owner : ∀ frame ∈ state.frames, frame.stage.slot = some slot → OwnedBy frame element)
    (held : element.requestId ≠ 0 → HoldsComputed sessions state.log element) :
    CacheOk sessions { state with cache := setSlot state slot element } where
  owned := by
    intro frame member other holds
    by_cases same : other = slot
    · subst same
      simpa [setSlot] using owner frame member holds
    · simpa only [setSlot, update_of_ne same] using ok.owned frame member other holds
  apart := ok.apart
  filled := by
    intro other used
    by_cases same : other = slot
    · subst same
      simp only [setSlot, update_self] at used ⊢
      exact held used
    · simp only [setSlot, update_of_ne same] at used ⊢
      exact ok.filled other used

theorem CacheOk.rewritten {stage : Stage} (element : CacheElement) (frames : state.frames = frame :: rest)
    (holds : frame.stage.slot = some slot) (keeps : stage.slot = some slot)
    (owner : OwnedBy { frame with stage } element)
    (held : element.requestId ≠ 0 → HoldsComputed sessions state.log element) :
    CacheOk sessions { state with cache := setSlot state slot element, frames := { frame with stage } :: rest } := by
  have alone := ok.alone frames holds
  have unowned : ∀ other ∈ rest, other.stage.slot = some slot → OwnedBy other element :=
    fun other member holds => absurd holds (alone other member)
  refine ((ok.popped frames).stored element unowned held).pushed _ ?_ ?_
  · intro other same
    obtain rfl : slot = other := Option.some.inj (keeps.symm.trans same)
    simpa [setSlot] using owner
  · intro other same
    obtain rfl : slot = other := Option.some.inj (keeps.symm.trans same)
    exact alone

theorem CacheOk.cleared (session : Nat) (pdu : Pdu VarBind) :
    CacheOk sessions { state with cache := clearedFor sessions state session pdu } := by
  unfold clearedFor cacheClear
  split_ifs with isSet
  · refine ⟨fun frame member slot holds => ?_, ok.apart, fun slot used => ?_⟩
    · have owner := ok.owned frame member slot holds
      dsimp only
      split_ifs <;> exact owner
    · dsimp only at used ⊢
      split_ifs at used ⊢ <;> exact ok.filled slot used
  · exact ok

theorem CacheOk.holds {requestId : Int} (known : (state.cache slot).requestId = requestId) (nonzero : requestId ≠ 0) :
    HoldsComputed sessions state.log (state.cache slot) :=
  ok.filled slot (known ▸ nonzero)

end

variable {session : Nat}

theorem HoldsComputed.encoded {log : List CacheEvent} {element : CacheElement}
    (held : HoldsComputed sessions log element) (ofSession : element.session = some session) :
    HoldsComputed sessions log
      { element with response := encodeStatus (sessions.version session) element.response } := by
  obtain ⟨number, owner, pdu, response, member, sameSession, sameId, sameRequest, sameReply⟩ := held
  obtain rfl : owner = session := Option.some.inj (sameSession.symm.trans ofSession)
  exact ⟨number, owner, pdu, response, member, sameSession, sameId, sameRequest, by simpa using sameReply⟩

theorem CacheOk.encoded (ok : CacheOk sessions state) (frames : state.frames = frame :: rest)
    (holds : frame.stage.slot = some slot) : CacheOk sessions (dropReply sessions state frame rest slot) := by
  have owner := ok.owned frame (frames ▸ mem_cons_self) slot holds
  exact (ok.popped frames).stored _ (fun other member same => absurd same (ok.alone frames holds other member))
    fun used => (ok.filled slot used).encoded owner.1

theorem Stage.slot_of_encoding {stage : Stage} (encoding : stage = .ending slot ∨ stage = .resending slot) :
    stage.slot = some slot := by
  rcases encoding with rfl | rfl <;> rfl

theorem isSession_iff {element : CacheElement} : isSession sessions session element = true ↔
    ∃ owner, element.session = some owner ∧ sessions.address owner = sessions.address session := by
  rw [isSession, beq_iff_eq, Option.map_eq_some_iff]

theorem cacheHit_some {pdu : Pdu VarBind} {now : Nat} {cache : Cache}
    (hit : cacheHit sessions session pdu now cache = some slot) :
    pdu.requestId ≠ 0 ∧ slot < cacheSize ∧ (cache slot).requestId = pdu.requestId ∧
      (∃ owner, (cache slot).session = some owner ∧ sessions.address owner = sessions.address session) ∧
      (cache slot).request = pdu.varBinds := by
  unfold cacheHit at hit
  split_ifs at hit with nonzero
  have matched := find?_some hit
  simp only [matchesEntry, Bool.and_eq_true, beq_iff_eq, isSession_iff] at matched
  exact ⟨nonzero, mem_range.mp (mem_of_find?_eq_some hit), matched.1.1.1, matched.1.1.2, matched.2⟩

/-- The reply that is found was computed for the session itself. -/
theorem CacheOk.found {pdu : Pdu VarBind} (ok : CacheOk sessions state)
    (keeps : KeepsOwners sessions state (.receive session pdu))
    (hit : cacheHit sessions session pdu state.clock (clearedFor sessions state session pdu) = some slot) :
    ∃ number earlier reply, .computed number session earlier reply ∈ state.log ∧
      (clearedFor sessions state session pdu slot).session = some session ∧
      earlier.requestId = pdu.requestId ∧ earlier.varBinds = pdu.varBinds ∧
      encodeStatus (sessions.version session) (clearedFor sessions state session pdu slot).response =
        encodeStatus (sessions.version session) reply := by
  obtain ⟨nonzero, _, sameId, ⟨holder, ofHolder, sameAddress⟩, sameRequest⟩ := cacheHit_some hit
  obtain ⟨number, owner, earlier, reply, member, ofOwner, idEq, requestEq, replyEq⟩ :=
    (ok.cleared session pdu).holds sameId nonzero
  obtain rfl : owner = holder := Option.some.inj (ofOwner.symm.trans ofHolder)
  have idSame : earlier.requestId = pdu.requestId := idEq.symm.trans sameId
  have bindsSame : earlier.varBinds = pdu.varBinds := requestEq.symm.trans sameRequest
  obtain rfl : owner = session := keeps number owner earlier reply member sameAddress idSame bindsSame
  exact ⟨number, earlier, reply, member, ofHolder, idSame, bindsSame, replyEq⟩

theorem CacheOk.resent (ok : CacheOk sessions state) (ofSession : (state.cache slot).session = some session) :
    CacheOk sessions { state with
      cache := setSlot state slot
        { state.cache slot with response := encodeStatus (sessions.version session) (state.cache slot).response } } :=
  ok.stored _ (fun frame member holds => ok.owned frame member slot holds) fun used =>
    (ok.filled slot used).encoded ofSession

theorem CacheTurn.ok {action : CacheAction ω} {after : CacheState ω} (turn : CacheTurn sessions state action after)
    (keeps : KeepsOwners sessions state action) (ok : CacheOk sessions state) : CacheOk sessions after := by
  cases turn with
  | still => exact ⟨ok.owned, ok.apart, ok.filled⟩
  | cached session pdu _ hit =>
    obtain ⟨_, _, _, _, ofSession, _⟩ := ok.found keeps hit
    have resent := (ok.cleared session pdu).resent ofSession
    exact (⟨resent.owned, resent.apart, resent.filled⟩ : CacheOk sessions { state with
      cache := _, received := state.received + 1 }).logged _
  | began session pdu =>
    have pushed := (ok.cleared session pdu).pushed ⟨state.received, session, pdu, .begun⟩
      (by intro slot holds; cases holds) (by intro slot holds; cases holds)
    exact ⟨pushed.owned, pushed.apart, pushed.filled⟩
  | reserved frame rest frames stage =>
    have unused : ∀ other ∈ rest, other.stage.slot ≠ some (nextSlot state.last) :=
      fun other member => keeps other (frames ▸ mem_cons_of_mem frame member)
    have stored := (ok.popped frames).stored (Tnm.reserved frame.session frame.pdu state.clock)
      (fun other member same => absurd same (unused other member)) (fun used => absurd rfl used)
    have pushed := stored.pushed { frame with stage := .executing (nextSlot state.last) }
      (by
        intro slot holds
        obtain rfl : nextSlot state.last = slot := Option.some.inj holds
        simp [setSlot, OwnedBy, Tnm.reserved, Frame.shownId])
      (by
        intro slot holds
        obtain rfl : nextSlot state.last = slot := Option.some.inj holds
        exact unused)
    exact ⟨pushed.owned, pushed.apart, pushed.filled⟩
  | responded frame _ slot response _ frames stage =>
    have holds : frame.stage.slot = some slot := by rw [stage]; rfl
    have owner := ok.owned frame (frames ▸ mem_cons_self) slot holds
    have empty : (state.cache slot).requestId = 0 := by rw [owner.2.2, Frame.shownId, stage]
    have rewritten := ok.rewritten { state.cache slot with response } frames holds holds owner
      (fun used => absurd empty used)
    rw [← frames] at rewritten
    exact ⟨rewritten.owned, rewritten.apart, rewritten.filled⟩
  | aborted _ _ _ frames => exact ok.popped frames
  | finished frame _ slot frames stage =>
    have holds : frame.stage.slot = some slot := by rw [stage]; rfl
    obtain ⟨sameSession, sameRequest, _⟩ := ok.owned frame (frames ▸ mem_cons_self) slot holds
    refine (ok.logged (.computed frame.number frame.session frame.pdu
      (selectReply frame.pdu (state.cache slot).response))).rewritten _ frames holds rfl
      ⟨sameSession, sameRequest, rfl⟩ fun _ => ?_
    exact ⟨frame.number, frame.session, frame.pdu, _, mem_cons_self, sameSession, rfl, sameRequest, rfl⟩
  | sent _ _ _ _ frames stage =>
    exact (ok.encoded frames (Stage.slot_of_encoding stage)).logged _
  | replaced _ frame _ slot frames stage =>
    have holds : frame.stage.slot = some slot := by rw [stage]; rfl
    obtain ⟨sameSession, sameRequest, shown⟩ := ok.owned frame (frames ▸ mem_cons_self) slot holds
    have sameId : (state.cache slot).requestId = frame.pdu.requestId := by rw [shown, Frame.shownId, stage]
    refine (ok.logged (.computed frame.number frame.session frame.pdu _)).rewritten _ frames holds rfl
      ⟨sameSession, sameRequest, sameId⟩ fun _ => ?_
    exact ⟨frame.number, frame.session, frame.pdu, _, mem_cons_self, sameSession, sameId, sameRequest, rfl⟩
  | dropped _ _ _ _ frames stage =>
    exact ok.encoded frames (Stage.slot_of_encoding (.inr stage))

end

theorem start_ok (sessions : Sessions) (clock : Nat) (world : ω) :
    CacheOk sessions (CacheState.start clock world) where
  owned := by simp [CacheState.start]
  apart := List.Pairwise.nil
  filled := by simp [CacheState.start, cacheInit]

/-- Every reply from the cache was computed for an equal request of the same session. -/
def RepliesOwn (sessions : Sessions) : List CacheEvent → Prop
  | [] => True
  | .cached _ session pdu response :: log =>
    (∃ number earlier reply, .computed number session earlier reply ∈ log ∧ earlier.type = pdu.type ∧
      earlier.requestId = pdu.requestId ∧ earlier.varBinds = pdu.varBinds ∧
      response = encodeStatus (sessions.version session) reply) ∧ RepliesOwn sessions log
  | _ :: log => RepliesOwn sessions log

/-- Neither a reply for another session at the same address nor one to a request of another type fits. -/
def KeepsTypes (sessions : Sessions) (state : CacheState ω) (action : CacheAction ω) : Prop :=
  KeepsOwners sessions state action ∧
    match action with
    | .receive session pdu =>
      ∀ number earlier reply, .computed number session earlier reply ∈ state.log →
        earlier.requestId = pdu.requestId → earlier.varBinds = pdu.varBinds → earlier.type = pdu.type
    | _ => True

theorem cacheStep_repliesOwn {sessions : Sessions} (state : CacheState ω) (action : CacheAction ω)
    (keeps : KeepsTypes sessions state action) (held : CacheOk sessions state ∧ RepliesOwn sessions state.log) :
    CacheOk sessions (cacheStep sessions state action) ∧ RepliesOwn sessions (cacheStep sessions state action).log := by
  obtain ⟨ok, owns⟩ := held
  have turn := cacheStep_inv sessions state action
  refine ⟨turn.ok keeps.1 ok, ?_⟩
  generalize cacheStep sessions state action = after at turn
  cases turn with
  | cached session pdu _ hit =>
    obtain ⟨number, earlier, reply, member, _, idSame, bindsSame, replyEq⟩ := ok.found keeps.1 hit
    exact ⟨⟨number, earlier, reply, member, keeps.2 number earlier reply member idSame bindsSame, idSame, bindsSame,
      replyEq⟩, owns⟩
  | _ => exact owns

/-- In every run that keeps sessions and types apart, a reply from the cache belongs to its request. -/
theorem cacheRun_repliesOwn (sessions : Sessions) (clock : Nat) (world : ω) (actions : List (CacheAction ω))
    (keeps : Meets (cacheStep sessions) (KeepsTypes sessions) (CacheState.start clock world) actions) :
    RepliesOwn sessions (run (cacheStep sessions) (CacheState.start clock world) actions).log :=
  (run_invariant cacheStep_repliesOwn ⟨start_ok sessions clock world, trivial⟩ keeps).2

/-- Sessions of SNMPv2c, each at an address of its own. -/
def sampleSessions : Sessions := ⟨fun _ => .v2c, id⟩

def sampleRequest (type : PduType) : Pdu VarBind := ⟨type, 7, 0, 0, "", [⟨[1, 3, 6, 1], "NULL", ""⟩]⟩

def sampleReply : Response := ⟨noError, 0, [⟨[1, 3, 6, 1], "INTEGER", "42"⟩], none⟩

def servedRequest (type : PduType) : List (CacheAction Unit) :=
  [.receive 0 (sampleRequest type), .reserve, .respond sampleReply (), .finish, .encode true]

theorem cacheRun_repliesOwn_repeated :
    let actions := servedRequest .get ++ [.tick 2, .receive 0 (sampleRequest .get)]
    let final := run (cacheStep sampleSessions) (CacheState.start 1 ()) actions
    final.log.head? = some (.cached 1 0 (sampleRequest .get) sampleReply) ∧ RepliesOwn sampleSessions final.log := by
  refine ⟨by decide, cacheRun_repliesOwn sampleSessions 1 () _ ?_⟩
  refine ⟨⟨?_, ?_⟩, ⟨?_, trivial⟩, ⟨trivial, trivial⟩, ⟨trivial, trivial⟩, ⟨trivial, trivial⟩, ⟨trivial, trivial⟩,
    ⟨?_, ?_⟩, trivial⟩
  · exact fun _ _ _ _ member => by cases member
  · exact fun _ _ _ member => by cases member
  · intro _ member
    obtain rfl := mem_singleton.mp member
    decide
  · exact fun _ _ _ _ _ sameAddress _ _ => sameAddress
  · intro number earlier reply member
    have computed : CacheEvent.computed number 0 earlier reply = .computed 0 0 (sampleRequest .get) sampleReply := by
      rcases mem_cons.mp member with sent | member
      · cases sent
      · exact mem_singleton.mp member
    cases computed
    exact fun _ _ => rfl

/-- A GETNEXT with the id and the varbinds of a GET gets the reply of the GET. -/
theorem getnext_answeredAsGet : ¬ RepliesOwn sampleSessions (run (cacheStep sampleSessions) (CacheState.start 1 ())
      (servedRequest .get ++ [.receive 0 (sampleRequest .getnext)])).log := by
  have log : (run (cacheStep sampleSessions) (.start 1 ())
      (servedRequest .get ++ [.receive 0 (sampleRequest .getnext)])).log =
      [.cached 1 0 (sampleRequest .getnext) sampleReply, .sent 0 0 (sampleRequest .get) sampleReply,
        .computed 0 0 (sampleRequest .get) sampleReply] := by decide
  rw [log]
  rintro ⟨⟨_, _, _, member, sameType, _⟩, _⟩
  simp only [mem_cons, reduceCtorEq, not_mem_nil, or_false, false_or] at member
  cases member
  cases sameType

end Tnm
