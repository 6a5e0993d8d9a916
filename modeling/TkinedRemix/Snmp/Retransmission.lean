import TkinedRemix.Snmp.ReplyCache

/-!
A request that is received again finds the reply of its execution until the ring has gone round, the element is
too old or a SET of the session clears it.
-/

namespace Tnm

open Lib List Function Option

variable {ω : Type} {sessions : Sessions} {state after : CacheState ω} {action : CacheAction ω}

def SameKey (sessions : Sessions) (session : Nat) (pdu : Pdu VarBind) (frame : Frame) : Prop :=
  sessions.address frame.session = sessions.address session ∧ frame.pdu.requestId = pdu.requestId ∧
    frame.pdu.varBinds = pdu.varBinds

variable {session now : Nat} {pdu received : Pdu VarBind} {element : CacheElement}

theorem matchesEntry_iff : matchesEntry sessions session pdu now element = true ↔ element.requestId = pdu.requestId ∧
      (∃ owner, element.session = some owner ∧ sessions.address owner = sessions.address session) ∧
      (element.timestamp ≠ 0 ∧ now - element.timestamp ≤ 5) ∧ element.request = pdu.varBinds := by
  simp [matchesEntry, and_assoc, isSession_iff]

theorem matchesEntry_earlier {later : Nat} (order : now ≤ later)
    (matched : matchesEntry sessions session pdu later element = true) :
    matchesEntry sessions session pdu now element = true := by
  rw [matchesEntry_iff] at matched ⊢
  obtain ⟨sameId, sameSession, ⟨stamped, _⟩, sameRequest⟩ := matched
  exact ⟨sameId, sameSession, ⟨stamped, by omega⟩, sameRequest⟩

variable {slot other : Nat}

theorem clearedFor_matches
    (matched : matchesEntry sessions session pdu now (clearedFor sessions state other received slot) = true) :
    matchesEntry sessions session pdu now (state.cache slot) = true := by
  unfold clearedFor cacheClear at matched
  split_ifs at matched with isSet
  · dsimp only at matched
    split_ifs at matched
    · simp [matchesEntry] at matched
    · exact matched
  · exact matched

theorem setSlot_matches
    (same : matchesEntry sessions session pdu now element = true →
      matchesEntry sessions session pdu now (state.cache slot) = true)
    (matched : matchesEntry sessions session pdu now (setSlot state slot element other) = true) :
    matchesEntry sessions session pdu now (state.cache other) = true := by
  by_cases equal : other = slot
  · subst equal
    exact same (by simpa [setSlot] using matched)
  · simpa only [setSlot, update_of_ne equal] using matched

theorem rewritten_matches {response : Response}
    (matched :
      matchesEntry sessions session pdu now (setSlot state slot { state.cache slot with response } other) = true) :
    matchesEntry sessions session pdu now (state.cache other) = true := by
  refine setSlot_matches ?_ matched
  exact fun same => same

theorem CacheTurn.matches (turn : CacheTurn sessions state action after) (ok : CacheOk sessions state)
    (nonzero : pdu.requestId ≠ 0) (matched : matchesEntry sessions session pdu after.clock (after.cache slot) = true) :
    matchesEntry sessions session pdu state.clock (state.cache slot) = true ∨
      ∃ frame ∈ state.frames, frame.stage.slot = some slot ∧ SameKey sessions session pdu frame := by
  cases turn with
  | still _ _ _ later => exact .inl (matchesEntry_earlier later matched)
  | cached other received =>
    have unchanged :=
      @rewritten_matches _ _ { state with cache := clearedFor sessions state other received } _ _ _ _ _ _ matched
    exact .inl (clearedFor_matches unchanged)
  | began => exact .inl (clearedFor_matches matched)
  | reserved =>
    refine .inl (setSlot_matches (fun fresh => ?_) matched)
    exact absurd (matchesEntry_iff.mp fresh).1.symm nonzero
  | aborted => exact .inl matched
  | finished frame _ own frames stage =>
    by_cases equal : slot = own
    · subst equal
      have holds : frame.stage.slot = some slot := by rw [stage]; rfl
      have member : frame ∈ state.frames := frames ▸ mem_cons_self
      obtain ⟨sameSession, sameRequest, _⟩ := ok.owned frame member slot holds
      simp only [finishReply, setSlot, update_self] at matched
      obtain ⟨idEq, ⟨owner, ofOwner, sameAddress⟩, _, requestEq⟩ := matchesEntry_iff.mp matched
      obtain rfl : frame.session = owner := some.inj (sameSession.symm.trans ofOwner)
      exact .inr ⟨frame, member, holds, sameAddress, idEq, sameRequest.symm.trans requestEq⟩
    · simp only [finishReply, setSlot, update_of_ne equal] at matched
      exact .inl matched
  | responded | sent | replaced | dropped => exact .inl (rewritten_matches matched)

def SameElement (version : SnmpVersion) (element after : CacheElement) : Prop :=
  ∃ response, after = { element with response } ∧ encodeStatus version response = encodeStatus version element.response

theorem SameElement.refl (version : SnmpVersion) (element : CacheElement) : SameElement version element element :=
  ⟨element.response, rfl, rfl⟩

theorem clearedFor_same (ofSession : (state.cache slot).session = some session)
    (notCleared : sessions.address other = sessions.address session → received.type ≠ .set) :
    clearedFor sessions state other received slot = state.cache slot := by
  unfold clearedFor cacheClear
  split_ifs with isSet
  · dsimp only
    rw [if_neg]
    intro ofOther
    obtain ⟨owner, ofOwner, sameAddress⟩ := isSession_iff.mp ofOther
    obtain rfl : owner = session := some.inj (ofOwner.symm.trans ofSession)
    exact notCleared sameAddress.symm isSet
  · rfl

def Unheld (state : CacheState ω) (slot : Nat) : Prop :=
  ∀ frame rest, state.frames = frame :: rest → frame.stage.slot ≠ some slot

def Rewritten (version : SnmpVersion) (state : CacheState ω) (slot : Nat) (element : CacheElement) : Prop :=
  element.timestamp = (state.cache slot).timestamp ∧
    (Unheld state slot → SameElement version (state.cache slot) element)

theorem Rewritten.refl (version : SnmpVersion) (state : CacheState ω) (slot : Nat) :
    Rewritten version state slot (state.cache slot) :=
  ⟨rfl, fun _ => .refl version _⟩

theorem setSlot_rewritten {version : SnmpVersion} {frame : Frame} {rest : List Frame} {own : Nat}
    (frames : state.frames = frame :: rest) (holds : frame.stage.slot = some own)
    (sameTime : element.timestamp = (state.cache own).timestamp) :
    Rewritten version state slot (setSlot state own element slot) := by
  by_cases equal : slot = own
  · subst equal
    exact ⟨by simpa [setSlot] using sameTime, fun unheld => absurd holds (unheld frame rest frames)⟩
  · rw [setSlot, update_of_ne equal]
    exact .refl version state slot

theorem CacheTurn.keeps (turn : CacheTurn sessions state action after) (ok : CacheOk sessions state)
    (keeps : KeepsOwners sessions state action) (ofSession : (state.cache slot).session = some session)
    (notCleared : ∀ other received, action = .receive other received →
      sessions.address other = sessions.address session → received.type ≠ .set)
    (notNext : action = .reserve → after.gets = state.gets + 1 → slot ≠ nextSlot state.last) :
    Rewritten (sessions.version session) state slot (after.cache slot) := by
  cases turn with
  | still | aborted => exact .refl _ _ _
  | cached other received hitSlot hit =>
    have same : clearedFor sessions state other received slot = state.cache slot :=
      clearedFor_same ofSession (notCleared other received rfl)
    by_cases equal : slot = hitSlot
    · subst equal
      obtain ⟨_, _, _, _, ofOther, _⟩ := ok.found keeps hit
      obtain rfl : other = session := some.inj (ofOther.symm.trans (by rw [same, ofSession]))
      simp only [answerCached, update_self, same]
      exact ⟨rfl, fun _ => ⟨_, rfl, encodeStatus_idem _ _⟩⟩
    · simp only [answerCached, update_of_ne equal, same]
      exact .refl _ _ _
  | began other received =>
    have same : clearedFor sessions state other received slot = state.cache slot :=
      clearedFor_same ofSession (notCleared other received rfl)
    simp only [beginRequest, same]
    exact .refl _ _ _
  | reserved =>
    simp only [reserveSlot, setSlot, update_of_ne (notNext rfl rfl)]
    exact .refl _ _ _
  | responded _ _ _ _ _ frames stage | finished _ _ _ frames stage | replaced _ _ _ _ frames stage
  | dropped _ _ _ _ frames stage => exact setSlot_rewritten frames (by rw [stage]; rfl) rfl
  | sent _ _ _ _ frames stage => exact setSlot_rewritten frames (Stage.slot_of_encoding stage) rfl

theorem CacheTurn.frames (turn : CacheTurn sessions state action after) : ∀ frame ∈ after.frames, frame ∈ state.frames ∨
      (∃ top rest stage, state.frames = top :: rest ∧ frame = { top with stage }) ∨
      ∃ session pdu, action = .receive session pdu ∧ frame = ⟨state.received, session, pdu, .begun⟩ ∧
        cacheHit sessions session pdu state.clock (clearedFor sessions state session pdu) = none := by
  intro _ member
  cases turn with
  | still | cached | responded => exact .inl member
  | began session pdu missed =>
    rcases mem_cons.mp member with rfl | member
    · exact .inr (.inr ⟨session, pdu, rfl, rfl, missed⟩)
    · exact .inl member
  | aborted top _ _ frames | sent _ top _ _ frames | dropped _ top _ _ frames =>
    exact .inl (frames ▸ mem_cons_of_mem top member)
  | reserved top rest frames | finished top rest _ frames | replaced _ top rest _ frames =>
    rcases mem_cons.mp member with rfl | member
    · exact .inr (.inl ⟨top, rest, _, frames, rfl⟩)
    · exact .inl (frames ▸ mem_cons_of_mem top member)

structure Numbered (state : CacheState ω) : Prop where
  ring : state.last = state.gets % cacheSize
  below : ∀ frame ∈ state.frames, frame.number < state.received
  distinct : state.frames.Pairwise fun inner outer => inner.number ≠ outer.number
  sent : ∀ number session pdu response, .sent number session pdu response ∈ state.log →
    number < state.received ∧ ∀ frame ∈ state.frames, frame.number ≠ number

theorem start_numbered (clock : Nat) (world : ω) : Numbered (CacheState.start clock world) where
  ring := rfl
  below := by simp [CacheState.start]
  distinct := List.Pairwise.nil
  sent := by simp [CacheState.start]

theorem CacheTurn.grows (turn : CacheTurn sessions state action after) :
    state.gets ≤ after.gets ∧ state.clock ≤ after.clock ∧ state.received ≤ after.received := by
  cases turn with
  | still _ _ _ later => exact ⟨le_rfl, later, le_rfl⟩
  | reserved => exact ⟨Nat.le_succ _, le_rfl, le_rfl⟩
  | cached | began => exact ⟨le_rfl, le_rfl, Nat.le_succ _⟩
  | _ => exact ⟨le_rfl, le_rfl, le_rfl⟩

theorem Numbered.absent {frame : Frame} {rest : List Frame} (numbered : Numbered state)
    (frames : state.frames = frame :: rest) :
    ¬ ∃ other ∈ rest, other.number = frame.number := by
  have distinct := numbered.distinct
  rw [frames, pairwise_cons] at distinct
  rintro ⟨other, member, same⟩
  exact distinct.1 other member same.symm

theorem CacheTurn.numbers (turn : CacheTurn sessions state action after) :
    (after.frames.map Frame.number).Sublist (state.frames.map Frame.number) ∨
      after.frames.map Frame.number = state.received :: state.frames.map Frame.number ∧
        after.received = state.received + 1 := by
  cases turn with
  | still | cached | responded => exact .inl (.refl _)
  | began => exact .inr ⟨rfl, rfl⟩
  | reserved _ _ frames | finished _ _ _ frames | replaced _ _ _ _ frames =>
    left
    rw [frames]
    exact .refl _
  | aborted _ _ _ frames | sent _ _ _ _ frames | dropped _ _ _ _ frames =>
    left
    rw [frames]
    exact sublist_cons_self _ _

theorem CacheTurn.sentBefore (turn : CacheTurn sessions state action after) {number : Nat} {response : Response}
    (member : .sent number other received response ∈ after.log) :
    .sent number other received response ∈ state.log ∨ ∃ top, state.frames = top :: after.frames ∧
      top.number = number := by
  cases turn with
  | cached => exact .inl (by simpa [answerCached] using member)
  | finished => exact .inl (by simpa [finishReply] using member)
  | replaced => exact .inl (by simpa [replaceReply] using member)
  | sent _ top _ _ frames =>
    rcases mem_cons.mp member with equal | member
    · cases equal
      exact .inr ⟨top, frames, rfl⟩
    · exact .inl member
  | _ => exact .inl member

theorem CacheTurn.numbered (turn : CacheTurn sessions state action after) (numbered : Numbered state) :
    Numbered after := by
  have known : ∀ frame ∈ after.frames, (∃ old ∈ state.frames, old.number = frame.number) ∨
      frame.number = state.received ∧ after.received = state.received + 1 := by
    intro frame member
    have inside : frame.number ∈ after.frames.map Frame.number := mem_map_of_mem member
    rcases turn.numbers with fewer | ⟨more, grown⟩
    · exact .inl (mem_map.mp (fewer.subset inside))
    · rw [more] at inside
      rcases mem_cons.mp inside with fresh | inside
      · exact .inr ⟨fresh, grown⟩
      · exact .inl (mem_map.mp inside)
  have received := turn.grows.2.2
  refine ⟨?_, fun frame member => ?_, ?_, fun number session pdu response member => ?_⟩
  · cases turn with
    | reserved =>
      simp only [reserveSlot, nextSlot, numbered.ring, cacheSize]
      omega
    | _ => exact numbered.ring
  · rcases known frame member with ⟨old, oldMember, same⟩ | ⟨fresh, grown⟩
    · exact same ▸ (numbered.below old oldMember).trans_le received
    · omega
  · have distinct := pairwise_map.mpr numbered.distinct
    rcases turn.numbers with fewer | ⟨more, _⟩
    · exact pairwise_map.mp (distinct.sublist fewer)
    · refine pairwise_map.mp (more ▸ pairwise_cons.mpr ⟨fun number member => ?_, distinct⟩)
      obtain ⟨old, oldMember, rfl⟩ := mem_map.mp member
      exact (numbered.below old oldMember).ne'
  · rcases turn.sentBefore member with before | ⟨top, frames, rfl⟩
    · have done := numbered.sent number session pdu response before
      refine ⟨done.1.trans_le received, fun frame inner same => ?_⟩
      rcases known frame inner with ⟨old, oldMember, kept⟩ | ⟨fresh, _⟩
      · exact done.2 old oldMember (kept.trans same)
      · omega
    · refine ⟨(numbered.below top (frames ▸ mem_cons_self)).trans_le received, fun frame inner same => ?_⟩
      exact numbered.absent frames ⟨frame, inner, same⟩

def Processing (number : Nat) (state : CacheState ω) : Prop := ∃ frame ∈ state.frames, frame.number = number

/-- No SET and no second request with the same key meanwhile, and every element stays with its owner. -/
def Undisturbed (sessions : Sessions) (session : Nat) (pdu : Pdu VarBind) (number : Nat) (state : CacheState ω)
    (action : CacheAction ω) : Prop :=
  KeepsOwners sessions state action ∧
    ∀ other received, action = .receive other received →
      (sessions.address other = sessions.address session → received.type ≠ .set) ∧
        (Processing number state → ¬ SameKey sessions session pdu ⟨state.received, other, received, .begun⟩)

section

variable (sessions : Sessions) (session : Nat) (pdu : Pdu VarBind) (number since first : Nat)

def Others (state : CacheState ω) : Prop :=
  ∀ frame ∈ state.frames, frame.number ≠ number → ¬ SameKey sessions session pdu frame

def Clean (own : Option Nat) (state : CacheState ω) : Prop :=
  ∀ slot < cacheSize, own ≠ some slot → matchesEntry sessions session pdu state.clock (state.cache slot) = false

def Kept (reply : Response) (element : CacheElement) : Prop :=
  element.session = some session ∧ element.request = pdu.varBinds ∧ element.requestId = pdu.requestId ∧
    (element.timestamp ≠ 0 ∧ since ≤ element.timestamp) ∧ encodeStatus (sessions.version session) element.response =
      reply

/-- The stages of the first reception. -/
inductive Phase (state : CacheState ω) : Prop
  | begun (member : ⟨number, session, pdu, .begun⟩ ∈ state.frames) (others : Others sessions session pdu number state)
      (clean : Clean sessions session pdu none state)
  | working (stage : Stage) (get : Nat) (member : ⟨number, session, pdu, stage⟩ ∈ state.frames)
      (holds : stage.slot = some (get % cacheSize)) (later : first < get) (done : get ≤ state.gets)
      (stamped : (state.cache (get % cacheSize)).timestamp ≠ 0 ∧ since ≤ (state.cache (get % cacheSize)).timestamp)
      (others : Others sessions session pdu number state)
      (clean : Clean sessions session pdu (some (get % cacheSize)) state)
  | answered (reply : Response) (get : Nat) (absent : ¬ Processing number state) (later : first < get)
      (done : get ≤ state.gets) (kept : Kept sessions session pdu since reply (state.cache (get % cacheSize)))
      (sent : ∀ other received response, .sent number other received response ∈ state.log → response = reply)
      (others : Others sessions session pdu number state)
      (clean : Clean sessions session pdu (some (get % cacheSize)) state)
  | lost (absent : ¬ Processing number state)
      (unsent : ∀ other received response, .sent number other received response ∉ state.log)

variable {sessions session pdu number since first} {frame : Frame}

theorem Numbered.eq_of_number (numbered : Numbered state) {other : Frame} (member : frame ∈ state.frames)
    (otherMember : other ∈ state.frames) (same : frame.number = other.number) : frame = other := by
  have nodup : (state.frames.map Frame.number).Nodup := pairwise_map.mpr numbered.distinct
  exact inj_on_of_nodup_map nodup member otherMember same

variable {slot : Nat}

theorem Clean.mono (clean : Clean sessions session pdu none state) : Clean sessions session pdu (some slot) state :=
  fun other inRing _ => clean other inRing (by simp)

section

variable (turn : CacheTurn sessions state action after)
include turn

theorem CacheTurn.clean {own : Option Nat} (ok : CacheOk sessions state) (nonzero : pdu.requestId ≠ 0)
    (clean : Clean sessions session pdu own state) (others : Others sessions session pdu number state)
    (mine : ∀ frame ∈ state.frames, frame.number = number → frame.stage.slot = own) :
    Clean sessions session pdu own after := by
  intro slot inRing differs
  by_contra matched
  rw [Bool.not_eq_false] at matched
  rcases turn.matches ok nonzero matched with before | ⟨frame, member, holds, same⟩
  · exact absurd before (by simp [clean slot inRing differs])
  · by_cases equal : frame.number = number
    · exact differs ((mine frame member equal).symm.trans holds)
    · exact others frame member equal same

theorem CacheTurn.others (others : Others sessions session pdu number state)
    (novel : ∀ other received, action = .receive other received →
      cacheHit sessions other received state.clock (clearedFor sessions state other received) = none →
      ¬ SameKey sessions session pdu ⟨state.received, other, received, .begun⟩) :
        Others sessions session pdu number after := by
  intro frame member differs
  rcases turn.frames frame member with before | ⟨top, _, _, frames, rfl⟩ | ⟨other, received, isReceive, rfl, missed⟩
  · exact others frame before differs
  · exact others top (frames ▸ mem_cons_self) differs
  · exact novel other received isReceive missed

theorem CacheTurn.absent (known : number < state.received) (absent : ¬ Processing number state) :
    ¬ Processing number after := by
  rintro ⟨frame, member, same⟩
  rcases turn.frames frame member with before | ⟨top, _, _, frames, rfl⟩ | ⟨_, _, _, rfl, _⟩
  · exact absent ⟨frame, before, same⟩
  · exact absent ⟨top, frames ▸ mem_cons_self, same⟩
  · exact known.ne' same

theorem CacheTurn.unsent (absent : ¬ Processing number state) {other : Nat} {received : Pdu VarBind}
    {response : Response} (member : .sent number other received response ∈ after.log) :
    .sent number other received response ∈ state.log :=
  (turn.sentBefore member).resolve_right fun ⟨top, frames, same⟩ => absent ⟨top, frames ▸ mem_cons_self, same⟩

end

section

variable (undisturbed : Undisturbed sessions session pdu number state action)
include undisturbed

theorem Undisturbed.notCleared (other : Nat) (received : Pdu VarBind) (isReceive : action = .receive other received)
    (sameAddress : sessions.address other = sessions.address session) : received.type ≠ .set :=
  (undisturbed.2 other received isReceive).1 sameAddress

theorem Undisturbed.others (turn : CacheTurn sessions state action after) (processing : Processing number state)
    (others : Others sessions session pdu number state) : Others sessions session pdu number after := by
  refine turn.others others fun other received isReceive _ => ?_
  exact (undisturbed.2 other received isReceive).2 processing

end

theorem CacheTurn.stays (turn : CacheTurn sessions state action after) (member : frame ∈ state.frames)
    (below : ∀ rest, state.frames ≠ frame :: rest) : frame ∈ after.frames := by
  have inner : ∀ {top : Frame} {rest : List Frame}, state.frames = top :: rest → frame ∈ rest := by
    intro _ rest frames
    rw [frames] at member
    rcases mem_cons.mp member with rfl | member
    · exact absurd frames (below rest)
    · exact member
  cases turn with
  | still | cached | responded => exact member
  | began => exact mem_cons_of_mem _ member
  | reserved _ _ frames | finished _ _ _ frames | replaced _ _ _ _ frames => exact mem_cons_of_mem _ (inner frames)
  | aborted _ _ _ frames | sent _ _ _ _ frames | dropped _ _ _ _ frames => exact inner frames

theorem nextSlot_get (numbered : Numbered state) : nextSlot state.last = (state.gets + 1) % cacheSize := by
  rw [nextSlot, numbered.ring, cacheSize]
  omega

theorem Numbered.unsent (numbered : Numbered state) (processing : Processing number state) :
    ∀ other received response, .sent number other received response ∉ state.log := by
  obtain ⟨frame, member, same⟩ := processing
  intro other received response found
  exact (numbered.sent number other received response found).2 frame member same

variable {reply : Response} {now : Nat}

theorem Kept.matches {element : CacheElement} (kept : Kept sessions session pdu since reply element)
    (soon : now ≤ since + 5) : matchesEntry sessions session pdu now element = true := by
  obtain ⟨sameSession, sameRequest, sameId, ⟨stamped, _⟩, _⟩ := kept
  exact matchesEntry_iff.mpr ⟨sameId, ⟨session, sameSession, rfl⟩, ⟨stamped, by omega⟩, sameRequest⟩

theorem Kept.unowned (kept : Kept sessions session pdu since reply (state.cache slot)) (ok : CacheOk sessions state)
    (nonzero : pdu.requestId ≠ 0) (absent : ¬ Processing number state)
    (others : Others sessions session pdu number state) : ∀ frame ∈ state.frames, frame.stage.slot ≠ some slot := by
  intro frame member holds
  obtain ⟨sameSession, sameRequest, shown⟩ := ok.owned frame member slot holds
  obtain ⟨keptSession, keptRequest, keptId, _⟩ := kept
  have ownId : frame.shownId = pdu.requestId := shown.symm.trans keptId
  have sameId : frame.pdu.requestId = pdu.requestId := by
    unfold Frame.shownId at ownId
    split at ownId
    · exact absurd ownId.symm nonzero
    · exact absurd ownId.symm nonzero
    · exact ownId
    · exact ownId
  refine others frame member (fun same => absent ⟨frame, member, same⟩) ⟨?_, sameId, ?_⟩
  · exact congrArg sessions.address (some.inj (sameSession.symm.trans keptSession))
  · exact sameRequest.symm.trans keptRequest

theorem Kept.same {element after : CacheElement} (kept : Kept sessions session pdu since reply element)
    (same : SameElement (sessions.version session) element after) : Kept sessions session pdu since reply after := by
  obtain ⟨_, rfl, encoded⟩ := same
  obtain ⟨sameSession, sameRequest, sameId, stamped, sent⟩ := kept
  exact ⟨sameSession, sameRequest, sameId, stamped, encoded.trans sent⟩

theorem cacheHit_none {cache : Cache} (missed : cacheHit sessions session pdu now cache = none)
    (nonzero : pdu.requestId ≠ 0)
    (inRing : slot < cacheSize) : matchesEntry sessions session pdu now (cache slot) = false := by
  rw [cacheHit, if_neg nonzero, find?_eq_none] at missed
  simpa using missed slot (mem_range.mpr inRing)

theorem cacheHit_matches {cache : Cache} (hit : cacheHit sessions session pdu now cache = some slot) :
    matchesEntry sessions session pdu now (cache slot) = true := by
  have found := hit
  rw [cacheHit, if_neg (cacheHit_some hit).1] at found
  have matched := find?_some found
  exact matched

section

variable (turn : CacheTurn sessions state action after) (ok : CacheOk sessions state) (numbered : Numbered state)
  (nonzero : pdu.requestId ≠ 0) (undisturbed : Undisturbed sessions session pdu number state action)
include turn ok numbered nonzero undisturbed

theorem begun_step (positive : 0 < since) (begunAt : since ≤ state.clock) (getsFrom : first ≤ state.gets)
    (member : ⟨number, session, pdu, .begun⟩ ∈ state.frames)
    (others : Others sessions session pdu number state) (clean : Clean sessions session pdu none state) :
    Phase sessions session pdu number since first after := by
  have othersAfter : Others sessions session pdu number after := undisturbed.others turn ⟨_, member, rfl⟩ others
  have cleanAfter : Clean sessions session pdu none after :=
      turn.clean ok nonzero clean others fun frame found same => by
    rw [numbered.eq_of_number found member same]
    rfl
  by_cases top : ∃ rest, state.frames = ⟨number, session, pdu, .begun⟩ :: rest
  · obtain ⟨rest, onTop⟩ := top
    have own : ∀ {frame : Frame} {others}, state.frames = frame :: others → frame = ⟨number, session, pdu, .begun⟩ :=
      fun frames => (cons.inj (frames.symm.trans onTop)).1
    cases turn with
    | still | cached => exact .begun member othersAfter cleanAfter
    | began => exact .begun (mem_cons_of_mem _ member) othersAfter cleanAfter
    | reserved frame _ frames =>
      obtain rfl := own frames
      refine .working _ (state.gets + 1) mem_cons_self (congrArg some (nextSlot_get numbered))
        (Nat.lt_succ_of_le getsFrom) le_rfl ?_ othersAfter cleanAfter.mono
      rw [← nextSlot_get numbered]
      simp only [reserveSlot, setSlot, update_self, reserved]
      exact ⟨by omega, begunAt⟩
    | responded _ _ _ _ _ frames stage | aborted _ _ _ frames stage | finished _ _ _ frames stage
    | replaced _ _ _ _ frames stage | dropped _ _ _ _ frames stage =>
      rw [own frames] at stage
      cases stage
    | sent _ _ _ _ frames stage =>
      rw [own frames] at stage
      rcases stage with stage | stage <;> cases stage
  · exact .begun (turn.stays member fun rest onTop => top ⟨rest, onTop⟩) othersAfter cleanAfter

theorem working_step {stage : Stage} {get : Nat} (member : ⟨number, session, pdu, stage⟩ ∈ state.frames)
    (holds : stage.slot = some (get % cacheSize))
    (later : first < get) (done : get ≤ state.gets)
    (stamped : (state.cache (get % cacheSize)).timestamp ≠ 0 ∧ since ≤ (state.cache (get % cacheSize)).timestamp)
    (others : Others sessions session pdu number state)
    (clean : Clean sessions session pdu (some (get % cacheSize)) state) :
    Phase sessions session pdu number since first after := by
  have owner := ok.owned _ member _ holds
  have othersAfter : Others sessions session pdu number after := undisturbed.others turn ⟨_, member, rfl⟩ others
  have cleanAfter : Clean sessions session pdu (some (get % cacheSize)) after :=
    turn.clean ok nonzero clean others fun frame found same => by
      rw [numbered.eq_of_number found member same]
      exact holds
  have doneAfter : get ≤ after.gets := done.trans turn.grows.1
  have kept := turn.keeps ok undisturbed.1 (show (state.cache (get % cacheSize)).session = _ from owner.1)
    undisturbed.notCleared (by
      rintro rfl _ equal
      exact undisturbed.1 _ member (by rw [← equal]; exact holds))
  rw [← kept.1] at stamped
  have unsent := numbered.unsent ⟨_, member, rfl⟩
  by_cases top : ∃ rest, state.frames = ⟨number, session, pdu, stage⟩ :: rest
  · obtain ⟨rest, onTop⟩ := top
    have own : ∀ {frame : Frame} {others}, state.frames = frame :: others → frame = ⟨number, session, pdu, stage⟩ :=
      fun frames => (cons.inj (frames.symm.trans onTop)).1
    cases turn with
    | still | cached | responded =>
      exact .working stage get member holds later doneAfter stamped othersAfter cleanAfter
    | began =>
      exact .working stage get (mem_cons_of_mem _ member) holds later doneAfter stamped othersAfter cleanAfter
    | reserved _ _ frames begun =>
      obtain rfl := own frames
      obtain rfl : stage = .begun := begun
      cases holds
    | aborted _ _ _ frames | dropped _ _ _ _ frames =>
      obtain rfl := own frames
      exact .lost (numbered.absent frames) unsent
    | finished _ _ slot frames executing =>
      obtain rfl := own frames
      obtain rfl : stage = .executing slot := executing
      exact .working (.ending slot) get mem_cons_self holds later doneAfter stamped othersAfter cleanAfter
    | sent _ _ _ slot frames encoding =>
      obtain rfl := own frames
      obtain rfl : slot = get % cacheSize := some.inj ((Stage.slot_of_encoding encoding).symm.trans holds)
      have shown : (state.cache (get % cacheSize)).requestId = pdu.requestId := by
        rw [owner.2.2]
        rcases encoding with rfl | rfl <;> rfl
      refine .answered (encodeStatus (sessions.version session) (state.cache (get % cacheSize)).response) get
        (numbered.absent frames) later doneAfter ?_ ?_ othersAfter cleanAfter
      · simp only [sendReply, setSlot, update_self] at stamped ⊢
        exact ⟨owner.1, owner.2.1, shown, stamped, encodeStatus_idem _ _⟩
      · intro other received response found
        rcases mem_cons.mp found with equal | found
        · cases equal
          rfl
        · exact absurd found (unsent other received response)
    | replaced _ _ _ slot frames ending =>
      obtain rfl := own frames
      obtain rfl : stage = .ending slot := ending
      exact .working (.resending slot) get mem_cons_self holds later doneAfter stamped othersAfter cleanAfter
  · exact .working stage get (turn.stays member fun rest onTop => top ⟨rest, onTop⟩) holds later doneAfter stamped
      othersAfter cleanAfter

theorem answered_step {get : Nat} (known : number < state.received) (few : after.gets ≤ first + cacheSize)
    (soon : state.clock ≤ since + 5) (absent : ¬ Processing number state) (later : first < get)
    (done : get ≤ state.gets)
    (kept : Kept sessions session pdu since reply (state.cache (get % cacheSize)))
    (sent : ∀ other received response, .sent number other received response ∈ state.log → response = reply)
    (others : Others sessions session pdu number state)
    (clean : Clean sessions session pdu (some (get % cacheSize)) state) :
    Phase sessions session pdu number since first after := by
  have unowned := kept.unowned ok nonzero absent others
  have same := (turn.keeps ok undisturbed.1 kept.1 undisturbed.notCleared (by
    intro _ advanced
    rw [nextSlot_get numbered]
    simp only [cacheSize] at few ⊢
    omega)).2 fun frame rest frames => unowned frame (frames ▸ mem_cons_self)
  refine .answered reply get (turn.absent known absent) later (done.trans turn.grows.1)
    (kept.same same) (fun other received response found => sent other received response (turn.unsent absent found))
    (turn.others others ?_) (turn.clean ok nonzero clean others fun frame member number =>
      absurd ⟨frame, member, number⟩ absent)
  -- Another request with the same key would find the element.
  rintro other received isReceive missed ⟨sameAddress, sameId, sameRequest⟩
  have hit : matchesEntry sessions other received state.clock (state.cache (get % cacheSize)) = true := by
    have matched := kept.matches soon
    rw [matchesEntry_iff] at matched ⊢
    rw [show received.requestId = pdu.requestId from sameId, show received.varBinds = pdu.varBinds from sameRequest,
      show sessions.address other = sessions.address session from sameAddress]
    exact matched
  have miss := cacheHit_none missed (by rw [show received.requestId = pdu.requestId from sameId]; exact nonzero)
    (Nat.mod_lt get (by decide))
  rw [clearedFor_same kept.1 (undisturbed.notCleared other received isReceive), hit] at miss
  cases miss

end

structure Followed (sessions : Sessions) (session : Nat) (pdu : Pdu VarBind) (number since first : Nat)
    (state : CacheState ω) : Prop where
  ok : CacheOk sessions state
  numbered : Numbered state
  known : number < state.received
  clock : since ≤ state.clock
  gets : first ≤ state.gets
  phase : state.gets ≤ first + cacheSize → state.clock ≤ since + 5 → Phase sessions session pdu number since first state

theorem followed_step (nonzero : pdu.requestId ≠ 0) (positive : 0 < since) (state : CacheState ω)
    (action : CacheAction ω) (undisturbed : Undisturbed sessions session pdu number state action)
    (followed : Followed sessions session pdu number since first state) :
    Followed sessions session pdu number since first (cacheStep sessions state action) := by
  obtain ⟨ok, numbered, known, clock, gets, phase⟩ := followed
  have turn := cacheStep_inv sessions state action
  obtain ⟨moreGets, laterClock, moreReceived⟩ := turn.grows
  refine ⟨turn.ok undisturbed.1 ok, turn.numbered numbered, known.trans_le moreReceived,
    clock.trans laterClock, gets.trans moreGets, fun few soon => ?_⟩
  have soonBefore : state.clock ≤ since + 5 := laterClock.trans soon
  cases phase (moreGets.trans few) soonBefore with
  | begun member others clean =>
    exact begun_step turn ok numbered nonzero undisturbed positive clock gets member others clean
  | working _ _ member holds later done stamped others clean =>
    exact working_step turn ok numbered nonzero undisturbed member holds later done stamped others clean
  | answered _ _ absent later done kept sent others clean =>
    exact answered_step turn ok numbered nonzero undisturbed known few soonBefore absent later done kept sent others
      clean
  | lost absent unsent =>
    exact .lost (turn.absent known absent) fun other received response found =>
      unsent other received response (turn.unsent absent found)

theorem clearedFor_get {received : Pdu VarBind} (notSet : received.type ≠ .set) (other : Nat) :
    clearedFor sessions state other received = state.cache := by
  rw [clearedFor, if_neg notSet]

theorem followed_start (ok : CacheOk sessions state) (numbered : Numbered state) (notSet : pdu.type ≠ .set)
    (nonzero : pdu.requestId ≠ 0) (missed : cacheHit sessions session pdu state.clock state.cache = none)
    (alone : ∀ frame ∈ state.frames, ¬ SameKey sessions session pdu frame) :
    Followed sessions session pdu state.received state.clock state.gets
      (cacheStep sessions state (.receive session pdu)) := by
  have begins : cacheStep sessions state (.receive session pdu) = beginRequest state session pdu state.cache := by
    simp only [cacheStep, receiveRequest, clearedFor_get notSet, missed]
  have turn := cacheStep_inv sessions state (.receive session pdu)
  have pushed := ok.pushed ⟨state.received, session, pdu, .begun⟩ (fun _ holds => by cases holds)
    (fun _ holds => by cases holds)
  have numberedAfter := turn.numbered numbered
  rw [begins] at numberedAfter ⊢
  refine ⟨⟨pushed.owned, pushed.apart, pushed.filled⟩, numberedAfter, Nat.lt_succ_self _, le_rfl, le_rfl, fun _ _ => ?_⟩
  refine .begun mem_cons_self ?_ fun slot inRing _ => cacheHit_none missed nonzero inRing
  intro frame member differs
  rcases mem_cons.mp member with rfl | member
  · exact absurd rfl differs
  · exact alone frame member

theorem Followed.hits (followed : Followed sessions session pdu number since first state) (nonzero : pdu.requestId ≠ 0)
    (few : state.gets ≤ first + cacheSize) (soon : state.clock ≤ since + 5)
    (answered : .sent number session pdu reply ∈ state.log) :
    ∃ slot, cacheHit sessions session pdu state.clock state.cache = some slot ∧
      encodeStatus (sessions.version session) (state.cache slot).response = reply := by
  cases followed.phase few soon with
  | begun member => exact absurd answered (followed.numbered.unsent ⟨_, member, rfl⟩ _ _ _)
  | working _ _ member =>
    exact absurd answered (followed.numbered.unsent ⟨_, member, rfl⟩ _ _ _)
  | lost _ unsent => exact absurd answered (unsent _ _ _)
  | answered stored get _ _ _ kept sent _ clean =>
    obtain rfl : reply = stored := sent _ _ _ answered
    cases hit : cacheHit sessions session pdu state.clock state.cache with
    | none =>
      have missed := cacheHit_none hit nonzero (Nat.mod_lt get (by decide))
      cases (kept.matches soon).symm.trans missed
    | some slot =>
      refine ⟨slot, rfl, ?_⟩
      obtain ⟨_, inRing, _⟩ := cacheHit_some hit
      have matched := cacheHit_matches hit
      by_cases own : slot = get % cacheSize
      · rw [own]
        exact kept.2.2.2.2
      · rw [clean slot inRing fun same => own (some.inj same).symm] at matched
        cases matched

end

theorem cacheStep_running (state : CacheState ω) (action : CacheAction ω) (keeps : KeepsOwners sessions state action)
    (held : CacheOk sessions state ∧ Numbered state ∧ 0 < state.clock) :
    CacheOk sessions (cacheStep sessions state action) ∧ Numbered (cacheStep sessions state action) ∧
      0 < (cacheStep sessions state action).clock := by
  obtain ⟨ok, numbered, positive⟩ := held
  have turn := cacheStep_inv sessions state action
  exact ⟨turn.ok keeps ok, turn.numbered numbered, positive.trans_le turn.grows.2.1⟩

end Tnm
