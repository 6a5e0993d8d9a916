import TkinedRemix.Ined.MessageQueue

/-!
Messages are evaluated in the order in which they arrive, each of them once, if no flush starts
inside another one and nothing is appended behind a message that the walk has already passed.
-/

namespace Tnm.Ined

open Lib List Function

variable {state after : InedState} {pending cells : List Nat} {p : Option Nat}

@[simp] theorem flushes_wait (outer : List InedFrame) : flushes (.wait :: outer) = flushes outer := rfl

@[simp] theorem flushes_flush (m : Nat) (p : Option Nat) (outer : List InedFrame) :
    flushes (.flush m p :: outer) = (m, p) :: flushes outer := rfl

@[simp] theorem messages_append (first second : List String) :
    messages (first ++ second) = messages first ++ messages second := filter_append ..

theorem texts_cons {heap : Nat → Option Message} {address : Nat} {message : Message}
    (stored : heap address = some message) (rest : List Nat) :
    texts heap (address :: rest) = message.msg :: texts heap rest := by
  simp [texts, stored]

theorem texts_congr {heap other : Nat → Option Message}
    (same : ∀ address ∈ cells, (other address).map Message.msg = (heap address).map Message.msg) :
    texts other cells = texts heap cells :=
  filterMap_congr same

/-- How far the walk over the queue has come; `pending` are the messages not begun. -/
inductive Walk (state : InedState) (pending : List Nat) : Prop
  | idle (free : flushes state.frames = []) (linked : Linked Message.nextPtr state.heap state.queue pending)
      (nodup : pending.Nodup) (scheduled : pending ≠ [] → 0 < state.timers)
  | first (m : Nat) (p : Option Nat) (msg : String) (busy : flushes state.frames = [(m, p)])
      (starts : state.queue = some m) (stored : state.heap m = some ⟨msg, p⟩)
      (linked : Linked Message.nextPtr state.heap p pending) (nodup : (m :: pending).Nodup)
  | later (m : Nat) (p : Option Nat) (message : Message) (busy : flushes state.frames = [(m, p)])
      (dangling : ∀ address ∈ m :: pending, state.queue ≠ some address) (stored : state.heap m = some message)
      (linked : Linked Message.nextPtr state.heap p pending) (nodup : (m :: pending).Nodup)

structure InedOk (state : InedState) (pending : List Nat) : Prop where
  unused : ∀ address, state.allocated ≤ address → state.heap address = none
  walk : Walk state pending
  accounted : messages state.arrived = messages (state.evaluated ++ texts state.heap pending)

structure Standing (state : InedState) (p : Option Nat) (cells : List Nat) : Prop where
  unused : ∀ address, state.allocated ≤ address → state.heap address = none
  free : flushes state.frames = []
  linked : Linked Message.nextPtr state.heap p cells
  nodup : cells.Nodup
  accounted : messages state.arrived = messages (state.evaluated ++ texts state.heap cells)

theorem inedFlushFrom_ok (standing : Standing state p cells)
    (head : state.queue = p ∨ ∀ address ∈ cells, state.queue ≠ some address) :
    ∃ after pending, inedFlushFrom state p = some after ∧ InedOk after pending := by
  obtain ⟨unused, free, linked, nodup, accounted⟩ := standing
  cases cells with
  | nil =>
    cases linked
    refine ⟨{ state with queue := none, reports := state.reports ++ [0] }, [], ?_, unused, ?_, accounted⟩
    · simp [inedFlushFrom, inedQueue, follow]
    · exact .idle free rfl nodup_nil (fun some => absurd rfl some)
  | cons m rest =>
    obtain ⟨rfl, message, stored, linked⟩ := linked
    refine ⟨{ state with
        frames := .flush m message.nextPtr :: state.frames, evaluated := state.evaluated ++ [message.msg] },
      rest, by simp [inedFlushFrom, stored], unused, ?_, ?_⟩
    · have busy : flushes (.flush m message.nextPtr :: state.frames) = [(m, message.nextPtr)] := by
        rw [flushes_flush, free]
      rcases head with starts | dangling
      · exact .first m message.nextPtr message.msg busy starts stored linked nodup
      · exact .later m message.nextPtr message busy dangling stored linked nodup
    · rw [accounted, texts_cons stored, append_assoc, singleton_append]

theorem inedFlushQueue_ok (standing : Standing state state.queue cells) :
    ∃ after pending, inedFlushQueue state = some after ∧ InedOk after pending := by
  by_cases empty : state.queue = none
  · have none : cells = [] := by
      cases cells with
      | nil => rfl
      | cons =>
        have points := standing.linked.1
        cases empty.symm.trans points
    subst none
    refine ⟨state, [], by rw [inedFlushQueue, if_pos empty], standing.unused, ?_, standing.accounted⟩
    exact .idle standing.free standing.linked nodup_nil fun some => absurd rfl some
  · have walked := follow_bounded standing.linked standing.unused
    have reported : Standing { state with reports := state.reports ++ [cells.length] } state.queue cells :=
      ⟨standing.unused, standing.free, standing.linked, standing.nodup, standing.accounted⟩
    obtain ⟨after, pending, done, ok⟩ := inedFlushFrom_ok reported (.inl rfl)
    refine ⟨after, pending, ?_, ok⟩
    simp [inedFlushQueue, empty, inedQueue, walked, done]

structure Appended (msg : String) (cells : List Nat) (state after : InedState) : Prop where
  unused : ∀ address, after.allocated ≤ address → after.heap address = none
  linked : Linked Message.nextPtr after.heap after.queue (cells ++ [state.allocated])
  nodup : (cells ++ [state.allocated]).Nodup
  kept : ∀ address ∈ cells, (after.heap address).map Message.msg = (state.heap address).map Message.msg
  added : (after.heap state.allocated).map Message.msg = some msg
  frames : after.frames = state.frames
  timers : after.timers = state.timers
  arrived : after.arrived = state.arrived
  evaluated : after.evaluated = state.evaluated

theorem inedAppendQueue_ok (msg : String) (unused : ∀ address, state.allocated ≤ address → state.heap address = none)
    (linked : Linked Message.nextPtr state.heap state.queue cells) :
    ∃ after, inedAppendQueue msg state = some after ∧ Appended msg cells state after := by
  have outside : state.allocated ∉ cells := by
    intro member
    obtain ⟨_, stored⟩ := linked.stored member
    rw [unused _ (Nat.le_refl _)] at stored
    cases stored
  have grownUnused : ∀ address, state.allocated + 1 ≤ address →
      update state.heap state.allocated (some ⟨msg, none⟩) address = none := by
    intro address above
    rw [update_of_ne (by omega)]
    exact unused address (by omega)
  rcases eq_nil_or_concat cells with rfl | ⟨init, last, rfl⟩
  · have empty : state.queue = none := linked
    refine ⟨{ state with heap := update state.heap state.allocated (some ⟨msg, none⟩)
                         allocated := state.allocated + 1, queue := some state.allocated }, ?_, ?_⟩
    · simp [inedAppendQueue, empty]
    · exact ⟨grownUnused, ⟨rfl, ⟨msg, none⟩, update_self .., rfl⟩, by simp, by simp, by simp,
        rfl, rfl, rfl, rfl⟩
  · rw [concat_eq_append] at *
    have filled : state.queue ≠ none := by
      intro empty
      rw [empty] at linked
      cases init with
      | nil | cons => cases linked.1
    obtain ⟨old, stored⟩ := linked.stored (mem_append_right init mem_cons_self)
    have allocatedNodes := linked.update outside (some ⟨msg, none⟩)
    have walked := follow_bounded allocatedNodes grownUnused
    have apart : last ≠ state.allocated := fun same => outside (by simp [same])
    have lastStored : update state.heap state.allocated (some ⟨msg, none⟩) last = some old := by
      rw [update_of_ne apart, stored]
    generalize grown : update (update state.heap state.allocated (some ⟨msg, none⟩)) last
      (some { old with nextPtr := some state.allocated }) = heap
    have relinked : Linked Message.nextPtr heap state.queue (init ++ [last] ++ [state.allocated]) := by
      rw [← grown, append_assoc]
      exact linked.snoc outside rfl rfl
    have lastUnused : ∀ address, state.allocated + 1 ≤ address → heap address = none := by
      intro address above
      have below : last < state.allocated := by
        refine Nat.lt_of_not_le fun beyond => ?_
        cases (unused last beyond).symm.trans stored
      rw [← grown, update_of_ne (by omega)]
      exact grownUnused address above
    have rewalked := follow_bounded relinked lastUnused
    refine ⟨{ state with heap, allocated := state.allocated + 1,
                         reports := state.reports ++ [(init ++ [last] ++ [state.allocated]).length] }, ?_, ?_⟩
    · simp [inedAppendQueue, filled, walked, lastStored, grown, inedQueue, rewalked]
    · refine ⟨lastUnused, relinked, relinked.nodup, fun address member => ?_, ?_, rfl, rfl, rfl, rfl⟩
      · have other : address ≠ state.allocated := fun same => outside (same ▸ member)
        dsimp only
        by_cases same : address = last
        · rw [same, ← grown, update_self, stored]
          rfl
        · rw [← grown, update_of_ne same, update_of_ne other]
      · dsimp only
        rw [← grown, update_of_ne (Ne.symm apart), update_self]
        rfl

theorem Appended.texts_eq {msg : String} (appended : Appended msg cells state after) (some : pending ⊆ cells) :
    texts after.heap (pending ++ [state.allocated]) = texts state.heap pending ++ [msg] := by
  have single : texts after.heap [state.allocated] = [msg] := by
    simp [texts, appended.added]
  have same : texts after.heap pending = texts state.heap pending :=
    texts_congr fun address member => appended.kept address (some member)
  rw [texts, filterMap_append, ← texts, ← texts, same, single]

theorem Appended.accounted {line : String}
    (appended : Appended line cells { state with arrived := state.arrived ++ [line] } after) (some : pending ⊆ cells)
    (accounted : messages state.arrived = messages (state.evaluated ++ texts state.heap pending)) :
    messages after.arrived = messages (after.evaluated ++ texts after.heap (pending ++ [state.allocated])) := by
  have behind := appended.texts_eq some
  rw [appended.arrived, appended.evaluated, behind, messages_append, accounted]
  simp

theorem Walk.eq_idle (walk : Walk state pending) (free : flushes state.frames = []) :
    Linked Message.nextPtr state.heap state.queue pending ∧ (pending ≠ [] → 0 < state.timers) := by
  cases walk with
  | idle _ linked _ scheduled => exact ⟨linked, scheduled⟩
  | first _ _ _ busy | later _ _ _ busy => rw [free] at busy; cases busy

theorem Walk.eq_first {m : Nat} (walk : Walk state pending) (busy : flushes state.frames = [(m, p)])
    (starts : state.queue = some m) :
    ∃ msg, state.heap m = some ⟨msg, p⟩ ∧ Linked Message.nextPtr state.heap p pending := by
  cases walk with
  | idle free => rw [free] at busy; cases busy
  | first _ _ msg busy' _ stored linked =>
    rw [busy] at busy'
    cases busy'
    exact ⟨msg, stored, linked⟩
  | later _ _ _ busy' dangling =>
    rw [busy] at busy'
    cases busy'
    exact absurd starts (dangling m mem_cons_self)

theorem Walk.of_flushes (walk : Walk state pending) (heap : after.heap = state.heap) (queue : after.queue = state.queue)
    (timers : after.timers = state.timers) (same : flushes after.frames = flushes state.frames) :
    Walk after pending := by
  cases walk with
  | idle free linked nodup scheduled =>
    exact .idle (same.trans free) (heap ▸ queue ▸ linked) nodup (timers ▸ scheduled)
  | first m p msg busy starts stored linked nodup =>
    exact .first m p msg (same.trans busy) (queue.trans starts) (heap ▸ stored) (heap ▸ linked) nodup
  | later m p message busy dangling stored linked nodup =>
    exact .later m p message (same.trans busy) (queue ▸ dangling) (heap ▸ stored) (heap ▸ linked) nodup

theorem receive_ok (line : String) (ok : InedOk state pending) (free : flushes state.frames = []) :
    ∃ after pending, inedReceiveProc line state = some after ∧ InedOk after pending := by
  obtain ⟨linked, _⟩ := ok.walk.eq_idle free
  obtain ⟨queued, done, appended⟩ := @inedAppendQueue_ok { state with arrived := state.arrived ++ [line] } pending line
    ok.unused linked
  have standing : Standing queued queued.queue (pending ++ [state.allocated]) := by
    refine ⟨appended.unused, ?_, appended.linked, appended.nodup, ?_⟩
    · rw [appended.frames, free]
    · exact appended.accounted (List.Subset.refl _) ok.accounted
  obtain ⟨after, rest, flushed, flushedOk⟩ := inedFlushQueue_ok standing
  exact ⟨after, rest, by simp [inedReceiveProc, done, flushed], flushedOk⟩

theorem timer_ok (ok : InedOk state pending) (free : flushes state.frames = []) :
    ∃ after pending, inedFlushQueue { state with timers := state.timers - 1 } = some after ∧ InedOk after pending := by
  obtain ⟨linked, _⟩ := ok.walk.eq_idle free
  have standing : Standing { state with timers := state.timers - 1 } state.queue pending :=
    ⟨ok.unused, free, linked, linked.nodup, ok.accounted⟩
  exact inedFlushQueue_ok standing

theorem evaluated_ok {m : Nat} {outer : List InedFrame} (ok : InedOk state pending)
    (frames : state.frames = .flush m p :: outer) :
    ∃ after pending, inedEvaluated m p outer state = some after ∧ InedOk after pending := by
  -- whichever message of the walk it is, it is still stored and the rest of the chain does not hold it
  have current : ∃ message, state.heap m = some message ∧ flushes outer = [] ∧
      Linked Message.nextPtr state.heap p pending ∧ (m :: pending).Nodup ∧
        ∀ address ∈ pending, state.queue ≠ some address := by
    cases ok.walk with
    | idle free => rw [frames] at free; cases free
    | first _ _ msg busy starts stored linked nodup =>
      rw [frames] at busy
      obtain ⟨same, none⟩ := cons.inj busy
      cases same
      refine ⟨⟨msg, p⟩, stored, none, linked, nodup, fun address member points => ?_⟩
      cases starts.symm.trans points
      exact (nodup_cons.mp nodup).1 member
    | later _ _ message busy dangling stored linked nodup =>
      rw [frames] at busy
      obtain ⟨same, none⟩ := cons.inj busy
      cases same
      exact ⟨message, stored, none, linked, nodup, fun address member => dangling address (mem_cons_of_mem _ member)⟩
  obtain ⟨_, stored, free, linked, nodup, dangling⟩ := current
  obtain ⟨outside, nodup⟩ := nodup_cons.mp nodup
  have standing : Standing { state with heap := update state.heap m none, frames := outer } p pending := by
    refine ⟨fun address above => ?_, free, linked.update outside none, nodup, ?_⟩
    · by_cases same : address = m
      · simp [same]
      · dsimp only
        rw [update_of_ne same]
        exact ok.unused address above
    · have same : texts (update state.heap m none) pending = texts state.heap pending := by
        refine texts_congr fun address member => ?_
        rw [update_of_ne fun equal : address = m => outside (equal ▸ member)]
      rw [same]
      exact ok.accounted
  obtain ⟨after, rest, done, doneOk⟩ := inedFlushFrom_ok standing (.inr dangling)
  exact ⟨after, rest, by simp [inedEvaluated, stored, done], doneOk⟩

theorem read_ok {line : String} {outer : List InedFrame} (ok : InedOk state pending)
    (safe : InedSafe state (.read line))
    (frames : state.frames = .wait :: outer) :
    ∃ after pending, inedWaitRead line outer state = some after ∧ InedOk after pending := by
  obtain ⟨filled, place⟩ := safe
  unfold inedWaitRead
  rw [if_neg filled]
  by_cases reply : isReply line
  · rw [if_pos reply]
    refine ⟨_, pending, rfl, ok.unused, ok.walk.of_flushes rfl rfl rfl (by rw [frames, flushes_wait]), ?_⟩
    rw [messages_append, ok.accounted]
    simp [messages, reply]
  · rw [if_neg reply]
    rcases place with isReply | free | ⟨m, next, busy, starts⟩
    · exact absurd isReply reply
    · obtain ⟨linked, _⟩ := ok.walk.eq_idle free
      obtain ⟨after, done, appended⟩ :=
        @inedAppendQueue_ok { state with arrived := state.arrived ++ [line] } pending line
        ok.unused linked
      refine ⟨{ after with timers := after.timers + 1 }, pending ++ [state.allocated], by simp [done],
        appended.unused, .idle ?_ appended.linked appended.nodup (fun _ => Nat.succ_pos _),
        appended.accounted (List.Subset.refl _) ok.accounted⟩
      rw [appended.frames, free]
    · obtain ⟨msg, stored, linked⟩ := ok.walk.eq_first busy starts
      obtain ⟨after, done, appended⟩ := @inedAppendQueue_ok { state with arrived := state.arrived ++ [line] }
        (m :: pending) line ok.unused ⟨starts, ⟨msg, some next⟩, stored, linked⟩
      obtain ⟨afterStarts, cell, afterStored, afterLinked⟩ := appended.linked
      -- the first message still points to the second one, where the walk goes on
      have points : cell.nextPtr = some next := by
        cases pending with
        | nil => cases linked
        | cons second =>
          obtain rfl : next = second := Option.some.inj linked.1
          exact afterLinked.1
      refine ⟨{ after with timers := after.timers + 1 }, pending ++ [state.allocated], by simp [done],
        appended.unused, .first m (some next) cell.msg ?_ afterStarts ?_ ?_ appended.nodup,
        appended.accounted (subset_cons_self m pending) ok.accounted⟩
      · rw [appended.frames, busy]
      · rw [afterStored, ← points]
      · rw [← points]
        exact afterLinked

theorem inedTurn_ok (action : InedAction) (ok : InedOk state pending) (safe : InedSafe state action) :
    ∃ after pending, inedTurn state action = some after ∧ InedOk after pending := by
  cases action with
  | receive line =>
    rw [inedTurn]
    split_ifs
    · exact ⟨state, pending, rfl, ok⟩
    · exact receive_ok line ok safe
  | command =>
    rw [inedTurn]
    split_ifs
    · exact ⟨state, pending, rfl, ok⟩
    · exact ⟨_, pending, rfl, ok.unused, ok.walk.of_flushes rfl rfl rfl rfl, ok.accounted⟩
  | read =>
    rw [inedTurn]
    split
    next outer frames => exact read_ok ok safe frames
    · exact ⟨state, pending, rfl, ok⟩
  | timer =>
    rw [inedTurn]
    split_ifs
    · exact ⟨state, pending, rfl, ok⟩
    · exact timer_ok ok safe
  | done =>
    rw [inedTurn]
    split
    next m p outer frames => exact evaluated_ok ok frames
    · exact ⟨state, pending, rfl, ok⟩

def Defined (state : Option InedState) : Prop := ∃ defined pending, state = some defined ∧ InedOk defined pending

theorem inedStart_ok : Defined (some inedStart) :=
  ⟨inedStart, [], rfl, fun _ _ => rfl, .idle rfl rfl nodup_nil (by simp), rfl⟩

theorem inedStep_ok (state : Option InedState) (action : InedAction)
    (safe : ∀ defined, state = some defined → InedSafe defined action) (reached : Defined state) :
    Defined (inedStep state action) := by
  obtain ⟨defined, _, rfl, ok⟩ := reached
  exact inedTurn_ok action ok (safe defined rfl)

theorem InedOk.unbegun_eq (ok : InedOk state pending) : unbegun state = texts state.heap pending := by
  unfold unbegun
  dsimp only
  cases ok.walk with
  | idle free linked => rw [free, follow_bounded linked ok.unused, Option.getD_some]
  | first _ _ _ busy _ _ linked | later _ _ _ busy _ _ linked =>
    rw [busy, follow_bounded linked ok.unused, Option.getD_some]

theorem InedOk.drained (ok : InedOk state pending) (idle : state.frames = []) (unscheduled : state.timers = 0) :
    unbegun state = [] := by
  obtain ⟨_, scheduled⟩ := ok.walk.eq_idle (by rw [idle]; rfl)
  have none : pending = [] := by
    by_contra some
    have waiting := scheduled some
    omega
  rw [ok.unbegun_eq, none]
  rfl

/-- No freed message is used, and messages are evaluated once and in the order they arrived in. -/
theorem messages_evaluated_inOrder (actions : List InedAction)
    (safe : Meets inedStep (fun state action => ∀ defined, state = some defined → InedSafe defined action)
      (some inedStart) actions) : ∃ state, run inedStep (some inedStart) actions = some state ∧
      messages state.arrived = messages (state.evaluated ++ unbegun state) ∧
      (state.frames = [] → state.timers = 0 → unbegun state = []) := by
  obtain ⟨state, _, run, ok⟩ := run_invariant inedStep_ok inedStart_ok safe
  exact ⟨state, run, by rw [ok.unbegun_eq, ok.accounted], ok.drained⟩

def queuedRun : List InedAction :=
  [.command, .read "a", .read "b", .read "ined ok", .timer, .command, .read "c", .read "ined ok", .done, .done, .done,
    .timer]

theorem messages_evaluated_inOrder_queuedRun : ∃ state, run inedStep (some inedStart) queuedRun = some state ∧
      messages state.arrived = messages (state.evaluated ++ unbegun state) ∧
      (state.frames = [] → state.timers = 0 → unbegun state = []) := by
  refine messages_evaluated_inOrder queuedRun ⟨?_, ?_, ?_, ?_, ?_, ?_, ?_, ?_, ?_, ?_, ?_, ?_, trivial⟩
  case refine_7 =>
    rintro _ ⟨⟩
    exact ⟨by decide, .inr (.inr ⟨0, 1, rfl, rfl⟩)⟩
  all_goals
    rintro _ ⟨⟩
    first
    | exact trivial
    | exact (rfl : _ = ([] : List (Nat × Option Nat)))
    | exact ⟨by decide, .inr (.inl rfl)⟩
    | exact ⟨by decide, .inl (by decide)⟩

/-- A message that arrives while the only queued one is evaluated is lost, or that one is repeated. -/
theorem messages_lost_repeated : (∃ state, run inedStep (some inedStart)
        [.command, .read "ined ok", .receive "a", .command, .read "b", .read "ined ok", .done, .timer] = some state ∧
      state.arrived = ["ined ok", "a", "b", "ined ok"] ∧ state.evaluated = ["a"] ∧ state.queue = none ∧
      state.frames = [] ∧ state.timers = 0) ∧
    ∃ state, run inedStep (some inedStart) [.command, .read "ined ok", .receive "a", .receive "b"] = some state ∧
      state.evaluated = ["a", "a"] := by
  exact ⟨⟨_, rfl, by decide⟩, ⟨_, rfl, by decide⟩⟩

end Tnm.Ined
