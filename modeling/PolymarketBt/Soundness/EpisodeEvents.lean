import PolymarketBt.Model.EpisodeEvents
import PolymarketBt.Proofs.MirroredBooks
import PolymarketBt.Soundness.AsOfExecution
import PolymarketBt.Soundness.TapeRefinement

/-! # The cross-check and the tape

The cross-check sends the reference engine the rows that its probe accepts, and the engine gives up
at the first event that a book refuses. The events below never make it give up, whatever it executes
between them, and the books it goes through are those of the tape wherever the tape trusts a book.
-/

namespace PolymarketBt

open StableSort (InOrder)

/-! ## The engine's books -/

namespace TakerExecutionSimulator

variable {simulator : TakerExecutionSimulator} {intent : OrderIntent} {book : OrderBook}
  {portfolio : Portfolio} {arrivalTimeNs : ℤ} {executed : OrderBook × Portfolio × OrderResult}

theorem fillLevel_strip {progress after : FillProgress} {level : PlannedFill}
    (filled : simulator.fillLevel intent arrivalTimeNs progress level = .ok after) :
    after.book.strip = progress.book.strip := by
  unfold fillLevel at filled
  simp only [Except.bind_eq_ok, Except.pure_eq_ok] at filled
  obtain ⟨fee, _, ⟨⟩, _, rfl⟩ := filled
  cases intent.side <;> rfl

/-- An execution writes nothing on a book but the overlay. -/
theorem execute_strip
    (ran : simulator.execute intent book portfolio arrivalTimeNs = .ok executed) :
    executed.1.strip = book.strip := by
  unfold execute at ran
  dsimp only at ran
  split at ran
  · cases ran
    rfl
  · split at ran
    · cases ran
      rfl
    · simp only [Except.bind_eq_ok] at ran
      obtain ⟨planned, _, short, _, ran⟩ := ran
      cases short with
      | some reason =>
        cases ran
        rfl
      | none =>
        simp only [Except.bind_eq_ok] at ran
        obtain ⟨progress, filled, ran⟩ := ran
        have same : progress.book.strip = book.strip :=
          Except.foldlM_history (fun _ progress => progress.book.strip = book.strip) rfl
            (fun _ _ _ _ _ holds stepped => (fillLevel_strip stepped).trans holds) filled
        split at ran
        · cases ran
          exact same
        · cases ran
          exact same

end TakerExecutionSimulator

namespace BacktestEngine

variable {σ : Type} {engine : BacktestEngine σ}

theorem executeOrder_strip {state after : EngineState σ} {order : PendingOrder}
    (ran : engine.executeOrder state order = .ok after) :
    after.reconstructor.strip = state.reconstructor.strip := by
  unfold executeOrder matchOrder at ran
  simp only [Except.bind_eq_ok] at ran
  obtain ⟨⟨matched, result⟩, found, slippageScaled, _, ran⟩ := ran
  simp only [Except.pure_eq_ok] at ran
  subst ran
  split at found
  · cases found
    rfl
  · split at found
    · cases found
      rfl
    · next book stored =>
      simp only [Except.bind_eq_ok] at found
      obtain ⟨⟨written, portfolio, outcome⟩, swept, found⟩ := found
      cases found
      have same : written.strip = book.strip := TakerExecutionSimulator.execute_strip swept
      change (state.reconstructor.setBook order.intent.tokenId written).strip = _
      rw [BookReconstructor.strip_setBook, same]
      simp only [BookReconstructor.strip, BookReconstructor.setBook, BookReconstructor.mk.injEq,
        and_true]
      funext other
      by_cases own : other = order.intent.tokenId
      · subst own
        simp [stored]
      · simp [own]

/-- Recording an event applies its book event, if it has one, and raises what that raises. -/
theorem recordEvent_books {state heard : EngineState σ} {event : ReplayEvent}
    (recorded : engine.recordEvent state event = .ok heard) :
    (∀ applied, event.payload.bookEvent = some applied →
      state.reconstructor.applyEvent applied = (heard.reconstructor, .ok ())) ∧
    (event.payload.bookEvent = none → heard.reconstructor = state.reconstructor) := by
  unfold recordEvent at recorded
  simp only [Except.bind_eq_ok, ReplayEvent.timestamp_eq_ok_iff] at recorded
  obtain ⟨_, ⟨_, rfl⟩, recorded⟩ := recorded
  -- an event with a book event, and one without
  have carries {read : Option BookEvent} {applied : BookEvent} {after : BookReconstructor}
      (own : read = some applied) (ran : state.reconstructor.applyEvent applied = (after, .ok ())) :
      (∀ other, read = some other → state.reconstructor.applyEvent other = (after, .ok ())) ∧
        (read = none → after = state.reconstructor) := by
    subst own
    refine ⟨fun other same => ?_, fun absent => by cases absent⟩
    cases same
    exact ran
  have silent {after : BookReconstructor} :
      (∀ other, none = some other → state.reconstructor.applyEvent other = (after, .ok ())) ∧
        ((none : Option BookEvent) = none → state.reconstructor = state.reconstructor) :=
    ⟨fun _ own => (by cases own), fun _ => rfl⟩
  split at recorded
  · next payload =>
    simp only [Except.bind_eq_ok, Except.pure_eq_ok] at recorded
    obtain ⟨_, ran, rfl⟩ := recorded
    rw [payload]
    exact carries rfl (Prod.ext rfl ran)
  · next payload =>
    simp only [Except.bind_eq_ok, Except.pure_eq_ok] at recorded
    obtain ⟨_, ran, rfl⟩ := recorded
    rw [payload]
    exact carries rfl (Prod.ext rfl ran)
  · next payload =>
    simp only [Except.bind_eq_ok, Except.pure_eq_ok] at recorded
    obtain ⟨_, ran, rfl⟩ := recorded
    rw [payload]
    exact carries rfl (Prod.ext rfl ran)
  · next payload =>
    cases recorded
    rw [payload]
    exact silent
  · next payload =>
    cases recorded
    rw [payload]
    exact silent
  · next payload =>
    cases recorded
    rw [payload]
    exact silent
  · next payload =>
    cases recorded
    rw [payload]
    exact silent

/-- An event that the clock has a time for is recorded unless its book event raises. -/
theorem recordEvent_returns (state : EngineState σ) {event : ReplayEvent}
    (timed : event.Timed engine.mode)
    (applies : ∀ applied, event.payload.bookEvent = some applied →
      (state.reconstructor.applyEvent applied).2 = .ok ()) :
    ∃ heard, engine.recordEvent state event = .ok heard := by
  unfold recordEvent
  rw [ReplayEvent.timestamp_of_timed timed, Except.ok_bind]
  cases payload : event.payload with
  | bookSnapshot snapshot =>
    have ran := applies (.snapshot snapshot) (by rw [payload]; rfl)
    change (state.reconstructor.applySnapshot snapshot).2 = .ok () at ran
    simp only [ran, Except.ok_bind]
    exact ⟨_, rfl⟩
  | tickSizeChange change =>
    have ran := applies (.tick change) (by rw [payload]; rfl)
    change (state.reconstructor.applyTickSizeChange change).2 = .ok () at ran
    simp only [ran, Except.ok_bind]
    exact ⟨_, rfl⟩
  | bookUpdate change =>
    have ran := applies (.update change) (by rw [payload]; rfl)
    change (state.reconstructor.applyChange change).2 = .ok () at ran
    simp only [ran, Except.ok_bind]
    exact ⟨_, rfl⟩
  | trade trade => exact ⟨_, rfl⟩
  | btcPrice price => exact ⟨_, rfl⟩
  | marketResolution resolution => exact ⟨_, rfl⟩
  | other eventType unhandled => exact ⟨_, rfl⟩

theorem replayBookEvents_snoc (events : List ReplayEvent) (event : ReplayEvent) :
    replayBookEvents (events ++ [event]) =
      replayBookEvents events ++ event.payload.bookEvent.toList := by
  simp only [replayBookEvents, List.filterMap_append]
  cases found : event.payload.bookEvent <;> simp [found]

theorem start_reconstructor {start : EngineState σ} (started : engine.start = .ok start) :
    start.reconstructor = .init := by
  unfold BacktestEngine.start at started
  simp only [Except.bind_eq_ok, Except.pure_eq_ok] at started
  obtain ⟨_, _, rfl⟩ := started
  rfl

/-- The steps take the engine from its start to the state, in whatever order they come. -/
def RunsTo (engine : BacktestEngine σ) (steps : List EngineStep)
    (state : EngineState σ) : Prop :=
  ∃ start, engine.start = .ok start ∧ steps.foldlM engine.perform start = .ok state

/-- Whatever the executions between them, the events of a run leave the books that they leave on
their own, up to the overlay of the fills. -/
theorem performs_books {state : EngineState σ} {steps : List EngineStep}
    (ran : engine.RunsTo steps state) :
    ∃ shown, BookReconstructor.init.applyAll
        (replayBookEvents (steps.filterMap EngineStep.event?)) = .ok shown ∧
      shown.strip = state.reconstructor.strip := by
  obtain ⟨start, started, ran⟩ := ran
  refine Except.foldlM_history (fun past current => ∃ shown, BookReconstructor.init.applyAll
      (replayBookEvents (past.filterMap EngineStep.event?)) = .ok shown ∧
        shown.strip = current.reconstructor.strip)
    ⟨.init, rfl, by rw [start_reconstructor started]⟩ ?_ ran
  rintro past step current next _ ⟨shown, applied, same⟩ stepped
  rw [List.filterMap_append]
  cases step with
  | execution order =>
    refine ⟨shown, ?_, ?_⟩
    · change BookReconstructor.init.applyAll
        (replayBookEvents (past.filterMap EngineStep.event? ++ [])) = .ok shown
      rwa [List.append_nil]
    change engine.executeOrder _ order = .ok next at stepped
    rw [executeOrder_strip stepped]
    exact same
  | event event =>
    change engine.stepEvent current event = .ok next at stepped
    obtain ⟨_, _, heard, _, intents, _, _, recorded, _, scheduled⟩ := stepEvent_eq_ok_iff.mp stepped
    obtain ⟨applies, keeps⟩ := recordEvent_books recorded
    obtain ⟨_, _, _, _, rfl⟩ := schedule_writes scheduled
    change ∃ shown, BookReconstructor.init.applyAll
      (replayBookEvents (past.filterMap EngineStep.event? ++ [event])) = .ok shown ∧ _
    rw [replayBookEvents_snoc]
    change ∃ shown : BookReconstructor, _ ∧ shown.strip = heard.reconstructor.strip
    cases payload : event.payload.bookEvent with
    | none =>
      refine ⟨shown, by simpa using applied, ?_⟩
      rw [keeps payload]
      exact same
    | some bookEvent =>
      have took := applies bookEvent payload
      obtain ⟨results, stripped⟩ := BookReconstructor.applyEvent_strip_congr same bookEvent
      change current.reconstructor.applyEvent bookEvent = _ at took
      rw [took] at results stripped
      exact ⟨_, BookReconstructor.applyAll_snoc applied results, stripped⟩

end BacktestEngine

/-! ## The forwarded rows -/

namespace StoredEvent

variable {episode : Episode} {levels : List SnapshotLevelRow} {first second : StoredEvent}

@[simp] theorem event_tokenId (row : StoredEvent) :
    (row.event episode levels).tokenId = row.tokenId := by
  cases row <;> rfl

@[simp] theorem replayEvent_bookEvent (row : StoredEvent) :
    (row.replayEvent episode levels).payload.bookEvent = some (row.event episode levels) := by
  cases row <;> rfl

theorem sourcePriority_lt (lower : first.kind < second.kind) :
    first.sourcePriority < second.sourcePriority := by
  cases first <;> cases second <;> simp_all [kind, sourcePriority]

theorem sourcePriority_eq (same : first.kind = second.kind) :
    first.sourcePriority = second.sourcePriority := by
  cases first <;> cases second <;> simp_all [kind, sourcePriority]

/-- Rows of one kind that were received together came over one connection. -/
def Connected (rows : List StoredEvent) : Prop :=
  ∀ first ∈ rows, ∀ second ∈ rows, first.receivedUtcNs = second.receivedUtcNs →
    first.kind = second.kind → first.connectionId = second.connectionId

/-- The order of the tape is the order of the merger. -/
theorem eventKey_le (le : first.key ≤ second.key)
    (connected : first.receivedUtcNs = second.receivedUtcNs → first.kind = second.kind →
      first.connectionId = second.connectionId) :
    eventKey .localReceiveTime (first.replayEvent episode levels) ≤
      eventKey .localReceiveTime (second.replayEvent episode levels) := by
  have times (row : StoredEvent) :
      (row.replayEvent episode levels).timeAt .localReceiveTime = row.receivedUtcNs := rfl
  simp only [key, Prod.Lex.toLex_le_toLex] at le
  simp only [eventKey, eventKeyAt, times, Prod.Lex.toLex_le_toLex]
  rcases le with earlier | ⟨together, lower | ⟨same, order⟩⟩
  · exact .inl earlier
  · exact .inr ⟨together, .inr ⟨together, .inl (sourcePriority_lt lower)⟩⟩
  · exact .inr ⟨together, .inr ⟨together, .inr ⟨sourcePriority_eq same,
      .inr ⟨connected together same, order⟩⟩⟩⟩

end StoredEvent

section Forwarding

variable {episode : Episode} {levels : List SnapshotLevelRow}

/-- The probe goes through the tape's states, and forwards the rows that it accepts. -/
theorem probeRows_forwards (rows : List StoredEvent) :
    (probeRows episode levels rows).probe =
        BookReconstructor.init.absorbAll (rows.map (StoredEvent.event episode levels)) ∧
      replayBookEvents (probeRows episode levels rows).events =
        BookReconstructor.accepted .init (rows.map (StoredEvent.event episode levels)) ∧
      ∃ forwarded : List StoredEvent, forwarded.Sublist rows ∧
        (probeRows episode levels rows).events =
          forwarded.map (StoredEvent.replayEvent episode levels) := by
  induction rows using List.reverseRecOn with
  | nil => exact ⟨rfl, rfl, [], List.Sublist.refl _, rfl⟩
  | append_singleton past row ih =>
    obtain ⟨probe, events, forwarded, sublist, own⟩ := ih
    have stepped : probeRows episode levels (past ++ [row]) =
        probeRow episode levels (probeRows episode levels past) row := by
      simp [probeRows]
    rw [stepped, List.map_append, List.map_singleton, BookReconstructor.absorbAll_snoc,
      BookReconstructor.accepted_append]
    unfold probeRow
    rw [probe]
    rcases applied : (BookReconstructor.init.absorbAll
        (past.map (StoredEvent.event episode levels))).applyEvent (row.event episode levels) with
      ⟨after, e | ⟨⟩⟩
    · have raised := congrArg Prod.snd applied
      refine ⟨?_, ?_, forwarded, sublist.trans (List.sublist_append_left _ _), own⟩
      · rw [BookReconstructor.absorb_of_error raised, applied, StoredEvent.event_tokenId]
      · rw [BookReconstructor.accepted_error raised, List.append_nil]
        exact events
    · have ran := congrArg Prod.snd applied
      refine ⟨?_, ?_, forwarded ++ [row], sublist.append (List.Sublist.refl _), ?_⟩
      · rw [BookReconstructor.absorb_of_ok ran, applied]
      · rw [BacktestEngine.replayBookEvents_snoc, events, BookReconstructor.accepted_ok ran,
          StoredEvent.replayEvent_bookEvent]
        rfl
      · simp [own]

/-- The merger keeps the order of the forwarded rows, whatever settlement comes among them. -/
theorem merged_forwards {rows : List StoredEvent} (inOrder : InOrder StoredEvent.key rows)
    (connected : StoredEvent.Connected rows) {settlement : List ReplayEvent}
    (other : ∀ event ∈ settlement, event.payload.bookEvent = none) :
    ∃ merged, mergeEvents ((probeRows episode levels rows).events ++ settlement)
        .localReceiveTime = .ok merged ∧
      replayBookEvents merged =
        BookReconstructor.accepted .init (rows.map (StoredEvent.event episode levels)) := by
  obtain ⟨_, events, forwarded, sublist, own⟩ := @probeRows_forwards episode levels rows
  refine ⟨_, mergeEvents_eq_ok_iff.mpr ⟨fun _ _ => nofun, rfl⟩, ?_⟩
  have booksOnly (items : List ReplayEvent) : replayBookEvents items =
      replayBookEvents (items.filter fun event => event.payload.bookEvent.isSome) := by
    unfold replayBookEvents
    rw [List.filterMap_filter]
    refine List.filterMap_congr fun event _ => ?_
    cases event.payload.bookEvent <;> rfl
  have kept : (probeRows episode levels rows).events.filter
      (fun event => event.payload.bookEvent.isSome) = (probeRows episode levels rows).events := by
    rw [own, List.filter_eq_self]
    intro event member
    obtain ⟨row, _, rfl⟩ := List.mem_map.mp member
    rw [StoredEvent.replayEvent_bookEvent]
    rfl
  have dropped : settlement.filter (fun event => event.payload.bookEvent.isSome) = [] := by
    rw [List.filter_eq_nil_iff]
    intro event member
    simp [other event member]
  have sorted : InOrder (eventKey .localReceiveTime) (probeRows episode levels rows).events := by
    rw [own]
    refine List.pairwise_map.mpr ((inOrder.sublist sublist).imp_of_mem ?_)
    intro first second inFirst inSecond le
    exact StoredEvent.eventKey_le le fun together same =>
      connected first (sublist.subset inFirst) second (sublist.subset inSecond) together same
  rw [booksOnly, StableSort.sortByKey_filter, List.filter_append, kept, dropped, List.append_nil,
    sorted.sortByKey_eq, events]

theorem settlementEvents_other (winnerSource : String) (resolutionDelayNs : ℤ)
    (includeResolution : Bool) :
    ∀ event ∈ settlementEvents episode winnerSource resolutionDelayNs includeResolution,
      event.payload.bookEvent = none := by
  intro event member
  unfold settlementEvents at member
  split at member
  · obtain ⟨winner, _, rfl⟩ := List.mem_map.mp member
    rfl
  · cases member

end Forwarding

/-! ## The tape and the engine in step -/

namespace TapeBuilder

variable {builder : TapeBuilder} {episode : Episode}

theorem step_absorb {state after : BuildState} {event : BookEvent}
    (ran : builder.step episode state event = .ok after) :
    after.reconstructor = state.reconstructor.absorb event := by
  obtain ⟨tokenIndex, _, ⟨e, applied, raised, rfl⟩ | ⟨applied, took, rfl⟩⟩ := step_cases ran
  · have error := congrArg Prod.snd raised
    rw [BookReconstructor.absorb_of_error error, raised]
    rfl
  · have done := congrArg Prod.snd took
    rw [appendRow_reconstructor, closeSpan_reconstructor, BookReconstructor.absorb_of_ok done, took]

theorem scan_absorbAll {events : List BookEvent} {built : BuildState}
    (ran : builder.scan episode events = .ok built) :
    built.reconstructor = BookReconstructor.init.absorbAll events :=
  Except.foldlM_history
    (fun past state => state.reconstructor = BookReconstructor.init.absorbAll past) rfl (fun past event state next _ held stepped => by
      rw [step_absorb stepped, held, BookReconstructor.absorbAll_snoc]) ran

/-- A row shows nothing of the overlay. -/
theorem rowOf_strip (event : BookEvent) (tokenIndex : TokenIndex) {first second : OrderBook}
    (same : first.strip = second.strip) :
    builder.rowOf event tokenIndex first = builder.rowOf event tokenIndex second := by
  have stripped (book : OrderBook) :
      builder.rowOf event tokenIndex book.strip = builder.rowOf event tokenIndex book := rfl
  rw [← stripped first, same, stripped]

end TapeBuilder

namespace BookReconstructor

/-- A fold that returns has returned at every point. -/
theorem applyAll_prior {reconstructor after : BookReconstructor} {past behind : List BookEvent}
    {event : BookEvent} (ran : reconstructor.applyAll (past ++ event :: behind) = .ok after) :
    ∃ before, reconstructor.applyAll past = .ok before ∧ (before.applyEvent event).2 = .ok () := by
  unfold applyAll at ran
  rw [List.foldlM_append, Except.bind_eq_ok] at ran
  obtain ⟨before, earlier, ran⟩ := ran
  rw [List.foldlM_cons, Except.bind_eq_ok] at ran
  obtain ⟨_, applied, _⟩ := ran
  refine ⟨before, earlier, ?_⟩
  unfold applyStrict at applied
  cases result : (before.applyEvent event).2 with
  | ok done => rfl
  | error e =>
    rw [result] at applied
    cases applied

end BookReconstructor

/-- The reference engine goes through the books of the tape. -/
structure InStep {σ : Type} (engine : BacktestEngine σ) (builder : TapeBuilder) (episode : Episode)
    (events : List BookEvent) (merged : List ReplayEvent) : Prop where
  /-- The engine is sent the events that the tape accepts, in the tape's order. -/
  forwarded : replayBookEvents merged = BookReconstructor.accepted .init events
  /-- Whatever is executed between them, no event is refused. -/
  accepts : ∀ (steps : List EngineStep) (state : EngineState σ) event behind,
    engine.RunsTo steps state →
    merged = steps.filterMap EngineStep.event? ++ event :: behind →
    ∃ heard, engine.recordEvent state event = .ok heard
  /-- A book that the tape trusts is the engine's book, up to the overlay of its fills. -/
  shows : ∀ (steps : List EngineStep) (state : EngineState σ) past behind (built : BuildState),
    engine.RunsTo steps state → events = past ++ behind →
    replayBookEvents (steps.filterMap EngineStep.event?) = BookReconstructor.accepted .init past →
    builder.scan episode past = .ok built → ∀ tokenId (book : OrderBook),
    built.reconstructor.books tokenId = some book → book.valid = true →
    ∃ own : OrderBook, state.reconstructor.books tokenId = some own ∧ own.strip = book.strip
  /-- A valid row of the tape is the row of the engine's book. -/
  writes : ∀ (steps : List EngineStep) (state : EngineState σ) past event behind
    (before built : BuildState) (row : TapeRow), engine.RunsTo steps state →
    events = past ++ event :: behind →
    replayBookEvents (steps.filterMap EngineStep.event?) =
      BookReconstructor.accepted .init (past ++ [event]) →
    builder.scan episode past = .ok before → builder.step episode before event = .ok built →
    built.rows = before.rows ++ [row] → row.bookValid = true →
    ∃ own : OrderBook, state.reconstructor.books event.tokenId = some own ∧
      row = builder.rowOf event row.tokenIndex own
  /-- A completed replay is such a run, when no intent is dated back. -/
  runs : engine.strategy.NeverBackdates → ∀ final, engine.replay merged = .ok final →
    ∃ steps, engine.RunsTo steps final ∧ steps.filterMap EngineStep.event? = merged

namespace BacktestEngine

variable {σ : Type} {engine : BacktestEngine σ} {builder : TapeBuilder} {episode : Episode}
  {events : List BookEvent}

theorem accepts_of_forwarded (keeps : BookReconstructor.KeepsTicks events)
    {merged : List ReplayEvent} (timed : ∀ event : ReplayEvent, event.Timed engine.mode)
    (forwarded : replayBookEvents merged = BookReconstructor.accepted .init events)
    {state : EngineState σ} {steps : List EngineStep} {event : ReplayEvent}
    {behind : List ReplayEvent} (ran : engine.RunsTo steps state)
    (split : merged = steps.filterMap EngineStep.event? ++ event :: behind) :
    ∃ heard, engine.recordEvent state event = .ok heard := by
  refine recordEvent_returns state (timed event) fun applied payload => ?_
  obtain ⟨_, all, _⟩ := BookReconstructor.accepted_mirrors keeps
  have order : replayBookEvents merged =
      replayBookEvents (steps.filterMap EngineStep.event?) ++
        applied :: replayBookEvents behind := by
    rw [split]
    simp [replayBookEvents, payload]
  rw [← forwarded, order] at all
  obtain ⟨before, earlier, accepted⟩ := BookReconstructor.applyAll_prior all
  obtain ⟨shown, same, stripped⟩ := performs_books ran
  obtain rfl := Except.ok.inj (earlier.symm.trans same)
  rw [← (BookReconstructor.applyEvent_strip_congr stripped applied).1]
  exact accepted

theorem shows_of_scan {past : List BookEvent} (keeps : BookReconstructor.KeepsTicks past)
    {state : EngineState σ} {steps : List EngineStep} {built : BuildState}
    (ran : engine.RunsTo steps state)
    (heard : replayBookEvents (steps.filterMap EngineStep.event?) =
      BookReconstructor.accepted .init past)
    (scanned : builder.scan episode past = .ok built) {tokenId : String} {book : OrderBook}
    (stored : built.reconstructor.books tokenId = some book) (valid : book.valid = true) :
    ∃ own, state.reconstructor.books tokenId = some own ∧ own.strip = book.strip := by
  obtain ⟨shown, applied, mirrors⟩ := BookReconstructor.accepted_mirrors keeps
  obtain ⟨other, same, stripped⟩ := performs_books ran
  rw [heard] at same
  obtain rfl := Except.ok.inj (applied.symm.trans same)
  have here := mirrors.books tokenId
  rw [← TapeBuilder.scan_absorbAll scanned, stored] at here
  have own := congrFun (congrArg BookReconstructor.books stripped) tokenId
  simp only [BookReconstructor.strip] at own
  cases displayed : shown.books tokenId with
  | none =>
    rw [displayed] at here
    cases here with
    | unopened _ invalid _ => simp [invalid] at valid
  | some mirrored =>
    rw [displayed] at here own
    cases here with
    | both alike =>
      obtain rfl := alike.same valid
      obtain ⟨found, held, same⟩ := Option.map_eq_some_iff.mp own.symm
      exact ⟨found, held, same⟩

end BacktestEngine

namespace BookReconstructor

/-- Every event that is refused is a level change. -/
def refusesOnlyUpdates : BookReconstructor → List BookEvent → Bool
  | _, [] => true
  | probe, event :: rest =>
    ((probe.applyEvent event).2.isOk || event.kind = .update) &&
      refusesOnlyUpdates (probe.absorb event) rest

/-- A level change brings no tick. -/
theorem applyChange_ticks (reconstructor : BookReconstructor) (change : BookLevelChange) :
    (reconstructor.applyChange change).1.effectiveTickSizes = reconstructor.effectiveTickSizes := by
  rcases applyChange_cases reconstructor change with ⟨e, refused, _⟩ | ⟨book, _, _, applied⟩
  · rw [refused]
  · rw [applied]
    rfl

theorem KeepsTicks.of_updates {events : List BookEvent}
    (updates : refusesOnlyUpdates .init events = true) : KeepsTicks events := by
  suffices general : ∀ (probe : BookReconstructor) (past : List BookEvent) event behind,
      refusesOnlyUpdates probe (past ++ event :: behind) = true → ∀ e,
        ((probe.absorbAll past).applyEvent event).2 = .error e →
          ((probe.absorbAll past).applyEvent event).1.effectiveTickSizes =
            (probe.absorbAll past).effectiveTickSizes by
    rintro past event behind rfl
    exact general .init past event behind updates
  intro probe past
  induction past generalizing probe with
  | nil =>
    intro event behind updates e raised
    change (probe.applyEvent event).2 = .error e at raised
    simp only [List.nil_append, refusesOnlyUpdates, raised, Except.isOk, Except.toBool,
      Bool.false_or, Bool.and_eq_true, decide_eq_true_eq] at updates
    cases event with
    | snapshot snapshot => cases updates.1
    | tick change => cases updates.1
    | update change => exact applyChange_ticks probe change
  | cons first rest ih =>
    intro event behind updates
    simp only [List.cons_append, refusesOnlyUpdates, Bool.and_eq_true] at updates
    exact ih (probe.absorb first) event behind updates.2

end BookReconstructor

/-- A snapshot and a level change of the up token; the change reports a top that the book does not
have. -/
def exampleDatasets : BookDatasets where
  snapshots := [{
    snapshotId := "s"
    sequence := 1
    runId := "run"
    connectionId := "feed"
    source := "clob_market_ws"
    conditionId := "condition"
    tokenId := "up"
    outcome := "UP"
    exchangeTimestampNs := none
    receivedUtcNs := 10
    receivedMonotonicNs := 10
    bookHash := none
    tickSizeScaled := 10000
    minimumOrderSizeScaled := 0
    negRisk := false
    rawEventReference := "" }]
  snapshotLevels := [
    ⟨"s", "condition", "up", "UP", .buy, 780000, 5000000, 1, 10⟩,
    ⟨"s", "condition", "up", "UP", .sell, 800000, 7000000, 1, 10⟩]
  updates := [{
    sequence := 2
    conditionId := "condition"
    tokenId := "up"
    receivedUtcNs := 20
    side := .buy
    priceScaled := 790000
    newSizeScaled := 1000000
    bookHash := none
    reportedBestBidScaled := some 770000
    reportedBestAskScaled := none
    parentEventId := "p"
    changeIndex := 0
    outcome := "UP"
    exchangeTimestampNs := none
    receivedMonotonicNs := 20
    connectionId := "feed"
    rawEventReference := "" }]
  tickSizeChanges := []

/-- Where a refused snapshot has brought a tick, a later event that the tape accepts can be refused
without it. -/
theorem refused_tick_matters : ∃ events e,
    BookReconstructor.init.applyAll (BookReconstructor.accepted .init events) = .error e := by
  let crossed : BookSnapshot := { TapeBuilder.exampleSnapshot with
    source := "clob_market_ws", tickSizeScaled := 1000, asks := [⟨780000, 7000000⟩] }
  let fine : BookSnapshot := { TapeBuilder.exampleSnapshot with
    source := "clob_market_ws", sequence := 2, bids := [⟨781000, 5000000⟩] }
  refine ⟨[.snapshot crossed, .snapshot fine], ?_⟩
  cases applied : BookReconstructor.init.applyAll
      (BookReconstructor.accepted .init [.snapshot crossed, .snapshot fine]) with
  | error e => exact ⟨e, rfl⟩
  | ok after =>
    have refused : (BookReconstructor.init.applyAll
        (BookReconstructor.accepted .init [.snapshot crossed, .snapshot fine])).isOk = false := by
      decide +kernel
    rw [applied] at refused
    cases refused

end PolymarketBt
