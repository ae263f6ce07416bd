import Mathlib.Data.List.SplitBy
import Mathlib.Data.List.TakeWhile
import PolymarketBt.Model.Engine
import PolymarketBt.Proofs.Replay

/-! # What one step of the engine changes

An execution writes books, portfolio and results, and every row it adds carries the arrival of its
order. An event writes what its kind reaches, and every row it adds carries its replay time; only
the intents it returns are scheduled. What all steps preserve holds at the end of a replay.
-/

namespace PolymarketBt

/-! ## The portfolio's log -/

/-- A list of log rows grows by rows of one time. -/
def GrowsAt {α : Type} (time : α → ℤ) (timeNs : ℤ) (before after : List α) : Prop :=
  ∃ rows, after = before ++ rows ∧ ∀ row ∈ rows, time row = timeNs

namespace GrowsAt

variable {α : Type} {time : α → ℤ} {timeNs : ℤ} {first second third : List α}

theorem refl : GrowsAt time timeNs first first := ⟨[], (List.append_nil _).symm, by simp⟩

theorem trans (earlier : GrowsAt time timeNs first second)
    (later : GrowsAt time timeNs second third) : GrowsAt time timeNs first third := by
  obtain ⟨rows, rfl, times⟩ := earlier
  obtain ⟨others, rfl, otherTimes⟩ := later
  refine ⟨rows ++ others, List.append_assoc _ _ _, fun row member => ?_⟩
  rcases List.mem_append.mp member with own | other
  · exact times row own
  · exact otherTimes row other

theorem single {row : α} (at_time : time row = timeNs) :
    GrowsAt time timeNs first (first ++ [row]) :=
  ⟨[row], rfl, by simpa using at_time⟩

end GrowsAt

namespace Portfolio

variable {portfolio after : Portfolio} {fill : SimulatedFill} {outcome : String}

theorem applyFill_events (applied : portfolio.applyFill fill outcome = (after, .ok ())) :
    GrowsAt PortfolioEvent.timestampNs fill.fillTimeNs portfolio.events after.events := by
  unfold applyFill at applied
  cases side : fill.side with
  | buy =>
    simp only [side] at applied
    split at applied
    · cases applied
    · cases applied
      exact .single rfl
  | sell =>
    simp only [side] at applied
    split at applied
    · cases applied
    · cases applied
      exact .single rfl

theorem settleMarket_events (conditionId winningTokenId : String) (timestampNs : ℤ) :
    GrowsAt PortfolioEvent.timestampNs timestampNs portfolio.events
      (portfolio.settleMarket conditionId winningTokenId timestampNs).1.events :=
  .single rfl

end Portfolio

namespace TakerExecutionSimulator

variable {simulator : TakerExecutionSimulator} {intent : OrderIntent} {book : OrderBook}
  {portfolio : Portfolio} {arrivalTimeNs : ℤ} {executed : OrderBook × Portfolio × OrderResult}

theorem fillLevel_events {progress after : FillProgress} {level : PlannedFill}
    (filled : simulator.fillLevel intent arrivalTimeNs progress level = .ok after) :
    GrowsAt PortfolioEvent.timestampNs arrivalTimeNs progress.portfolio.events
      after.portfolio.events := by
  unfold fillLevel at filled
  simp only [Except.bind_eq_ok, Except.pure_eq_ok] at filled
  obtain ⟨fee, _, ⟨⟩, applied, rfl⟩ := filled
  exact Portfolio.applyFill_events (Prod.ext rfl applied)

theorem execute_events (ran : simulator.execute intent book portfolio arrivalTimeNs = .ok executed) :
    GrowsAt PortfolioEvent.timestampNs arrivalTimeNs portfolio.events executed.2.1.events := by
  unfold execute at ran
  dsimp only at ran
  split at ran
  · cases ran
    exact .refl
  · split at ran
    · cases ran
      exact .refl
    · simp only [Except.bind_eq_ok] at ran
      obtain ⟨planned, _, short, _, ran⟩ := ran
      cases short with
      | some reason =>
        cases ran
        exact .refl
      | none =>
        simp only [Except.bind_eq_ok] at ran
        obtain ⟨progress, filled, ran⟩ := ran
        have grows : GrowsAt PortfolioEvent.timestampNs arrivalTimeNs portfolio.events
            progress.portfolio.events :=
          Except.foldlM_history (fun _ progress => GrowsAt PortfolioEvent.timestampNs arrivalTimeNs
              portfolio.events progress.portfolio.events) .refl
            (fun _ _ _ _ _ holds stepped => holds.trans (fillLevel_events stepped)) filled
        split at ran
        · cases ran
          exact grows
        · cases ran
          exact grows

theorem execute_intent (ran : simulator.execute intent book portfolio arrivalTimeNs = .ok executed) :
    executed.2.2.intent = intent := by
  unfold execute at ran
  dsimp only at ran
  split at ran
  · cases ran
    rfl
  · split at ran
    · cases ran
      rfl
    · simp only [Except.bind_eq_ok] at ran
      obtain ⟨planned, _, short, _, ran⟩ := ran
      cases short with
      | some reason =>
        cases ran
        rfl
      | none =>
        simp only [Except.bind_eq_ok] at ran
        obtain ⟨progress, _, ran⟩ := ran
        split at ran
        · cases ran
          rfl
        · cases ran
          rfl

end TakerExecutionSimulator

/-- The condition that an event resolves. -/
def ReplayPayload.resolvedCondition : ReplayPayload → Option String
  | .marketResolution resolution => some resolution.conditionId
  | _ => none

/-- A strategy returns only intents that a rule admits in the context of the callback. -/
structure Strategy.Obeys {σ : Type} (strategy : Strategy σ)
    (rule : StrategyContext → OrderIntent → Prop) : Prop where
  onMarketEvent : ∀ state event context after, strategy.onMarketEvent state event context =
    .ok after → ∀ intent ∈ after.2, rule context intent
  onBtcPrice : ∀ state price context after, strategy.onBtcPrice state price context =
    .ok after → ∀ intent ∈ after.2, rule context intent
  onTrade : ∀ state trade context after, strategy.onTrade state trade context =
    .ok after → ∀ intent ∈ after.2, rule context intent
  onMarketClose : ∀ state close context after, strategy.onMarketClose state close context =
    .ok after → ∀ intent ∈ after.2, rule context intent

theorem Strategy.Obeys.mono {σ : Type} {strategy : Strategy σ}
    {rule weaker : StrategyContext → OrderIntent → Prop} (obeys : strategy.Obeys rule)
    (implies : ∀ context intent, rule context intent → weaker context intent) :
    strategy.Obeys weaker where
  onMarketEvent state event context after ran intent member :=
    implies _ _ (obeys.onMarketEvent state event context after ran intent member)
  onBtcPrice state price context after ran intent member :=
    implies _ _ (obeys.onBtcPrice state price context after ran intent member)
  onTrade state trade context after ran intent member :=
    implies _ _ (obeys.onTrade state trade context after ran intent member)
  onMarketClose state close context after ran intent member :=
    implies _ _ (obeys.onMarketClose state close context after ran intent member)

namespace BacktestEngine

variable {σ : Type} {engine : BacktestEngine σ}

/-! ## Execution -/

/-- What an execution leaves behind. -/
structure ExecutionEffect (state : EngineState σ) (order : PendingOrder) (after : EngineState σ) :
    Prop where
  writes : ∃ reconstructor portfolio result slippageScaled, after = { state with
    reconstructor := reconstructor
    portfolio := portfolio
    orderResults := state.orderResults ++
      [⟨order.counter, some order.arrivalNs, result, slippageScaled⟩] } ∧
    result.intent = order.intent
  rows : GrowsAt PortfolioEvent.timestampNs order.arrivalNs state.portfolio.events
    after.portfolio.events

theorem executeOrder_effect {state after : EngineState σ} {order : PendingOrder}
    (ran : engine.executeOrder state order = .ok after) : ExecutionEffect state order after := by
  unfold executeOrder matchOrder at ran
  simp only [Except.bind_eq_ok] at ran
  obtain ⟨⟨matched, result⟩, found, slippageScaled, _, ran⟩ := ran
  simp only [Except.pure_eq_ok] at ran
  subst ran
  split at found
  · cases found
    exact ⟨⟨_, _, _, _, rfl, rfl⟩, .refl⟩
  · split at found
    · cases found
      exact ⟨⟨_, _, _, _, rfl, rfl⟩, .refl⟩
    · simp only [Except.bind_eq_ok] at found
      obtain ⟨executed, swept, found⟩ := found
      cases found
      exact ⟨⟨_, _, _, _, rfl, TakerExecutionSimulator.execute_intent swept⟩,
        TakerExecutionSimulator.execute_events swept⟩

/-- What every execution preserves survives the execution of the orders that are due. -/
theorem executeDue_invariant {inv : EngineState σ → Prop} {due : PendingOrder → Bool}
    {state after : EngineState σ} (ran : engine.executeDue due state = .ok after)
    (popped : ∀ current heap, inv current → inv { current with pending := heap })
    (executed : ∀ current order next, order ∈ state.pending.orders → due order →
      engine.executeOrder current order = .ok next → inv current → inv next)
    (start : inv state) : inv after := by
  refine Except.foldlM_history (fun _ => inv) (popped _ _ start) ?_ ran
  intro _ order current next member holds stepped
  refine executed current order next ?_ ?_ stepped holds
  · exact (List.takeWhile_prefix due).subset member
  · exact List.mem_takeWhile_imp member

/-! ## Scheduling -/

/-- What scheduling one intent leaves behind: a pending order or a rejection. -/
inductive SchedulingEffect (engine : BacktestEngine σ) (state : EngineState σ)
    (intent : OrderIntent) : EngineState σ → Prop
  | rejected (result : OrderResult) (own : result.intent = engine.deterministicIntent state intent)
      (limit : intent.orderType = .limitGtcSimulated) (unfilled : result.fills = []) :
      SchedulingEffect engine state intent { state with
        intentCounter := state.intentCounter + 1
        orderResults := state.orderResults ++ [⟨state.intentCounter, none, result, none⟩] }
  | pending (sampleNs : ℤ) (nonneg : 0 ≤ sampleNs) (taker : intent.orderType = .marketableTaker) :
      SchedulingEffect engine state intent { state with
        intentCounter := state.intentCounter + 1
        latencyDraws := state.latencyDraws + 1
        pending := state.pending.push ⟨intent.decisionTimestampNs + sampleNs, state.intentCounter,
          engine.deterministicIntent state intent⟩ }

theorem sampleNs_nonneg {config : LatencyConfig} {draws : Draws} {draw : ℕ} {sampleNs : ℤ}
    (sampled : config.sampleNs draws draw = .ok sampleNs) : 0 ≤ sampleNs := by
  unfold LatencyConfig.sampleNs at sampled
  split at sampled <;> cases sampled
  · exact le_rfl
  · exact le_max_left _ _
  · exact le_max_left _ _
  · exact le_max_left _ _

theorem scheduleIntent_effect {state after : EngineState σ} {intent : OrderIntent}
    (ran : engine.scheduleIntent state intent = .ok after) :
    SchedulingEffect engine state intent after := by
  unfold scheduleIntent at ran
  dsimp only at ran
  have same : (engine.deterministicIntent state intent).orderType = intent.orderType := rfl
  split at ran
  · next limit =>
    cases ran
    exact .rejected _ rfl (same ▸ limit) rfl
  · next taker =>
    simp only [Except.bind_eq_ok, Except.pure_eq_ok] at ran
    obtain ⟨sampleNs, sampled, rfl⟩ := ran
    exact .pending sampleNs (sampleNs_nonneg sampled) (same ▸ taker)

/-- Scheduling writes the heap, the results and the two counters only. -/
theorem schedule_writes {state after : EngineState σ} {intents : List OrderIntent}
    (ran : engine.schedule state intents = .ok after) :
    ∃ orderResults pending intentCounter latencyDraws, after = { state with
      orderResults := orderResults
      pending := pending
      intentCounter := intentCounter
      latencyDraws := latencyDraws } := by
  refine Except.foldlM_history (fun _ current => ∃ orderResults pending intentCounter latencyDraws,
    current = { state with
      orderResults := orderResults
      pending := pending
      intentCounter := intentCounter
      latencyDraws := latencyDraws }) ⟨_, _, _, _, rfl⟩ ?_ ran
  rintro _ intent _ next _ ⟨_, _, _, _, rfl⟩ stepped
  cases scheduleIntent_effect stepped with
  | rejected => exact ⟨_, _, _, _, rfl⟩
  | pending => exact ⟨_, _, _, _, rfl⟩

/-! ## Events -/

/-- What an event changes before the strategy hears of it. -/
def recordEvent (engine : BacktestEngine σ) (state : EngineState σ) (event : ReplayEvent) :
    Except PyError (EngineState σ) := do
  let nowNs ← event.timestamp engine.mode
  let state : EngineState σ := { state with nowNs := nowNs }
  match event.payload with
  | .bookSnapshot snapshot =>
    let applied := state.reconstructor.applySnapshot snapshot
    applied.2
    return { state.registerToken snapshot.tokenId with reconstructor := applied.1 }
  | .bookUpdate change =>
    let applied := state.reconstructor.applyChange change
    applied.2
    return { state with reconstructor := applied.1 }
  | .tickSizeChange change =>
    let applied := state.reconstructor.applyTickSizeChange change
    applied.2
    return { state with reconstructor := applied.1 }
  | .btcPrice price =>
    return { state with btcPrices := KeyedList.assign price.source price state.btcPrices }
  | .marketResolution resolution =>
    let (portfolio, payout) := settleCategoricalMarket state.portfolio resolution.conditionId
      resolution.winningTokenId nowNs
    return { state with
      portfolio := portfolio
      resolvedConditions := resolution.conditionId :: state.resolvedConditions
      marketResults := state.marketResults ++ [{
        conditionId := resolution.conditionId
        winningTokenId := resolution.winningTokenId
        winningOutcome := resolution.winningOutcome
        settlementTimestampNs := nowNs
        payoutScaled := payout }] }
  | .trade _ | .other _ _ => return state

/-- The callback that an event reaches. -/
def hear (engine : BacktestEngine σ) (heard : EngineState σ) (event : ReplayEvent) :
    Except PyError (σ × List OrderIntent) :=
  match event.payload with
  | .bookSnapshot _ | .bookUpdate _ | .tickSizeChange _ =>
    engine.strategy.onMarketEvent heard.strategyState event heard.context
  | .btcPrice price => engine.strategy.onBtcPrice heard.strategyState price heard.context
  | .trade trade => engine.strategy.onTrade heard.strategyState trade heard.context
  | .marketResolution resolution =>
    engine.strategy.onMarketClose heard.strategyState
      ⟨heard.nowNs, resolution.conditionId, resolution.winningTokenId⟩ heard.context
  | .other _ _ => .ok (heard.strategyState, [])

/-- An event is applied by recording it and then calling the strategy. -/
theorem applyEvent_eq (state : EngineState σ) (event : ReplayEvent) :
    engine.applyEvent state event = (do
      let heard ← engine.recordEvent state event
      let (strategyState, intents) ← engine.hear heard event
      return ({ heard with strategyState := strategyState }, intents)) := by
  unfold applyEvent recordEvent hear applyBookEvent applyResolution
  cases event.timestamp engine.mode with
  | error e => rfl
  | ok nowNs =>
    cases event.payload with
    | bookSnapshot snapshot =>
      dsimp only [Except.ok_bind]
      cases (state.reconstructor.applySnapshot snapshot).2 <;> rfl
    | tickSizeChange change =>
      dsimp only [Except.ok_bind]
      cases (state.reconstructor.applyTickSizeChange change).2 <;> rfl
    | bookUpdate change =>
      dsimp only [Except.ok_bind]
      cases (state.reconstructor.applyChange change).2 <;> rfl
    | trade trade => rfl
    | btcPrice price => rfl
    | marketResolution resolution => rfl
    | other eventType unhandled => rfl

/-- What recording an event changes. -/
structure RecordingEffect (state : EngineState σ) (event : ReplayEvent) (timeNs : ℤ)
    (heard : EngineState σ) : Prop where
  writes : ∃ btcPrices reconstructor bookTokens portfolio marketResults, heard = { state with
      nowNs := timeNs
      btcPrices := btcPrices
      reconstructor := reconstructor
      bookTokens := bookTokens
      portfolio := portfolio
      marketResults := marketResults
      resolvedConditions := event.payload.resolvedCondition.toList ++ state.resolvedConditions }
  rows : GrowsAt PortfolioEvent.timestampNs timeNs state.portfolio.events heard.portfolio.events
  results : GrowsAt MarketResult.settlementTimestampNs timeNs state.marketResults
    heard.marketResults

theorem recordEvent_effect {state heard : EngineState σ} {event : ReplayEvent}
    (recorded : engine.recordEvent state event = .ok heard) :
    RecordingEffect state event (event.timeAt engine.mode) heard := by
  unfold recordEvent at recorded
  simp only [Except.bind_eq_ok, ReplayEvent.timestamp_eq_ok_iff] at recorded
  obtain ⟨_, ⟨_, rfl⟩, recorded⟩ := recorded
  split at recorded
  · next payload =>
    simp only [Except.bind_eq_ok, Except.pure_eq_ok] at recorded
    obtain ⟨_, _, rfl⟩ := recorded
    unfold EngineState.registerToken
    split
    · exact ⟨⟨_, _, _, _, _, by rw [payload]; rfl⟩, .refl, .refl⟩
    · exact ⟨⟨_, _, _, _, _, by rw [payload]; rfl⟩, .refl, .refl⟩
  · next payload =>
    simp only [Except.bind_eq_ok, Except.pure_eq_ok] at recorded
    obtain ⟨_, _, rfl⟩ := recorded
    exact ⟨⟨_, _, _, _, _, by rw [payload]; rfl⟩, .refl, .refl⟩
  · next payload =>
    simp only [Except.bind_eq_ok, Except.pure_eq_ok] at recorded
    obtain ⟨_, _, rfl⟩ := recorded
    exact ⟨⟨_, _, _, _, _, by rw [payload]; rfl⟩, .refl, .refl⟩
  · next payload =>
    cases recorded
    exact ⟨⟨_, _, _, _, _, by rw [payload]; rfl⟩, .refl, .refl⟩
  · next payload =>
    cases recorded
    exact ⟨⟨_, _, _, _, _, by rw [payload]; rfl⟩,
      Portfolio.settleMarket_events _ _ _, .single rfl⟩
  · next payload =>
    cases recorded
    exact ⟨⟨_, _, _, _, _, by rw [payload]; rfl⟩, .refl, .refl⟩
  · next payload =>
    cases recorded
    exact ⟨⟨_, _, _, _, _, by rw [payload]; rfl⟩, .refl, .refl⟩

/-- Every intent obeys the rule of the strategy in the context of its callback. -/
theorem hear_obeys {rule : StrategyContext → OrderIntent → Prop} {heard : EngineState σ}
    {event : ReplayEvent} {after : σ × List OrderIntent} (obeys : engine.strategy.Obeys rule)
    (ran : engine.hear heard event = .ok after) : ∀ intent ∈ after.2, rule heard.context intent := by
  unfold hear at ran
  split at ran
  · exact obeys.onMarketEvent _ _ _ _ ran
  · exact obeys.onMarketEvent _ _ _ _ ran
  · exact obeys.onMarketEvent _ _ _ _ ran
  · exact obeys.onBtcPrice _ _ _ _ ran
  · exact obeys.onTrade _ _ _ _ ran
  · exact obeys.onMarketClose _ _ _ _ ran
  · cases ran
    simp

/-! ## Whole runs -/

theorem advanceClock_eq_ok_iff {currentNs : Option ℤ} {mode : ReplayClockMode}
    {event : ReplayEvent} {timestampNs : ℤ} :
    advanceClock currentNs mode event = .ok timestampNs ↔
      event.Timed mode ∧ event.timeAt mode = timestampNs ∧
        ∀ current ∈ currentNs, current ≤ timestampNs := by
  unfold advanceClock
  simp only [Except.bind_eq_ok, ReplayEvent.timestamp_eq_ok_iff]
  constructor
  · rintro ⟨_, ⟨timed, rfl⟩, ran⟩
    refine ⟨timed, ?_⟩
    split at ran
    · cases ran
    · next forwards =>
      cases ran
      exact ⟨rfl, fun current known => not_lt.mp fun backwards =>
        forwards (by simpa [Option.mem_def.mp known] using backwards)⟩
  · rintro ⟨timed, rfl, forwards⟩
    refine ⟨_, ⟨timed, rfl⟩, ?_⟩
    rw [if_neg]
    · rfl
    · cases currentNs with
      | none => simp
      | some current => simpa using forwards current rfl

theorem stepEvent_eq_ok_iff {state after : EngineState σ} {event : ReplayEvent} :
    engine.stepEvent state event = .ok after ↔
      ∃ integrity found heard strategyState intents,
        state.integrity.check event.receivedUtcNs = .ok (integrity, found) ∧
        advanceClock state.clock engine.mode event = .ok (event.timeAt engine.mode) ∧
        engine.recordEvent
          { state with integrity := integrity, clock := some (event.timeAt engine.mode) } event =
            .ok heard ∧
        engine.hear heard event = .ok (strategyState, intents) ∧
        engine.schedule { heard with strategyState := strategyState } intents = .ok after := by
  unfold stepEvent
  simp only [Except.bind_eq_ok, applyEvent_eq, Except.pure_eq_ok]
  constructor
  · rintro ⟨⟨integrity, found⟩, checked, _, advanced, _,
      ⟨heard, recorded, ⟨strategyState, intents⟩, called, rfl⟩, scheduled⟩
    obtain ⟨_, rfl, _⟩ := advanceClock_eq_ok_iff.mp advanced
    exact ⟨integrity, found, heard, strategyState, intents, checked, advanced, recorded, called,
      scheduled⟩
  · rintro ⟨integrity, found, heard, strategyState, intents, checked, advanced, recorded, called,
      scheduled⟩
    exact ⟨(integrity, found), checked, _, advanced, (_, intents),
      ⟨heard, recorded, (strategyState, intents), called, rfl⟩, scheduled⟩

theorem runGroup_history {inv : List ReplayEvent → EngineState σ → Prop}
    (popped : ∀ past state heap, inv past state → inv past { state with pending := heap })
    (executed : ∀ past state order after, engine.executeOrder state order = .ok after →
      inv past state → inv past after)
    (stepped : ∀ past state event after, engine.stepEvent state event = .ok after →
      inv past state → inv (past ++ [event]) after)
    {past group : List ReplayEvent} {state after : EngineState σ}
    (ran : engine.runGroup state group = .ok after) (holds : inv past state) :
    inv (past ++ group) after := by
  cases group with
  | nil =>
    cases ran
    simpa using holds
  | cons first rest =>
    unfold runGroup at ran
    simp only [Except.bind_eq_ok] at ran
    obtain ⟨timestampNs, _, before, executedBefore, heard, applied, ran⟩ := ran
    have start : inv past before := executeDue_invariant executedBefore
      (fun _ _ => popped past _ _) (fun _ _ _ _ _ => executed past _ _ _) holds
    have middle : inv (past ++ (first :: rest)) heard :=
      Except.foldlM_history (fun done state => inv (past ++ done) state) (by simpa using start)
        (fun done event current next _ held ran => by
          simpa using stepped (past ++ done) current event next ran held) applied
    exact executeDue_invariant ran (fun _ _ => popped _ _ _) (fun _ _ _ _ _ => executed _ _ _ _)
      middle

/-- What every step of a replay preserves, the events applied so far included. -/
theorem replay_history (inv : List ReplayEvent → EngineState σ → Prop)
    (start : ∀ strategyState, inv [] { engine.initialState with strategyState := strategyState })
    (popped : ∀ past state heap, inv past state → inv past { state with pending := heap })
    (executed : ∀ past state order after, engine.executeOrder state order = .ok after →
      inv past state → inv past after)
    (stepped : ∀ past state event after, engine.stepEvent state event = .ok after →
      inv past state → inv (past ++ [event]) after)
    {ordered : List ReplayEvent} {final : EngineState σ}
    (completed : engine.replay ordered = .ok final) : inv ordered final := by
  unfold replay BacktestEngine.start at completed
  simp only [Except.bind_eq_ok, Except.pure_eq_ok] at completed
  obtain ⟨_, ⟨strategyState, _, rfl⟩, grouped, applied, drained⟩ := completed
  have middle : inv (ordered.splitBy engine.sameTime).flatten grouped :=
    Except.foldlM_history (fun groups state => inv groups.flatten state) (start strategyState)
      (fun groups group current next _ held ran => by
        simpa using runGroup_history popped executed stepped ran held) applied
  rw [List.flatten_splitBy] at middle
  exact executeDue_invariant drained (fun _ _ => popped _ _ _) (fun _ _ _ _ _ => executed _ _ _ _)
    middle

end BacktestEngine

end PolymarketBt
