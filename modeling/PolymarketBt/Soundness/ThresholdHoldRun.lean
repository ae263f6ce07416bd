import PolymarketBt.Proofs.ThresholdHoldStrategy
import PolymarketBt.Soundness.AsOfExecution
import PolymarketBt.Soundness.EpisodeLedger

/-! # Threshold-and-hold makes one round trip

In every completed run of the reference engine the strategy buys at most once, and sells at most
once, after it and of the same token. Each order is decided in the context of a callback of the run
that admits it, and is executed as of its arrival.
-/

namespace PolymarketBt

/-! ## Callbacks -/

namespace BacktestEngine

variable {σ : Type} {engine : BacktestEngine σ}

/-- The context that the callback of an event sees. -/
def callbackContext (engine : BacktestEngine σ) (state : EngineState σ) (event : ReplayEvent) :
    Except PyError StrategyContext := do
  let (integrity, _) ← state.integrity.check event.receivedUtcNs
  let clock ← advanceClock state.clock engine.mode event
  let heard ← engine.recordEvent { state with integrity := integrity, clock := some clock } event
  return heard.context

/-- A context in which some event of a run is heard. -/
def CalledIn (engine : BacktestEngine σ) (start : EngineState σ) (steps : List EngineStep)
    (context : StrategyContext) : Prop :=
  ∃ before event after reached, steps = before ++ .event event :: after ∧
    before.foldlM engine.perform start = .ok reached ∧
    engine.callbackContext reached event = .ok context

theorem CalledIn.head {state : EngineState σ} {event : ReplayEvent} {steps : List EngineStep}
    {context : StrategyContext} (heard : engine.callbackContext state event = .ok context) :
    CalledIn engine state (.event event :: steps) context :=
  ⟨[], event, steps, state, rfl, rfl, heard⟩

theorem CalledIn.cons {state next : EngineState σ} {step : EngineStep} {steps : List EngineStep}
    {context : StrategyContext} (stepped : engine.perform state step = .ok next)
    (called : CalledIn engine next steps context) :
    CalledIn engine state (step :: steps) context := by
  obtain ⟨before, event, after, reached, rfl, ran, heard⟩ := called
  refine ⟨step :: before, event, after, reached, rfl, ?_, heard⟩
  rw [List.foldlM_cons, stepped]
  exact ran

/-- An event is heard once, at its own time and after the clock, and the strategy keeps what its
callback leaves. -/
theorem stepEvent_callback {state next : EngineState σ} {event : ReplayEvent}
    (stepped : engine.stepEvent state event = .ok next) :
    ∃ heard intents, engine.callbackContext state event = .ok heard.context ∧
      engine.callbackIntents state event = .ok intents ∧
      engine.hear heard event = .ok (next.strategyState, intents) ∧
      heard.strategyState = state.strategyState ∧ next.clock = some heard.context.nowNs ∧
      ∀ current ∈ state.clock, current ≤ heard.context.nowNs := by
  obtain ⟨integrity, found, heard, strategyState, intents, checked, advanced, recorded, called,
    scheduled⟩ := stepEvent_eq_ok_iff.mp stepped
  obtain ⟨_, _, forwards⟩ := advanceClock_eq_ok_iff.mp advanced
  obtain ⟨_, _, _, _, rfl⟩ := schedule_writes scheduled
  refine ⟨heard, intents, ?_, callbackIntents_of_heard checked advanced recorded called, ?_⟩
  · unfold callbackContext
    simp only [Except.bind_eq_ok, Except.pure_eq_ok]
    exact ⟨(integrity, found), checked, _, advanced, heard, recorded, rfl⟩
  · obtain ⟨⟨_, _, _, _, _, rfl⟩, _, _⟩ := recordEvent_effect recorded
    exact ⟨called, rfl, rfl, forwards⟩

end BacktestEngine

/-! ## One round trip -/

namespace ThresholdHoldStrategy

variable {hold : ThresholdHoldStrategy} {calls : StrategyContext → Prop}

/-- The strategy decides at the current time, so the engine executes its orders as of their
arrivals. -/
theorem strategy_decidesNow : hold.strategy.DecidesNow :=
  strategy_obeys.mono fun _ _ decided => decided.elim Enters.now Exits.now

/-- The intents that the strategy can still return from a state, each in the context of a callback
that is not earlier than the clock. -/
inductive Trades (hold : ThresholdHoldStrategy) (calls : StrategyContext → Prop) :
    Option ℤ → HoldState → List OrderIntent → Prop
  | done {clock : Option ℤ} {state : HoldState} : Trades hold calls clock state []
  | entry {clock : Option ℤ} {state : HoldState} {context : StrategyContext} {intent : OrderIntent}
      {later : List OrderIntent} (called : calls context)
      (forwards : ∀ current ∈ clock, current ≤ context.nowNs) (flat : state.positionToken = none)
      (enters : hold.Enters context intent)
      (rest : Trades hold calls (some context.nowNs)
        { state with entries := state.entries + 1, positionToken := some intent.tokenId } later) :
      Trades hold calls clock state (intent :: later)
  | exit {clock : Option ℤ} {state : HoldState} {context : StrategyContext} {intent : OrderIntent}
      {later : List OrderIntent} (called : calls context)
      (forwards : ∀ current ∈ clock, current ≤ context.nowNs)
      (holding : state.positionToken = some intent.tokenId) (unsent : state.stopSent = false)
      (exits : hold.Exits context intent)
      (rest : Trades hold calls (some context.nowNs) { state with stopSent := true } later) :
      Trades hold calls clock state (intent :: later)

namespace Trades

theorem mono {calls others : StrategyContext → Prop} {clock : Option ℤ} {state : HoldState}
    {intents : List OrderIntent} (trades : hold.Trades calls clock state intents)
    (included : ∀ context, calls context → others context) :
    hold.Trades others clock state intents := by
  induction trades with
  | done => exact .done
  | entry called forwards flat enters _ ih =>
    exact .entry (included _ called) forwards flat enters ih
  | exit called forwards holding unsent exits _ ih =>
    exact .exit (included _ called) forwards holding unsent exits ih

theorem since {clock : Option ℤ} {now : ℤ} {state : HoldState} {intents : List OrderIntent}
    (trades : hold.Trades calls (some now) state intents)
    (forwards : ∀ current ∈ clock, current ≤ now) : hold.Trades calls clock state intents := by
  have reaches {context : StrategyContext} (after : ∀ current ∈ some now, current ≤ context.nowNs) :
      ∀ current ∈ clock, current ≤ context.nowNs :=
    fun current known => (forwards current known).trans (after now rfl)
  cases trades with
  | done => exact .done
  | entry called after flat enters rest => exact .entry called (reaches after) flat enters rest
  | exit called after holding unsent exits rest =>
    exact .exit called (reaches after) holding unsent exits rest

/-- A callback puts what it decides before what follows. -/
theorem prepend {clock : Option ℤ} {state next : HoldState} {context : StrategyContext}
    {decided later : List OrderIntent} (called : calls context)
    (forwards : ∀ current ∈ clock, current ≤ context.nowNs)
    (decision : hold.Decision context state (next, decided))
    (rest : hold.Trades calls (some context.nowNs) next later) :
    hold.Trades calls clock state (decided ++ later) := by
  cases decision with
  | nothing => exact rest.since forwards
  | entry flat enters => exact .entry called forwards flat enters rest
  | exit holding unsent exits => exact .exit called forwards holding unsent exits rest

theorem of_stopped {clock : Option ℤ} {state : HoldState} {intents : List OrderIntent}
    (trades : hold.Trades calls clock state intents) (holding : state.positionToken ≠ none)
    (sent : state.stopSent = true) : intents = [] := by
  cases trades with
  | done => rfl
  | entry _ _ flat => exact absurd flat holding
  | exit _ _ _ unsent => simp [sent] at unsent

end Trades

/-- At most one buy, and after it at most one sale of what was bought. -/
inductive RoundTrip (hold : ThresholdHoldStrategy) (calls : StrategyContext → Prop) :
    List OrderIntent → Prop
  | flat : RoundTrip hold calls []
  | held {context : StrategyContext} {bought : OrderIntent} (called : calls context)
      (enters : hold.Enters context bought) : RoundTrip hold calls [bought]
  | stopped {context stop : StrategyContext} {bought sold : OrderIntent} (called : calls context)
      (enters : hold.Enters context bought) (stopped : calls stop) (exits : hold.Exits stop sold)
      (same : sold.tokenId = bought.tokenId) (later : context.nowNs ≤ stop.nowNs) :
      RoundTrip hold calls [bought, sold]

theorem Trades.roundTrip {clock : Option ℤ} {state : HoldState} {intents : List OrderIntent}
    (trades : hold.Trades calls clock state intents) (flat : state.positionToken = none) :
    hold.RoundTrip calls intents := by
  cases trades with
  | done => exact .flat
  | exit _ _ holding => cases flat.symm.trans holding
  | entry called _ _ enters rest =>
    cases rest with
    | done => exact .held called enters
    | entry _ _ again => cases again
    | exit sold later holding _ exits rest =>
      obtain rfl := rest.of_stopped (Option.some_ne_none _) rfl
      exact .stopped called enters sold exits (Option.some.inj holding).symm (later _ rfl)

end ThresholdHoldStrategy

/-! ## Whole runs -/

namespace BacktestEngine

variable {engine : BacktestEngine HoldState} {hold : ThresholdHoldStrategy}

theorem hear_decides (own : engine.strategy = hold.strategy) {heard : EngineState HoldState}
    {event : ReplayEvent} {after : HoldState × List OrderIntent}
    (ran : engine.hear heard event = .ok after) :
    hold.Decision heard.context heard.strategyState after := by
  unfold hear at ran
  rw [own] at ran
  split at ran
  · exact ThresholdHoldStrategy.onMarketEvent_decides ran
  · exact ThresholdHoldStrategy.onMarketEvent_decides ran
  · exact ThresholdHoldStrategy.onMarketEvent_decides ran
  all_goals
    cases ran
    exact .nothing

/-- What the callbacks of a run return is what the strategy can return from its state. -/
theorem returned_trades (own : engine.strategy = hold.strategy) {steps : List EngineStep}
    {state final : EngineState HoldState} (ran : steps.foldlM engine.perform state = .ok final) :
    hold.Trades (CalledIn engine state steps) state.clock state.strategyState
      (returned engine state steps) := by
  induction steps generalizing state with
  | nil => exact .done
  | cons step steps ih =>
    rw [List.foldlM_cons] at ran
    obtain ⟨next, stepped, ran⟩ := Except.bind_eq_ok.mp ran
    have rest := (ih ran).mono fun _ called => called.cons stepped
    unfold returned
    rw [stepped]
    cases step with
    | event event =>
      obtain ⟨heard, intents, context, decided, called, before, clock, forwards⟩ :=
        stepEvent_callback stepped
      have decision := hear_decides own called
      rw [before] at decision
      rw [clock] at rest
      dsimp only
      rw [decided]
      exact .prepend (.head context) forwards decision rest
    | execution order =>
      obtain ⟨⟨_, _, _, _, rfl, _⟩, _⟩ := executeOrder_effect stepped
      exact rest

theorem start_holds (own : engine.strategy = hold.strategy) {start : EngineState HoldState}
    (started : engine.start = .ok start) : start.strategyState = ⟨0, none, false⟩ := by
  unfold BacktestEngine.start at started
  rw [own] at started
  simp only [Except.bind_eq_ok, Except.pure_eq_ok] at started
  obtain ⟨_, same, rfl⟩ := started
  cases same
  rfl

/-- Every completed run of the strategy is one round trip at most, executed as of its arrivals. -/
theorem run_roundTrip (own : engine.strategy = hold.strategy) {events merged : List ReplayEvent}
    (merge : mergeEvents events engine.mode = .ok merged) {artifacts : BacktestArtifacts}
    (completed : engine.run events = .ok artifacts) :
    ∃ start steps final, engine.start = .ok start ∧
      steps.foldlM engine.perform start = .ok final ∧
      AsOf engine merged start steps artifacts.orderResults ∧
      hold.RoundTrip (CalledIn engine start steps) (returned engine start steps) := by
  have decides : engine.strategy.DecidesNow := by
    rw [own]
    exact ThresholdHoldStrategy.strategy_decidesNow
  obtain ⟨start, steps, final, started, timeline, rfl, logged⟩ :=
    run_timeline decides.neverBackdates merge completed
  obtain ⟨account, fresh⟩ := start_account started
  have performed := timeline_performs timeline
  refine ⟨start, steps, final, started, performed, ?_, ?_⟩
  · rw [← logged]
    exact timeline_asOf decides.neverBackdates timeline account fresh (timeline_settled timeline)
  · exact (returned_trades own performed).roundTrip (by rw [start_holds own started])

def holdingEngine : BacktestEngine HoldState :=
  { buyingEngine id with
    strategy := ThresholdHoldStrategy.strategy
      ⟨ThresholdHoldSimulator.exampleParams .immediate, TapeBuilder.exampleEpisode, "hold"⟩ }

def quoteAt (timestampNs : ℤ) (bid ask : ℤ) : ReplayEvent where
  exchangeTimestampNs := none
  receivedUtcNs := timestampNs
  receivedMonotonicNs := timestampNs
  connectionId := "book-feed"
  sequence := timestampNs
  parentChangeIndex := 0
  sourcePriority := 10
  payload := .bookSnapshot { TapeBuilder.exampleSnapshot with
    sequence := timestampNs
    receivedUtcNs := timestampNs
    bids := [⟨bid, 5000000⟩]
    asks := [⟨ask, 7000000⟩] }

/-- An ask in the band, and after the purchase a bid below the stop. -/
def fallingQuotes : List ReplayEvent :=
  [quoteAt 10 780000 800000, quoteAt 100000000 690000 710000]

theorem run_roundTrip_falling :
    ∃ artifacts, holdingEngine.run fallingQuotes = .ok artifacts ∧
      artifacts.orderResults.map (·.result.intent.side) = [.buy, .sell] ∧
      ∃ start steps final, holdingEngine.start = .ok start ∧
        steps.foldlM holdingEngine.perform start = .ok final ∧
        AsOf holdingEngine fallingQuotes start steps artifacts.orderResults ∧
        ThresholdHoldStrategy.RoundTrip
          ⟨ThresholdHoldSimulator.exampleParams .immediate, TapeBuilder.exampleEpisode, "hold"⟩
          (CalledIn holdingEngine start steps) (returned holdingEngine start steps) := by
  have sides : (holdingEngine.run fallingQuotes).toOption.map
      (·.orderResults.map (·.result.intent.side)) = some [.buy, .sell] := by
    decide +kernel
  cases completed : holdingEngine.run fallingQuotes with
  | error e =>
    rw [completed] at sides
    cases sides
  | ok artifacts =>
    rw [completed] at sides
    exact ⟨artifacts, rfl, Option.some.inj sides, @run_roundTrip holdingEngine _ rfl fallingQuotes
      fallingQuotes (by decide +kernel) artifacts completed⟩

end BacktestEngine

end PolymarketBt
