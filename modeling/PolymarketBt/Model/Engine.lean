import PolymarketBt.Model.Replay
import PolymarketBt.Model.TakerExecution

/-! # The reference backtest engine

The engine merges the recorded events, applies them in groups of one replay time, and hands each to
the strategy. An intent becomes a pending order whose arrival is its decision time and a latency
draw; orders that arrive before a group execute before it and orders that arrive with it after it.
A call that raises ends the run. The random stream and the libraries are parameters.
-/

namespace PolymarketBt

open StableSort (InOrder sortByKey)

/-! ## Data quality -/

inductive QualityState where
  | complete
  | degraded
  | unreliable
  | excluded
deriving DecidableEq, Repr

def QualityState.text : QualityState → String
  | complete => "complete"
  | degraded => "degraded"
  | unreliable => "unreliable"
  | excluded => "excluded"

structure QualityInterval where
  startUtcNs : ℤ
  endUtcNs : Option ℤ
  state : QualityState
  category : String
  details : List (String × Option String)
deriving DecidableEq, Repr

def QualityInterval.contains (interval : QualityInterval) (timestampNs : ℤ) : Bool :=
  interval.startUtcNs ≤ timestampNs ∧ interval.endUtcNs.all fun endUtcNs => timestampNs ≤ endUtcNs

structure ReplayIntegrity where
  intervals : List QualityInterval
  rejectOnGap : Bool
  usedDegraded : List QualityInterval

namespace ReplayIntegrity

/-- List an interval that is not listed yet. -/
def noteUsed (used : List QualityInterval) (interval : QualityInterval) : List QualityInterval :=
  if interval ∈ used then used else used ++ [interval]

/-- What one interval does to a check: the intervals used so far and the state found. -/
def checkInterval (rejectOnGap : Bool) (timestampNs : ℤ)
    (found : List QualityInterval × QualityState) (interval : QualityInterval) :
    Except PyError (List QualityInterval × QualityState) :=
  if interval.contains timestampNs then
    match interval.state with
    | .complete => .ok found
    | .degraded =>
      .ok (noteUsed found.1 interval, if found.2 = .complete then .degraded else found.2)
    | .unreliable | .excluded =>
      if rejectOnGap then
        .error (.valueError
          s!"replay rejected at {timestampNs}: {interval.category} ({interval.state.text})")
      else .ok (noteUsed found.1 interval, interval.state)
  else .ok found

def check (integrity : ReplayIntegrity) (timestampNs : ℤ) :
    Except PyError (ReplayIntegrity × QualityState) := do
  let (used, state) ← integrity.intervals.foldlM (checkInterval integrity.rejectOnGap timestampNs)
    (integrity.usedDegraded, .complete)
  return ({ integrity with usedDegraded := used }, state)

end ReplayIntegrity

/-- The clock of the replay; it never moves backwards. -/
def advanceClock (currentNs : Option ℤ) (mode : ReplayClockMode) (event : ReplayEvent) :
    Except PyError ℤ := do
  let timestampNs ← event.timestamp mode
  if currentNs.any fun current => timestampNs < current then
    throw (.valueError "replay clock moved backwards")
  return timestampNs

/-! ## The strategy -/

structure MarketCloseEvent where
  timestampNs : ℤ
  conditionId : String
  winningTokenId : String
deriving DecidableEq, Repr

/-- What a strategy sees: the books come with their tokens in the order they were registered. -/
structure StrategyContext where
  portfolio : Portfolio
  nowNs : ℤ
  books : String → Option OrderBook
  bookTokens : List String
  btcPrices : List (String × BtcPriceEvent)

/-- A deterministic strategy with the state that its callbacks read and write. -/
structure Strategy (σ : Type) where
  strategyId : String
  initial : σ
  onStart : σ → StrategyContext → Except PyError σ
  onMarketEvent : σ → ReplayEvent → StrategyContext → Except PyError (σ × List OrderIntent)
  onBtcPrice : σ → BtcPriceEvent → StrategyContext → Except PyError (σ × List OrderIntent)
  onTrade : σ → TradeEvent → StrategyContext → Except PyError (σ × List OrderIntent)
  onMarketClose : σ → MarketCloseEvent → StrategyContext → Except PyError (σ × List OrderIntent)

/-- The strategy that never trades. -/
def noOpStrategy : Strategy Unit where
  strategyId := "no_op-v1"
  initial := ()
  onStart := fun _ _ => .ok ()
  onMarketEvent := fun _ _ _ => .ok ((), [])
  onBtcPrice := fun _ _ _ => .ok ((), [])
  onTrade := fun _ _ _ => .ok ((), [])
  onMarketClose := fun _ _ _ => .ok ((), [])

/-! ## Pending orders -/

structure PendingOrder where
  arrivalNs : ℤ
  counter : ℕ
  intent : OrderIntent
deriving DecidableEq, Repr

/-- Orders leave the heap by arrival and then in the order they were scheduled. -/
def PendingOrder.key (order : PendingOrder) : ℤ ×ₗ ℕ := toLex (order.arrivalNs, order.counter)

/-- The heap of pending orders, listed in the order it pops them. -/
structure PendingHeap where
  orders : List PendingOrder
  inOrder : InOrder PendingOrder.key orders

namespace PendingHeap

def empty : PendingHeap := ⟨[], List.Pairwise.nil⟩

def push (heap : PendingHeap) (order : PendingOrder) : PendingHeap where
  orders := heap.orders.orderedInsert
    (fun first second => PendingOrder.key first ≤ PendingOrder.key second) order
  inOrder := List.Pairwise.orderedInsert order heap.orders heap.inOrder

/-- What is left once every leading order that is due has been popped. -/
def popDue (heap : PendingHeap) (due : PendingOrder → Bool) : PendingHeap where
  orders := heap.orders.dropWhile due
  inOrder := heap.inOrder.sublist (List.dropWhile_sublist due)

end PendingHeap

/-! ## The engine -/

inductive MakerQueueModel where
  | optimistic
  | conservative
  | proportional
deriving DecidableEq, Repr

def MakerQueueModel.text : MakerQueueModel → String
  | optimistic => "optimistic"
  | conservative => "conservative"
  | proportional => "proportional"

structure BacktestConfig where
  startingCashScaled : ℤ
  replayClock : ReplayClockMode
  rejectOnGap : Bool
  allowNegativeCash : Bool
  allowShortPositions : Bool
  latency : LatencyConfig
  fee : FeeConfig
  makerQueueModel : MakerQueueModel
deriving DecidableEq, Repr

structure MarketResult where
  conditionId : String
  winningTokenId : String
  winningOutcome : String
  settlementTimestampNs : ℤ
  payoutScaled : ℤ
deriving DecidableEq, Repr

/-- An order result beside its place in the schedule, its arrival, if it was executed, and its
slippage, if it has one. -/
structure LoggedOrder where
  counter : ℕ
  arrivalNs : Option ℤ
  result : OrderResult
  slippageScaled : Option ℤ
deriving DecidableEq, Repr

structure BacktestEngine (σ : Type) where
  config : BacktestConfig
  strategy : Strategy σ
  qualityIntervals : List QualityInterval
  feeModel : FeeModel
  draws : Draws
  /-- The name-based identifier under the URL namespace. -/
  uuid5 : String → String
  /-- The integer that a text denotes. -/
  int : String → Except PyError ℤ

structure EngineState (σ : Type) where
  strategyState : σ
  integrity : ReplayIntegrity
  clock : Option ℤ
  nowNs : ℤ
  btcPrices : List (String × BtcPriceEvent)
  reconstructor : BookReconstructor
  bookTokens : List String
  portfolio : Portfolio
  pending : PendingHeap
  intentCounter : ℕ
  latencyDraws : ℕ
  orderResults : List LoggedOrder
  marketResults : List MarketResult
  resolvedConditions : List String

namespace EngineState

variable {σ : Type} (state : EngineState σ)

def context : StrategyContext where
  portfolio := state.portfolio
  nowNs := state.nowNs
  books := state.reconstructor.books
  bookTokens := state.bookTokens
  btcPrices := state.btcPrices

def setBook (tokenId : String) (book : OrderBook) : EngineState σ :=
  { state with reconstructor := state.reconstructor.setBook tokenId book }

/-- List a token whose book has just been registered. -/
def registerToken (tokenId : String) : EngineState σ :=
  if state.reconstructor.books tokenId = none then
    { state with bookTokens := state.bookTokens ++ [tokenId] }
  else state

def logOrder (order : LoggedOrder) : EngineState σ :=
  { state with orderResults := state.orderResults ++ [order] }

end EngineState

namespace BacktestEngine

variable {σ : Type} (engine : BacktestEngine σ)

def init (config : BacktestConfig) (strategy : Strategy σ)
    (qualityIntervals : List QualityInterval) (draws : Draws) (uuid5 : String → String)
    (int : String → Except PyError ℤ) : Except PyError (BacktestEngine σ) := do
  let feeModel ← FeeModel.init config.fee
  return ⟨config, strategy, qualityIntervals, feeModel, draws, uuid5, int⟩

def mode : ReplayClockMode := engine.config.replayClock

def execution : TakerExecutionSimulator := ⟨engine.feeModel, engine.uuid5⟩

/-- The state before the first callback. -/
def initialState : EngineState σ where
  strategyState := engine.strategy.initial
  integrity := ⟨engine.qualityIntervals, engine.config.rejectOnGap, []⟩
  clock := none
  nowNs := 0
  btcPrices := []
  reconstructor := .init
  bookTokens := []
  portfolio := .init engine.config.startingCashScaled engine.config.allowNegativeCash
    engine.config.allowShortPositions
  pending := .empty
  intentCounter := 0
  latencyDraws := 0
  orderResults := []
  marketResults := []
  resolvedConditions := []

/-! ### Scheduling -/

/-- The best quote that the intent would meet when it is decided. -/
def referencePrice (books : String → Option OrderBook) (intent : OrderIntent) : Option ℤ :=
  (books intent.tokenId).bind fun book =>
    match intent.side with
    | .buy => book.bestAsk
    | .sell => book.bestBid

/-- The intent under its deterministic id, with the reference price it was decided at. -/
def deterministicIntent (state : EngineState σ) (intent : OrderIntent) : OrderIntent :=
  { intent with
    orderIntentId := engine.uuid5 (s!"{engine.strategy.strategyId}:{intent.decisionTimestampNs}:" ++
      s!"{state.intentCounter}:{intent.tokenId}")
    metadata :=
      match referencePrice state.reconstructor.books intent with
      | none => intent.metadata
      | some reference =>
        KeyedList.assign "decision_reference_price_scaled" s!"{reference}" intent.metadata }

def scheduleIntent (state : EngineState σ) (intent : OrderIntent) :
    Except PyError (EngineState σ) := do
  let deterministic := engine.deterministicIntent state intent
  let counted := { state with intentCounter := state.intentCounter + 1 }
  match deterministic.orderType with
  | .limitGtcSimulated =>
    return counted.logOrder {
      counter := state.intentCounter
      arrivalNs := none
      result := .rejected deterministic ("maker simulation requires explicit queue-event workflow; " ++
        s!"configured model={engine.config.makerQueueModel.text}")
      slippageScaled := none }
  | .marketableTaker =>
    let sampleNs ← engine.config.latency.sampleNs engine.draws state.latencyDraws
    return { counted with
      latencyDraws := state.latencyDraws + 1
      pending := state.pending.push
        ⟨deterministic.decisionTimestampNs + sampleNs, state.intentCounter, deterministic⟩ }

def schedule (state : EngineState σ) (intents : List OrderIntent) :
    Except PyError (EngineState σ) :=
  intents.foldlM engine.scheduleIntent state

/-! ### Execution -/

/-- The average price of the fills against the reference price, positive when it is worse. -/
def slippageOf (result : OrderResult) : Except PyError (Option ℤ) :=
  if result.fills.isEmpty then .ok none
  else
    match result.intent.metadata.lookup "decision_reference_price_scaled" with
    | none => .ok none
    | some text => do
      let reference ← engine.int text
      let totalSize := (result.fills.map SimulatedFill.sizeScaled).sum
      let average :=
        (result.fills.map fun fill => fill.priceScaled * fill.sizeScaled).sum / totalSize
      return some (match result.intent.side with
        | .buy => average - reference
        | .sell => reference - average)

/-- Match an order that has been popped against the book of its token. -/
def matchOrder (state : EngineState σ) (order : PendingOrder) :
    Except PyError (EngineState σ × OrderResult) :=
  if order.intent.conditionId ∈ state.resolvedConditions then
    .ok (state, .rejected order.intent "market already resolved")
  else
    match state.reconstructor.books order.intent.tokenId with
    | none => .ok (state, .rejected order.intent "token book unavailable")
    | some book => do
      let (book, portfolio, result) ←
        engine.execution.execute order.intent book state.portfolio order.arrivalNs
      return ({ state.setBook order.intent.tokenId book with portfolio := portfolio }, result)

def executeOrder (state : EngineState σ) (order : PendingOrder) :
    Except PyError (EngineState σ) := do
  let (matched, result) ← engine.matchOrder state order
  let slippageScaled ← engine.slippageOf result
  return matched.logOrder ⟨order.counter, some order.arrivalNs, result, slippageScaled⟩

/-- Pop and execute the orders that are due, earliest arrival first. -/
def executeDue (due : PendingOrder → Bool) (state : EngineState σ) :
    Except PyError (EngineState σ) :=
  (state.pending.orders.takeWhile due).foldlM engine.executeOrder
    { state with pending := state.pending.popDue due }

def executePending (cutoffNs : ℤ) (inclusive : Bool) (state : EngineState σ) :
    Except PyError (EngineState σ) :=
  engine.executeDue
    (fun order => order.arrivalNs < cutoffNs ∨ inclusive ∧ order.arrivalNs = cutoffNs) state

/-! ### Events -/

/-- Apply a book event and let the strategy see it. -/
def applyBookEvent (state : EngineState σ) (event : ReplayEvent)
    (applied : BookReconstructor × Except PyError Unit) :
    Except PyError (EngineState σ × List OrderIntent) := do
  applied.2
  let state : EngineState σ := { state with reconstructor := applied.1 }
  let (strategyState, intents) ←
    engine.strategy.onMarketEvent state.strategyState event state.context
  return ({ state with strategyState := strategyState }, intents)

def applyResolution (state : EngineState σ) (resolution : Resolution) :
    Except PyError (EngineState σ × List OrderIntent) := do
  let (portfolio, payout) := settleCategoricalMarket state.portfolio resolution.conditionId
    resolution.winningTokenId state.nowNs
  let state : EngineState σ := { state with
    portfolio := portfolio
    resolvedConditions := resolution.conditionId :: state.resolvedConditions
    marketResults := state.marketResults ++ [{
      conditionId := resolution.conditionId
      winningTokenId := resolution.winningTokenId
      winningOutcome := resolution.winningOutcome
      settlementTimestampNs := state.nowNs
      payoutScaled := payout }] }
  let (strategyState, intents) ← engine.strategy.onMarketClose state.strategyState
    ⟨state.nowNs, resolution.conditionId, resolution.winningTokenId⟩ state.context
  return ({ state with strategyState := strategyState }, intents)

def applyEvent (state : EngineState σ) (event : ReplayEvent) :
    Except PyError (EngineState σ × List OrderIntent) := do
  let nowNs ← event.timestamp engine.mode
  let state : EngineState σ := { state with nowNs := nowNs }
  match event.payload with
  | .bookSnapshot snapshot =>
    engine.applyBookEvent (state.registerToken snapshot.tokenId) event
      (state.reconstructor.applySnapshot snapshot)
  | .bookUpdate change =>
    engine.applyBookEvent state event (state.reconstructor.applyChange change)
  | .tickSizeChange change =>
    engine.applyBookEvent state event (state.reconstructor.applyTickSizeChange change)
  | .btcPrice price =>
    let state : EngineState σ :=
      { state with btcPrices := KeyedList.assign price.source price state.btcPrices }
    let (strategyState, intents) ←
      engine.strategy.onBtcPrice state.strategyState price state.context
    return ({ state with strategyState := strategyState }, intents)
  | .trade trade =>
    let (strategyState, intents) ←
      engine.strategy.onTrade state.strategyState trade state.context
    return ({ state with strategyState := strategyState }, intents)
  | .marketResolution resolution => engine.applyResolution state resolution
  | .other _ _ => return (state, [])

/-- One event: the quality check, the clock, the callback and the intents it returns. -/
def stepEvent (state : EngineState σ) (event : ReplayEvent) : Except PyError (EngineState σ) := do
  let (integrity, _) ← state.integrity.check event.receivedUtcNs
  let clock ← advanceClock state.clock engine.mode event
  let (applied, intents) ←
    engine.applyEvent { state with integrity := integrity, clock := some clock } event
  engine.schedule applied intents

/-- One group of events with the same replay time. -/
def runGroup (state : EngineState σ) : List ReplayEvent → Except PyError (EngineState σ)
  | [] => .ok state
  | first :: rest => do
    let timestampNs ← first.timestamp engine.mode
    let state ← engine.executePending timestampNs false state
    let state ← (first :: rest).foldlM engine.stepEvent state
    engine.executePending timestampNs true state

/-- Neighbours of one group. -/
def sameTime (first second : ReplayEvent) : Bool :=
  (first.timestamp engine.mode).toOption == (second.timestamp engine.mode).toOption

/-- Execute what is still pending after the last event; no callback runs any more. -/
def drain (state : EngineState σ) : Except PyError (EngineState σ) :=
  engine.executeDue (fun _ => true) state

def start : Except PyError (EngineState σ) := do
  let strategyState ←
    engine.strategy.onStart engine.strategy.initial engine.initialState.context
  return { engine.initialState with strategyState := strategyState }

/-- The loop of a run over the merged events. -/
def replay (ordered : List ReplayEvent) : Except PyError (EngineState σ) := do
  let state ← engine.start
  let state ← (ordered.splitBy engine.sameTime).foldlM engine.runGroup state
  engine.drain state

end BacktestEngine

/-! ## The report -/

/-- An interval cut to the span of the replay; an end of zero counts as no end. -/
def clipInterval (replayStart replayEnd : ℤ) (interval : QualityInterval) : ℤ × ℤ :=
  (max replayStart interval.startUtcNs,
    min replayEnd (match interval.endUtcNs with
      | none => replayEnd
      | some endUtcNs => if endUtcNs = 0 then replayEnd else endUtcNs))

/-- Add a span to disjoint spans that start no later. -/
def mergeSpan (merged : List (ℤ × ℤ)) (span : ℤ × ℤ) : List (ℤ × ℤ) :=
  if span.2 ≤ span.1 then merged
  else
    match merged.getLast? with
    | none => [span]
    | some last =>
      if span.1 ≤ last.2 then merged.dropLast ++ [(last.1, max last.2 span.2)]
      else merged ++ [span]

def degradedTimePpm (events : List ReplayEvent) (intervals : List QualityInterval) : ℤ :=
  match (events.map ReplayEvent.receivedUtcNs).min?, (events.map ReplayEvent.receivedUtcNs).max? with
  | some replayStart, some replayEnd =>
    if intervals.isEmpty then 0
    else if replayEnd - replayStart ≤ 0 then 1000000
    else
      let spans := sortByKey toLex (intervals.map (clipInterval replayStart replayEnd))
      let merged := spans.foldl mergeSpan []
      let degraded := (merged.map fun span => span.2 - span.1).sum
      min 1000000 (degraded * 1000000 / (replayEnd - replayStart))
  | _, _ => 0

/-- One value of the series: the peak so far and the deepest fall from it. -/
def drawdownStep (found : ℤ × ℤ) (value : ℤ) : ℤ × ℤ :=
  (max found.1 value, max found.2 (max found.1 value - value))

def maximumDrawdown : List ℤ → ℤ
  | [] => 0
  | first :: rest => ((first :: rest).foldl drawdownStep (first, 0)).2

structure BacktestSummary where
  strategyId : String
  startingCapitalScaled : ℤ
  endingCapitalScaled : ℤ
  netPnlScaled : ℤ
  grossPnlScaled : ℤ
  feesScaled : ℤ
  orderIntents : ℕ
  acceptedOrders : ℕ
  rejectedOrders : ℕ
  fills : ℕ
  partialFills : ℕ
  shareVolumeScaled : ℤ
  notionalVolumeScaled : ℤ
  maximumDrawdownScaled : ℤ
  averageSlippageScaled : Option ℤ
  fillRatioPpm : ℤ
  degradedTimePpm : ℤ
  markets : ℕ
  skippedMarkets : ℕ
deriving DecidableEq, Repr

structure BacktestArtifacts where
  summary : BacktestSummary
  orderResults : List LoggedOrder
  portfolioEvents : List PortfolioEvent
  marketResults : List MarketResult
  qualityIntervalsUsed : List QualityInterval
  slippagesScaled : List ℤ
deriving DecidableEq, Repr

namespace BacktestEngine

variable {σ : Type} (engine : BacktestEngine σ)

/-- The midpoints of the books that have both quotes. -/
def midpointPrices (state : EngineState σ) (tokenId : String) : Option ℤ :=
  (state.reconstructor.books tokenId).bind fun book => quoteMidpoint book.bestBid book.bestAsk

def summarize (ordered : List ReplayEvent) (state : EngineState σ) : BacktestSummary :=
  let ending := state.portfolio.equityScaled (midpointPrices state)
  let starting := state.portfolio.startingCashScaled
  let results := state.orderResults.map LoggedOrder.result
  let fills := results.flatMap OrderResult.fills
  let requested := (results.map fun result => result.intent.requestedSharesScaled.getD 0).sum
  let filled := (fills.map SimulatedFill.sizeScaled).sum
  let slippages := state.orderResults.filterMap LoggedOrder.slippageScaled
  let books := state.bookTokens.filterMap state.reconstructor.books
  { strategyId := engine.strategy.strategyId
    startingCapitalScaled := starting
    endingCapitalScaled := ending
    netPnlScaled := ending - starting
    grossPnlScaled := ending - starting + state.portfolio.feesPaidScaled
    feesScaled := state.portfolio.feesPaidScaled
    orderIntents := results.length
    acceptedOrders := results.countP fun result =>
      result.status = .filled ∨ result.status = .partiallyFilled
    rejectedOrders := results.countP fun result => result.status = .rejected
    fills := fills.length
    partialFills := results.countP fun result => result.status = .partiallyFilled
    shareVolumeScaled := filled
    notionalVolumeScaled := (fills.map SimulatedFill.notionalScaled).sum
    maximumDrawdownScaled :=
      maximumDrawdown (starting :: state.portfolio.events.map PortfolioEvent.cashScaled)
    averageSlippageScaled :=
      if slippages.isEmpty then none else some (slippages.sum / slippages.length)
    fillRatioPpm := if requested = 0 then 0 else (filled * 1000000).fdiv requested
    degradedTimePpm := degradedTimePpm ordered state.integrity.usedDegraded
    markets := (books.map OrderBook.conditionId).dedup.length
    skippedMarkets := 0 }

def artifacts (ordered : List ReplayEvent) (state : EngineState σ) : BacktestArtifacts where
  summary := engine.summarize ordered state
  orderResults := state.orderResults
  portfolioEvents := state.portfolio.events
  marketResults := state.marketResults
  qualityIntervalsUsed := state.integrity.usedDegraded
  slippagesScaled := state.orderResults.filterMap LoggedOrder.slippageScaled

/-- Mark the open positions to the last midpoints. -/
def markToMarket (state : EngineState σ) : EngineState σ :=
  { state with portfolio := state.portfolio.markToMarket (midpointPrices state) }

def run (events : List ReplayEvent) : Except PyError BacktestArtifacts := do
  let ordered ← mergeEvents events engine.mode
  let state ← engine.replay ordered
  return engine.artifacts ordered (markToMarket state)

end BacktestEngine

end PolymarketBt
