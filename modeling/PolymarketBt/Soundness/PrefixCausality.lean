import PolymarketBt.Proofs.EngineTimeline

/-! # No look-ahead in the reference engine

Two runs over events that agree up to a horizon go through the same steps until the horizon, whatever
comes later. What a later step adds to results, log or settlements carries a time after the horizon,
so both runs report the same up to it. Dating an intent back is the one way around this.
-/

namespace PolymarketBt

open StableSort (InOrder)

/-- What a run reports up to a horizon. -/
structure HorizonView where
  orderResults : List LoggedOrder
  portfolioEvents : List PortfolioEvent
  marketResults : List MarketResult
deriving DecidableEq, Repr

def LoggedOrder.arrivedBy (horizonNs : ℤ) (order : LoggedOrder) : Bool :=
  order.arrivalNs.any fun arrivalNs => arrivalNs ≤ horizonNs

def BacktestArtifacts.upTo (horizonNs : ℤ) (artifacts : BacktestArtifacts) : HorizonView where
  orderResults := artifacts.orderResults.filter fun order => order.arrivedBy horizonNs
  portfolioEvents := artifacts.portfolioEvents.filter fun row => row.timestampNs ≤ horizonNs
  marketResults := artifacts.marketResults.filter fun row => row.settlementTimestampNs ≤ horizonNs

def EngineState.upTo {σ : Type} (horizonNs : ℤ) (state : EngineState σ) : HorizonView where
  orderResults := state.orderResults.filter fun order => order.arrivedBy horizonNs
  portfolioEvents := state.portfolio.events.filter fun row => row.timestampNs ≤ horizonNs
  marketResults := state.marketResults.filter fun row => row.settlementTimestampNs ≤ horizonNs

/-- Rows of a time after the horizon are not reported. -/
theorem GrowsAt.filter_le {α : Type} {time : α → ℤ} {timeNs horizonNs : ℤ} {before after : List α}
    (grows : GrowsAt time timeNs before after) (late : horizonNs < timeNs) :
    after.filter (fun row => time row ≤ horizonNs) =
      before.filter fun row => time row ≤ horizonNs := by
  obtain ⟨rows, rfl, times⟩ := grows
  have none : rows.filter (fun row => time row ≤ horizonNs) = [] :=
    List.filter_eq_nil_iff.mpr fun row member => by simpa [times row member] using late
  rw [List.filter_append, none, List.append_nil]

namespace BacktestEngine

variable {σ : Type} {engine : BacktestEngine σ} {horizonNs : ℤ}

/-! ## Late steps -/

theorem executeOrder_upTo {state after : EngineState σ} {order : PendingOrder}
    (late : horizonNs < order.arrivalNs) (ran : engine.executeOrder state order = .ok after) :
    after.upTo horizonNs = state.upTo horizonNs := by
  obtain ⟨⟨_, _, _, _, rfl, _⟩, rows⟩ := executeOrder_effect ran
  have grown := rows.filter_le late
  dsimp only at grown
  simp [EngineState.upTo, grown, LoggedOrder.arrivedBy, late]

theorem scheduleIntent_upTo {state after : EngineState σ} {intent : OrderIntent}
    (ran : engine.scheduleIntent state intent = .ok after) :
    after.upTo horizonNs = state.upTo horizonNs := by
  cases scheduleIntent_effect ran with
  | rejected => simp [EngineState.upTo, LoggedOrder.arrivedBy]
  | pending => rfl

theorem schedule_upTo {state after : EngineState σ} {intents : List OrderIntent}
    (ran : engine.schedule state intents = .ok after) :
    after.upTo horizonNs = state.upTo horizonNs :=
  Except.foldlM_history (fun _ current => current.upTo horizonNs = state.upTo horizonNs) rfl
    (fun _ _ _ _ _ held stepped => (scheduleIntent_upTo stepped).trans held) ran

theorem stepEvent_upTo {state after : EngineState σ} {event : ReplayEvent}
    (late : horizonNs < engine.timeOf event) (ran : engine.stepEvent state event = .ok after) :
    after.upTo horizonNs = state.upTo horizonNs := by
  obtain ⟨integrity, found, heard, strategyState, intents, _, _, recorded, _, scheduled⟩ :=
    stepEvent_eq_ok_iff.mp ran
  obtain ⟨⟨_, _, _, _, _, rfl⟩, rows, results⟩ := recordEvent_effect recorded
  rw [schedule_upTo scheduled]
  have grown := rows.filter_le late
  have settled := results.filter_le late
  dsimp only at grown settled
  simp [EngineState.upTo, grown, settled]

/-- Nothing that is reported up to the horizon happens after it. -/
theorem timeline_late (never : engine.strategy.NeverBackdates) {state final : EngineState σ}
    {steps : List EngineStep} (timeline : Timeline engine state steps final)
    (events : ∀ event ∈ steps.filterMap EngineStep.event?, horizonNs < engine.timeOf event)
    (pending : ∀ order ∈ state.pending.orders, horizonNs < order.arrivalNs) :
    final.upTo horizonNs = state.upTo horizonNs := by
  induction timeline with
  | nil => rfl
  | @event state next final event steps quiet stepped later rest ih =>
    have now := events event List.mem_cons_self
    rw [ih (fun other member => events other (List.mem_cons_of_mem _ member)) ?_,
      stepEvent_upTo now stepped]
    intro order member
    rcases stepEvent_pending never stepped order member with old | fresh
    · exact pending order old
    · exact now.trans_le fresh
  | @execution state next final order others steps first ran later rest ih =>
    have now := pending order (first ▸ List.mem_cons_self)
    rw [ih events ?_, executeOrder_upTo now ran]
    · rfl
    · intro other member
      rw [executeOrder_pending ran] at member
      exact pending other (List.mem_of_mem_tail member)

/-! ## Two runs -/

/-- The events of a run up to the horizon. -/
def eventsUpTo (engine : BacktestEngine σ) (horizonNs : ℤ) (events : List ReplayEvent) :
    List ReplayEvent :=
  events.filter fun event => engine.timeOf event ≤ horizonNs

@[simp] theorem mem_eventsUpTo {events : List ReplayEvent} {event : ReplayEvent} :
    event ∈ eventsUpTo engine horizonNs events ↔
      event ∈ events ∧ engine.timeOf event ≤ horizonNs := by
  simp [eventsUpTo]

theorem eventsUpTo_cons_of_le {event : ReplayEvent} {rest : List ReplayEvent}
    (early : engine.timeOf event ≤ horizonNs) :
    eventsUpTo engine horizonNs (event :: rest) = event :: eventsUpTo engine horizonNs rest :=
  List.filter_cons_of_pos (by simpa using early)

/-- A run whose events up to the horizon are those of a run without any has none either. -/
theorem late_of_agree {first second : List ReplayEvent}
    (late : ∀ event ∈ first, horizonNs < engine.timeOf event)
    (agree : eventsUpTo engine horizonNs first = eventsUpTo engine horizonNs second) :
    ∀ event ∈ second, horizonNs < engine.timeOf event := by
  intro event member
  by_contra early
  have shared : event ∈ eventsUpTo engine horizonNs first :=
    agree ▸ mem_eventsUpTo.mpr ⟨member, not_lt.mp early⟩
  obtain ⟨inFirst, _⟩ := mem_eventsUpTo.mp shared
  exact early (late event inFirst)

/-- Two timelines from one state report the same up to a horizon up to which they apply the same
events. -/
theorem timeline_agree (never : engine.strategy.NeverBackdates) {state first second : EngineState σ}
    {firstSteps secondSteps : List EngineStep}
    (firstTimeline : Timeline engine state firstSteps first)
    (secondTimeline : Timeline engine state secondSteps second)
    (agree : eventsUpTo engine horizonNs (firstSteps.filterMap EngineStep.event?) =
      eventsUpTo engine horizonNs (secondSteps.filterMap EngineStep.event?)) :
    first.upTo horizonNs = second.upTo horizonNs := by
  -- when nothing is left to do up to the horizon, neither run reports anything more
  have bothLate {state first : EngineState σ} {firstSteps : List EngineStep}
      (firstTimeline : Timeline engine state firstSteps first)
      {secondSteps : List EngineStep} (secondTimeline : Timeline engine state secondSteps second)
      (agree : eventsUpTo engine horizonNs (firstSteps.filterMap EngineStep.event?) =
        eventsUpTo engine horizonNs (secondSteps.filterMap EngineStep.event?))
      (events : ∀ event ∈ firstSteps.filterMap EngineStep.event?, horizonNs < engine.timeOf event)
      (pending : ∀ order ∈ state.pending.orders, horizonNs < order.arrivalNs) :
      first.upTo horizonNs = second.upTo horizonNs :=
    (timeline_late never firstTimeline events pending).trans
      (timeline_late never secondTimeline (late_of_agree events agree) pending).symm
  induction firstTimeline generalizing secondSteps with
  | nil settled =>
    exact bothLate (.nil settled) secondTimeline agree (by simp) (by simp [settled])
  | @event state next final event steps quiet stepped later rest ih =>
    by_cases early : engine.timeOf event ≤ horizonNs
    · have shared : event ∈ secondSteps.filterMap EngineStep.event? := by
        have own : event ∈ eventsUpTo engine horizonNs
            ((EngineStep.event event :: steps).filterMap EngineStep.event?) :=
          mem_eventsUpTo.mpr ⟨List.mem_cons_self, early⟩
        exact (mem_eventsUpTo.mp (agree ▸ own)).1
      cases secondTimeline with
      | nil => cases shared
      | @event _ otherNext _ other otherSteps _ otherStepped otherLater otherRest =>
        have otherEarly : engine.timeOf other ≤ horizonNs := by
          rcases List.mem_cons.mp shared with rfl | inRest
          · exact early
          · exact (otherLater event inRest).trans early
        change eventsUpTo engine horizonNs (event :: steps.filterMap EngineStep.event?) =
          eventsUpTo engine horizonNs (other :: otherSteps.filterMap EngineStep.event?) at agree
        rw [eventsUpTo_cons_of_le early, eventsUpTo_cons_of_le otherEarly] at agree
        obtain ⟨rfl, tails⟩ := List.cons.inj agree
        rw [stepped] at otherStepped
        cases otherStepped
        exact ih otherRest tails
      | @execution _ _ _ order _ otherSteps first _ before _ =>
        have after := before event shared
        have arrived := quiet order (first ▸ List.mem_cons_self)
        exact absurd after (not_lt.mpr arrived)
    · have now : horizonNs < engine.timeOf event := not_le.mp early
      refine bothLate (.event quiet stepped later rest) secondTimeline agree ?_
        fun order member => now.trans_le (quiet order member)
      intro other member
      rcases List.mem_cons.mp member with rfl | inRest
      · exact now
      · exact now.trans_le (later other inRest)
  | @execution state next final order others steps first ran before rest ih =>
    by_cases early : order.arrivalNs ≤ horizonNs
    · cases secondTimeline with
      | nil settled =>
        rw [settled] at first
        cases first
      | @event _ _ _ event otherSteps quiet _ _ _ =>
        have arrived := quiet order (first ▸ List.mem_cons_self)
        have own : event ∈ eventsUpTo engine horizonNs
            ((EngineStep.event event :: otherSteps).filterMap EngineStep.event?) :=
          mem_eventsUpTo.mpr ⟨List.mem_cons_self, arrived.trans early⟩
        have shared := (mem_eventsUpTo.mp (agree ▸ own)).1
        exact absurd (before event shared) (not_lt.mpr arrived)
      | @execution _ _ _ other _ otherSteps otherFirst otherRan _ otherRest =>
        rw [first] at otherFirst
        obtain ⟨rfl, _⟩ := List.cons.inj otherFirst
        rw [ran] at otherRan
        cases otherRan
        exact ih otherRest agree
    · have now : horizonNs < order.arrivalNs := not_le.mp early
      refine bothLate (.execution first ran before rest) secondTimeline agree
        (fun event member => now.trans (before event member))
        fun other member => now.trans_le (arrival_le_of_first first other member)

/-- What a run reports up to a horizon depends only on the merged events up to it. -/
theorem run_upTo_eq (never : engine.strategy.NeverBackdates)
    {firstEvents secondEvents firstMerged secondMerged : List ReplayEvent}
    (firstMerge : mergeEvents firstEvents engine.mode = .ok firstMerged)
    (secondMerge : mergeEvents secondEvents engine.mode = .ok secondMerged)
    (agree : eventsUpTo engine horizonNs firstMerged = eventsUpTo engine horizonNs secondMerged)
    {first second : BacktestArtifacts} (firstRun : engine.run firstEvents = .ok first)
    (secondRun : engine.run secondEvents = .ok second) :
    first.upTo horizonNs = second.upTo horizonNs := by
  unfold run at firstRun secondRun
  simp only [Except.bind_eq_ok, Except.pure_eq_ok] at firstRun secondRun
  obtain ⟨_, same, firstFinal, firstReplay, rfl⟩ := firstRun
  cases firstMerge.symm.trans same
  obtain ⟨_, same, secondFinal, secondReplay, rfl⟩ := secondRun
  cases secondMerge.symm.trans same
  obtain ⟨firstTimed, firstOrder⟩ := merged_inOrder firstMerge
  obtain ⟨secondTimed, secondOrder⟩ := merged_inOrder secondMerge
  obtain ⟨start, firstSteps, started, firstTimeline, rfl⟩ :=
    replay_timeline never firstTimed firstOrder firstReplay
  obtain ⟨_, secondSteps, restarted, secondTimeline, rfl⟩ :=
    replay_timeline never secondTimed secondOrder secondReplay
  cases started.symm.trans restarted
  change firstFinal.upTo horizonNs = secondFinal.upTo horizonNs
  exact timeline_agree never firstTimeline secondTimeline agree

/-- A strategy that buys five shares on every trade, with a decision time of its own choice. -/
def buyOnTrade (decide : ℤ → ℤ) : Strategy Unit :=
  { noOpStrategy with
    strategyId := "buy_on_trade"
    onTrade := fun _ trade context => .ok ((), [{
      orderIntentId := ""
      strategyId := "buy_on_trade"
      decisionTimestampNs := decide context.nowNs
      tokenId := trade.tokenId
      conditionId := trade.conditionId
      outcome := trade.outcome
      side := .buy
      requestedSharesScaled := some 5000000 }]) }

def buyingEngine (decide : ℤ → ℤ) : BacktestEngine Unit where
  config := {
    startingCashScaled := 1000000000
    replayClock := .localReceiveTime
    rejectOnGap := false
    allowNegativeCash := false
    allowShortPositions := false
    latency := .constant 50
    fee := ⟨.taker, .zero, 0, 1, 0, .halfUp⟩
    makerQueueModel := .conservative }
  strategy := buyOnTrade decide
  qualityIntervals := []
  feeModel := ⟨⟨.taker, .zero, 0, 1, 0, .halfUp⟩, 0⟩
  draws := ⟨fun _ => 0, fun _ => 0⟩
  uuid5 := id
  int := fun _ => .ok 0

def tradeAt (timestampNs : ℤ) : ReplayEvent where
  exchangeTimestampNs := none
  receivedUtcNs := timestampNs
  receivedMonotonicNs := timestampNs
  connectionId := "trade-feed"
  sequence := timestampNs
  parentChangeIndex := 0
  sourcePriority := 30
  payload := .trade ⟨"t", timestampNs, "c", "u", "UP", none, timestampNs, timestampNs, 500000, none,
    none, none, none, none, none, "clob_market_ws", "r"⟩

theorem buyOnTrade_neverBackdates : (buyOnTrade id).NeverBackdates where
  onMarketEvent := by
    rintro _ _ _ _ ⟨⟩
    simp
  onBtcPrice := by
    rintro _ _ _ _ ⟨⟩
    simp
  onTrade := by
    rintro _ _ _ _ ⟨⟩
    simp
  onMarketClose := by
    rintro _ _ _ _ ⟨⟩
    simp

/-- A later trade does not change what was reported before it. -/
theorem buyOnTrade_upTo_eq :
    ∃ first second, (buyingEngine id).run [tradeAt 1000] = .ok first ∧
      (buyingEngine id).run [tradeAt 1000, tradeAt 90000000] = .ok second ∧
      first.upTo 60000000 = second.upTo 60000000 := by
  refine ⟨_, _, rfl, rfl, ?_⟩
  exact @run_upTo_eq Unit (buyingEngine id) 60000000 buyOnTrade_neverBackdates [tradeAt 1000]
    [tradeAt 1000, tradeAt 90000000] [tradeAt 1000] [tradeAt 1000, tradeAt 90000000] rfl rfl rfl
    _ _ rfl rfl

/-- An intent dated back after the horizon adds a result before it. -/
theorem backdated_upTo_ne :
    mergeEvents [tradeAt 1000] .localReceiveTime = .ok [tradeAt 1000] ∧
    mergeEvents [tradeAt 1000, tradeAt 90000000] .localReceiveTime =
      .ok [tradeAt 1000, tradeAt 90000000] ∧
    eventsUpTo (buyingEngine fun _ => 1000) 60000000 [tradeAt 1000] =
      eventsUpTo (buyingEngine fun _ => 1000) 60000000 [tradeAt 1000, tradeAt 90000000] ∧
    ∃ first second, (buyingEngine fun _ => 1000).run [tradeAt 1000] = .ok first ∧
      (buyingEngine fun _ => 1000).run [tradeAt 1000, tradeAt 90000000] = .ok second ∧
      first.upTo 60000000 ≠ second.upTo 60000000 := by
  refine ⟨rfl, rfl, rfl, _, _, rfl, rfl, ?_⟩
  decide

end BacktestEngine

end PolymarketBt
