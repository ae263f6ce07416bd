import PolymarketBt.Model.CompoundReplay
import PolymarketBt.Model.Sweep

/-! # The report of a backtest

A completed pass becomes the payload the page renders: a summary, a view of the liquidity, the equity
curve of the entered markets and the latest rows of the ledger. Figures are floats rounded for
display; `None` is the absence of a figure. The texts of instants, the excluded markets and the echoes
of the request are not part of the model.
-/

namespace PolymarketBt

open StableSort

def maxEpisodeRows : ℕ := 750

/-- A float rounded to decimal places: halves of its exact value go to even. -/
def roundPlaces (places : ℕ) (x : ℚ) : ℚ :=
  Binary64.nearest (Decimal.roundHalfEven (x * 10 ^ places) / 10 ^ places)

namespace BacktestReport

def usd (scaled : ℤ) : ℚ := roundPlaces 2 (Binary64.nearest (scaled / usdcScale))

def price (scaled : ℤ) : ℚ := roundPlaces 4 (Binary64.nearest (scaled / polymarketPriceScale))

def shares (scaled : ℤ) : ℚ := roundPlaces 4 (Binary64.nearest (scaled / shareSizeScale))

def pct (ppm : ℤ) : ℚ := roundPlaces 2 (Binary64.nearest (ppm / 10000))

/-- A part of a whole in percent, where there is a whole. -/
def percentOf (part whole : ℤ) : Option ℚ :=
  if whole = 0 then none else some (roundPlaces 2 (Binary64.nearest ((100 * part : ℤ) / whole)))

/-- The distinct items of a list with their counts, by first occurrence. -/
def counts {α : Type} [DecidableEq α] (items : List α) : List (α × ℕ) :=
  (items.reverse.dedup.reverse).map fun item => (item, items.count item)

/-! ## The equity curve -/

structure EquityRow where
  startUtcNs : ℤ
  slug : String
  tradeUsd : ℚ
  cumulativeUsd : ℚ
  balanceUsd : Option ℚ
deriving DecidableEq, Repr

/-- The local variables of the walk along the entered markets. -/
structure EquityWalk where
  equity : ℤ
  balance : ℤ
  peakBalance : ℤ
  balanceDrawdownPpm : ℤ
  curve : List EquityRow
deriving DecidableEq, Repr

namespace EquityWalk

def start (startingBalanceScaled : ℤ) : EquityWalk :=
  ⟨0, startingBalanceScaled, startingBalanceScaled, 0, []⟩

def add (compounding : Bool) (walk : EquityWalk) (result : EpisodeResult) : EquityWalk :=
  let equity := walk.equity + result.netPnlScaled
  let balance := walk.balance + result.netPnlScaled
  let peakBalance := max walk.peakBalance balance
  { equity := equity
    balance := balance
    peakBalance := peakBalance
    balanceDrawdownPpm :=
      if 0 < peakBalance then
        max walk.balanceDrawdownPpm ((peakBalance - balance) * 1000000 / peakBalance)
      else walk.balanceDrawdownPpm
    curve := walk.curve ++ [{
      startUtcNs := result.startUtcNs
      slug := result.marketSlug
      tradeUsd := usd result.netPnlScaled
      cumulativeUsd := usd equity
      balanceUsd := if compounding then some (usd balance) else none }] }

end EquityWalk

/-- The entered markets of a run by their starts. -/
def enteredByStart (results : List EpisodeResult) : List EpisodeResult :=
  sortByKey EpisodeResult.startUtcNs (results.filter (·.entered))

def walk (run : RunOutcome) : EquityWalk :=
  (enteredByStart run.results).foldl (EquityWalk.add (run.sizing = .compound))
    (.start run.startingBalanceScaled)

/-! ## Staking -/

/-- Balance-relative figures, which only mean anything under a compounding stake. -/
structure Staking where
  sizing : Sizing
  startingBalanceUsd : Option ℚ
  finalBalanceUsd : Option ℚ
  totalReturnPct : Option ℚ
  maxDrawdownPct : Option ℚ
  cashAwaitingSettlementAtHorizonUsd : Option ℚ
  cashAvailableAtHorizonUsd : Option ℚ
  walletCashflowEvents : Option ℕ
  endedEarly : Bool
  marketsNeverReached : ℤ
deriving DecidableEq, Repr

def staking (run : RunOutcome) (compounding : Bool) (drawdownPpm : ℤ) : Staking :=
  let start := run.startingBalanceScaled
  { sizing := run.sizing
    startingBalanceUsd := if compounding then some (usd start) else none
    finalBalanceUsd := if compounding then some (usd run.finalBalanceScaled) else none
    totalReturnPct :=
      if compounding then percentOf (run.finalBalanceScaled - start) start else none
    maxDrawdownPct := if compounding then some (pct drawdownPpm) else none
    cashAwaitingSettlementAtHorizonUsd :=
      if compounding then some (usd run.lockedBalanceScaled) else none
    cashAvailableAtHorizonUsd :=
      if compounding then some (usd run.availableBalanceScaled) else none
    walletCashflowEvents := if compounding then some run.walletEvents.length else none
    endedEarly := run.endedEarly
    marketsNeverReached := run.episodesSelected - run.results.length }

/-! ## The quality of the entries -/

structure EntryQuality where
  averageEntryPrice : Option ℚ
  entryPriceAboveTrigger : Option ℚ
  breakEvenWinRatePct : Option ℚ
  averageStakeOnWinsUsd : Option ℚ
  averageStakeOnLossesUsd : Option ℚ
deriving DecidableEq, Repr

def averageStakeUsd (results : List EpisodeResult) : Option ℚ :=
  if results = [] then none
  else some (usd ((results.map EpisodeResult.entryNotionalScaled).sum / results.length))

/-- How close the entries came to the price the strategy asked for, weighted by their size. -/
def entryQuality (params : ThresholdHoldParams) (entered : List EpisodeResult) : EntryQuality :=
  let total := (entered.map EpisodeResult.entrySharesScaled).sum
  if total = 0 then ⟨none, none, none, none, none⟩
  else
    let average :=
      (entered.map EpisodeResult.entryNotionalScaled).sum * shareSizeScale / total
    { averageEntryPrice := some (price average)
      entryPriceAboveTrigger := some (price (average - params.entryTriggerPriceScaled))
      breakEvenWinRatePct :=
        some (roundPlaces 2 (Binary64.nearest ((100 * average : ℤ) / polymarketPriceScale)))
      averageStakeOnWinsUsd := averageStakeUsd (entered.filter (0 < ·.netPnlScaled))
      averageStakeOnLossesUsd := averageStakeUsd (entered.filter (·.netPnlScaled < 0)) }

/-! ## Liquidity -/

structure Liquidity where
  entryOrders : ℕ
  entryChildOrders : ℕ
  entrySharesRequested : ℚ
  entrySharesFilled : ℚ
  entryFillRatePct : ℚ
  entryOrdersPartiallyFilled : ℕ
  entryOrdersRejected : ℕ
  exitOrders : ℕ
  exitSharesRequested : ℚ
  exitSharesFilled : ℚ
  exitFillRatePct : Option ℚ
  sharesLeftUnsold : ℚ
  averageStopSlippage : Option ℚ
  worstStopSlippage : Option ℚ
  bindingConstraints : List (ExecutionReason × ℕ)
  rejectionReasons : List (ExecutionReason × ℕ)
deriving DecidableEq, Repr

/-- The markets that asked for an entry, by a target or by an order. -/
def parentEntries (results : List EpisodeResult) : List EpisodeResult :=
  results.filter fun result =>
    result.executionTargetSharesScaled ≠ 0 ∨ ∃ order ∈ result.orders, order.kind = .entry

/-- What the book absorbed, as distinct from what was asked for. -/
def liquidity (results : List EpisodeResult) (entryFillPpm : ℤ) : Liquidity :=
  let orders := results.flatMap EpisodeResult.orders
  let parents := parentEntries results
  let exits := orders.filter (·.kind ≠ .entry)
  let requestedExit := (exits.map SimulatedOrder.requestedSharesScaled).sum
  let filledExit := (exits.map SimulatedOrder.filledSharesScaled).sum
  let slippages := results.filterMap EpisodeResult.stopSlippageScaled
  { entryOrders := parents.length
    entryChildOrders := (orders.filter (·.kind = .entry)).length
    entrySharesRequested := shares (parents.map EpisodeResult.requestedSharesScaled).sum
    entrySharesFilled := shares (parents.map EpisodeResult.entrySharesScaled).sum
    entryFillRatePct := pct entryFillPpm
    entryOrdersPartiallyFilled := (parents.filter fun result =>
      result.entrySharesScaled ≠ 0 ∧
        result.entrySharesScaled < result.requestedSharesScaled).length
    entryOrdersRejected := (parents.filter fun result =>
      result.requestedSharesScaled ≠ 0 ∧ result.entrySharesScaled = 0).length
    exitOrders := exits.length
    exitSharesRequested := shares requestedExit
    exitSharesFilled := shares filledExit
    exitFillRatePct :=
      if requestedExit = 0 then none else some (pct (filledExit * 1000000 / requestedExit))
    sharesLeftUnsold := shares (results.map EpisodeResult.unfilledExitSharesScaled).sum
    averageStopSlippage :=
      if slippages = [] then none else some (price (slippages.sum / slippages.length))
    worstStopSlippage := slippages.max?.map price
    bindingConstraints := counts (orders.filterMap SimulatedOrder.bindingConstraint)
    rejectionReasons := counts (orders.filterMap SimulatedOrder.rejectedReason) }

/-! ## The rows of the ledger -/

/-- Where a fill landed, at its arrival. -/
structure FillMark where
  kind : OrderKind
  side : Option String
  utcMs : ℤ
  price : ℚ
  shares : ℚ
deriving DecidableEq, Repr

def marks (result : EpisodeResult) : List FillMark :=
  result.orders.filterMap fun order =>
    if order.filledSharesScaled = 0 then none
    else order.averagePriceScaled.map fun average =>
      ⟨order.kind, result.outcomeSide, order.arrivalUtcNs / 1000000, price average,
        shares order.filledSharesScaled⟩

structure EpisodeRow where
  startUtcNs : ℤ
  slug : String
  winner : Option String
  traded : Bool
  side : Option String
  entryPrice : Option ℚ
  entryMinute : Option ℚ
  sharesRequested : Option ℚ
  sharesFilled : ℚ
  stakeUsd : ℚ
  exitReason : ExitReason
  exitPrice : Option ℚ
  settlementUsd : ℚ
  feesUsd : ℚ
  netUsd : ℚ
  won : Option Bool
  unsoldShares : Option ℚ
  worstBid : Option ℚ
  skipReason : Option String
  executionPolicy : EntryExecutionPolicy
  executionTargetShares : ℚ
  executionUnfilledShares : ℚ
  executionObjectiveUsd : Option ℚ
  marks : List FillMark
deriving DecidableEq, Repr

/-- The row of one market; its size is the parent's target, or the one of its first entry. -/
def episodeRow (result : EpisodeResult) : EpisodeRow :=
  let entry := result.orders.find? (·.kind = .entry)
  let unsold := shares result.unfilledExitSharesScaled
  { startUtcNs := result.startUtcNs
    slug := result.marketSlug
    winner := result.winnerOutcome
    traded := result.entered
    side := result.outcomeSide
    entryPrice := result.entryPriceScaled.map price
    entryMinute := entry.map fun order =>
      roundPlaces 4 (Binary64.nearest (Binary64.nearest order.decisionOffsetNs / 60000000000))
    sharesRequested :=
      if result.executionTargetSharesScaled ≠ 0 then
        some (shares result.executionTargetSharesScaled)
      else entry.map fun order => shares order.requestedSharesScaled
    sharesFilled := shares result.entrySharesScaled
    stakeUsd := usd result.entryNotionalScaled
    exitReason := result.exitReason
    exitPrice := result.exitPriceScaled.map price
    settlementUsd := usd result.settlementPayoutScaled
    feesUsd := usd result.feesScaled
    netUsd := usd result.netPnlScaled
    won := result.won
    unsoldShares := if unsold = 0 then none else some unsold
    worstBid := result.peakAdverseBidScaled.map price
    skipReason := result.skipReason
    executionPolicy := result.executionPolicy
    executionTargetShares := shares result.executionTargetSharesScaled
    executionUnfilledShares := shares result.executionUnfilledSharesScaled
    executionObjectiveUsd := result.executionObjectiveScaled.map usd
    marks := marks result }

/-- The latest markets first; markets of one start stay in their order. -/
def episodeRows (results : List EpisodeResult) : List EpisodeRow :=
  ((sortByKey (fun result => OrderDual.toDual result.startUtcNs) results).take maxEpisodeRows).map
    episodeRow

/-! ## The report -/

structure Summary where
  episodesEvaluated : ℕ
  trades : ℕ
  tradedRatePct : ℚ
  netProfitUsd : ℚ
  grossProfitUsd : ℚ
  feesUsd : ℚ
  capitalDeployedUsd : ℚ
  returnOnCapitalPct : Option ℚ
  winRatePct : ℚ
  sideCorrectPct : ℚ
  profitableTrades : ℕ
  losingTrades : ℤ
  averageWinUsd : ℚ
  averageLossUsd : ℚ
  profitFactor : Option ℚ
  netProfitPerTradeUsd : ℚ
  maxDrawdownUsd : ℚ
  largestPositionUsd : ℚ
  stoppedOut : ℕ
  stopOutRatePct : ℚ
  heldToSettlement : ℕ
  executionParentOrders : ℕ
  executionFillRatePct : ℚ
  executionImplementationShortfallUsd : Option ℚ
  executionNonFillPenaltyUsd : Option ℚ
  executionAdverseSelectionPenaltyUsd : Option ℚ
  executionObjectiveUsd : Option ℚ
  staking : Staking
  entryQuality : EntryQuality
deriving DecidableEq

def summarize (params : VariantParams) (metrics : VariantMetrics) (run : RunOutcome) : Summary :=
  let entered := run.results.filter (·.entered)
  let deployed := (entered.map EpisodeResult.entryNotionalScaled).sum
  { episodesEvaluated := metrics.episodes
    trades := metrics.entries
    tradedRatePct := pct metrics.entryRatePpm
    netProfitUsd := usd metrics.netPnlScaled
    grossProfitUsd := usd metrics.grossPnlScaled
    feesUsd := usd metrics.feesScaled
    capitalDeployedUsd := usd deployed
    returnOnCapitalPct := percentOf metrics.netPnlScaled deployed
    winRatePct := pct metrics.winRatePpm
    sideCorrectPct := pct metrics.sideCorrectPpm
    profitableTrades := metrics.profitableTrades
    losingTrades := metrics.entries - metrics.profitableTrades
    averageWinUsd := usd metrics.averageWinScaled
    averageLossUsd := usd metrics.averageLossScaled
    profitFactor := metrics.profitFactorPpm.map fun factor =>
      roundPlaces 3 (Binary64.nearest (factor / 1000000))
    netProfitPerTradeUsd := usd metrics.netPnlPerEntryScaled
    maxDrawdownUsd := usd metrics.maxDrawdownScaled
    largestPositionUsd := usd metrics.peakCapitalAtRiskScaled
    stoppedOut := metrics.stoppedOut
    stopOutRatePct := pct metrics.stopOutPpm
    heldToSettlement := metrics.settledHolds
    executionParentOrders := metrics.executionParents
    executionFillRatePct := pct metrics.averageEntryFillPpm
    executionImplementationShortfallUsd := metrics.executionImplementationShortfallScaled.map usd
    executionNonFillPenaltyUsd := metrics.executionNonFillPenaltyScaled.map usd
    executionAdverseSelectionPenaltyUsd := metrics.executionAdverseSelectionPenaltyScaled.map usd
    executionObjectiveUsd := metrics.executionObjectiveScaled.map usd
    staking := staking run (run.sizing = .compound) (walk run).balanceDrawdownPpm
    entryQuality := entryQuality params.params entered }

/-- The payload the page renders. -/
structure Payload where
  summary : Summary
  liquidity : Liquidity
  equityCurve : List EquityRow
  episodes : List EpisodeRow
  episodesShown : ℕ
deriving DecidableEq

/-- Turn the results of a pass into the payload the page renders. -/
def buildReport (params : VariantParams) (realismName : String) (run : RunOutcome) : Payload :=
  let metrics := aggregate params.label realismName run.results params
  { summary := summarize params metrics run
    liquidity := liquidity run.results metrics.averageEntryFillPpm
    equityCurve := (walk run).curve
    episodes := episodeRows run.results
    episodesShown := min run.results.length maxEpisodeRows }

end BacktestReport

end PolymarketBt
