import PolymarketBt.Model.FastSim.Run
import PolymarketBt.ToMathlib.Binary64
import PolymarketBt.ToMathlib.KeyedList
import PolymarketBt.ToMathlib.StableSort

/-! # Parameter sweeps

A sweep runs every variant over every eligible episode and collects the results in a dictionary
whose keys are the labels of the variants. The minutes of a variant are floats, which a label shows
and the simulator truncates to nanoseconds.
-/

namespace PolymarketBt

open StableSort

/-- Nanoseconds of a number of minutes, as the simulator truncates them. -/
def minutesToNs (minutes : ℚ) : ℤ := ⌊Binary64.nearest (minutes * 60000000000)⌋

/-- The parameters of a variant with the minutes that its label shows. -/
structure VariantParams where
  params : ThresholdHoldParams
  entryFromMinute : ℚ
  entryToMinute : ℚ
  stopLossFromMinute : Option ℚ
  entryFrom_ns : params.entryFromNs = minutesToNs entryFromMinute
  entryTo_ns : params.entryToNs = minutesToNs entryToMinute
  stopLossFrom_ns : params.stopLossFromNs = stopLossFromMinute.map minutesToNs
deriving DecidableEq

def EntryExecutionPolicy.text : EntryExecutionPolicy → String
  | immediate => "immediate"
  | twap => "twap"
  | adaptivePov => "adaptive_pov"

namespace VariantParams

/-- A price in dollars and cents. -/
def priceText (priceScaled : ℤ) : String :=
  Binary64.fixedText (Binary64.nearest (priceScaled / 1000000))

/-- The human-readable identity used in reports and sweep tables. -/
def label (variant : VariantParams) : String :=
  let params := variant.params
  let stop :=
    match params.stopLossPriceScaled with
    | none => "hold"
    | some price => priceText price
  let armed :=
    match variant.stopLossFromMinute with
    | none => ""
    | some minute => "@" ++ Binary64.generalText minute
  let shares := Binary64.nearest (params.orderSharesScaled.getD 0 / shareSizeScale)
  "m" ++ Binary64.generalText variant.entryFromMinute ++ "-" ++
    Binary64.generalText variant.entryToMinute ++
    "_e" ++ priceText params.entryTriggerPriceScaled ++ "_x" ++ stop ++ armed ++
    "_s" ++ Binary64.generalText shares ++ "_p" ++ params.entryExecutionPolicy.text

end VariantParams

/-- A realism preset under its name. -/
structure NamedRealism where
  name : String
  realism : ExecutionRealism
deriving DecidableEq

/-- One strategy configuration evaluated under one realism preset. -/
structure Variant where
  params : VariantParams
  realism : NamedRealism
deriving DecidableEq

def Variant.label (variant : Variant) : String :=
  variant.params.label ++ "|" ++ variant.realism.name

structure VariantMetrics where
  label : String
  realism : String
  episodes : ℕ
  entries : ℕ
  entryRatePpm : ℤ
  sideCorrect : ℕ
  sideCorrectPpm : ℤ
  profitableTrades : ℕ
  winRatePpm : ℤ
  netPnlScaled : ℤ
  grossPnlScaled : ℤ
  feesScaled : ℤ
  averageWinScaled : ℤ
  averageLossScaled : ℤ
  profitFactorPpm : Option ℤ
  maxDrawdownScaled : ℤ
  peakCapitalAtRiskScaled : ℤ
  stoppedOut : ℕ
  stopOutPpm : ℤ
  stopsUnfilled : ℕ
  unfilledExitSharesScaled : ℤ
  averageStopSlippageScaled : Option ℤ
  averageEntryFillPpm : ℤ
  executionParents : ℕ
  executionTargetSharesScaled : ℤ
  executionUnfilledSharesScaled : ℤ
  executionImplementationShortfallScaled : Option ℤ
  executionNonFillPenaltyScaled : Option ℤ
  executionAdverseSelectionPenaltyScaled : Option ℤ
  executionObjectiveScaled : Option ℤ
  settledHolds : ℕ
  netPnlPerEntryScaled : ℤ
  /-- The record whose dump the source keeps. -/
  params : VariantParams
deriving DecidableEq

/-- A ratio in parts per million, zero without a denominator. -/
def ratioPpm (numerator denominator : ℤ) : ℤ :=
  if denominator = 0 then 0 else numerator * 1000000 / denominator

/-- The running equity, its peak, the deepest drawdown and the largest exposure. -/
structure EquityCurve where
  equity : ℤ := 0
  peak : ℤ := 0
  drawdown : ℤ := 0
  exposure : ℤ := 0
deriving DecidableEq

def EquityCurve.add (curve : EquityCurve) (result : EpisodeResult) : EquityCurve :=
  let equity := curve.equity + result.netPnlScaled
  let peak := max curve.peak equity
  { exposure := max curve.exposure result.entryNotionalScaled
    equity := equity
    peak := peak
    drawdown := max curve.drawdown (peak - equity) }

/-- What one result asked to buy: its parent's target, or the orders of an older report. -/
def EpisodeResult.requestedSharesScaled (result : EpisodeResult) : ℤ :=
  if result.executionTargetSharesScaled ≠ 0 then result.executionTargetSharesScaled
  else
    ((result.orders.filter (·.kind = .entry)).map SimulatedOrder.requestedSharesScaled).sum

/-- Collapse the results of one variant, in episode order, into its metrics. -/
def aggregate (label realismName : String) (results : List EpisodeResult) (params : VariantParams) :
    VariantMetrics :=
  let entered := results.filter (·.entered)
  let wins := entered.filter (0 < ·.netPnlScaled)
  let losses := entered.filter (·.netPnlScaled < 0)
  let stopped := entered.filter fun result =>
    result.exitReason = .stopLoss ∨ result.exitReason = .stopUnfilledHeldToSettlement
  let unfilled := entered.filter (0 < ·.unfilledExitSharesScaled)
  let slippages := entered.filterMap EpisodeResult.stopSlippageScaled
  let requested := (results.map EpisodeResult.requestedSharesScaled).sum
  let filled := (results.map EpisodeResult.entrySharesScaled).sum
  let scored := results.filter (·.executionObjectiveScaled.isSome)
  let curve := entered.foldl EquityCurve.add {}
  let grossWins := (wins.map EpisodeResult.netPnlScaled).sum
  let grossLosses := -(losses.map EpisodeResult.netPnlScaled).sum
  let correct := (entered.filter (·.won = some true)).length
  let netPnl := (entered.map EpisodeResult.netPnlScaled).sum
  let score := fun part : EpisodeResult → Option ℤ =>
    if scored = [] then none else some ((scored.map fun result => (part result).getD 0).sum)
  { label := label
    realism := realismName
    episodes := results.length
    entries := entered.length
    entryRatePpm := ratioPpm entered.length results.length
    sideCorrect := correct
    sideCorrectPpm := ratioPpm correct entered.length
    profitableTrades := wins.length
    winRatePpm := ratioPpm wins.length entered.length
    netPnlScaled := netPnl
    grossPnlScaled := (entered.map EpisodeResult.grossPnlScaled).sum
    feesScaled := (entered.map EpisodeResult.feesScaled).sum
    averageWinScaled := if wins = [] then 0 else grossWins / wins.length
    averageLossScaled := if losses = [] then 0 else grossLosses / losses.length
    profitFactorPpm := if grossLosses = 0 then none else some (ratioPpm grossWins grossLosses)
    maxDrawdownScaled := curve.drawdown
    peakCapitalAtRiskScaled := curve.exposure
    stoppedOut := stopped.length
    stopOutPpm := ratioPpm stopped.length entered.length
    stopsUnfilled := unfilled.length
    unfilledExitSharesScaled := (unfilled.map EpisodeResult.unfilledExitSharesScaled).sum
    averageStopSlippageScaled :=
      if slippages = [] then none else some (slippages.sum / slippages.length)
    averageEntryFillPpm := if requested = 0 then 0 else ratioPpm filled requested
    executionParents := (results.filter (0 < ·.executionTargetSharesScaled)).length
    executionTargetSharesScaled := requested
    executionUnfilledSharesScaled := max 0 (requested - filled)
    executionImplementationShortfallScaled :=
      score EpisodeResult.executionImplementationShortfallScaled
    executionNonFillPenaltyScaled := score EpisodeResult.executionNonFillPenaltyScaled
    executionAdverseSelectionPenaltyScaled :=
      score EpisodeResult.executionAdverseSelectionPenaltyScaled
    executionObjectiveScaled := score EpisodeResult.executionObjectiveScaled
    settledHolds := (entered.filter (·.exitReason = .settlement)).length
    netPnlPerEntryScaled := if entered = [] then 0 else netPnl / entered.length
    params := params }

def Variant.aggregate (variant : Variant) (results : List EpisodeResult) : VariantMetrics :=
  PolymarketBt.aggregate variant.params.label variant.realism.name results variant.params

/-! ## The runner -/

/-- The results of every label, in the order of insertion. -/
abbrev ResultTable := List (String × List EpisodeResult)

namespace ResultTable

/-- The results under a label; a label of the sweep always has an entry. -/
def resultsOf (table : ResultTable) (label : String) : List EpisodeResult :=
  (table.lookup label).getD []

def append (table : ResultTable) (label : String) (result : EpisodeResult) : ResultTable :=
  KeyedList.replace Prod.fst label (fun entry => (entry.1, entry.2 ++ [result])) table

end ResultTable

/-- Evaluates many variants over a fixed episode set, loading each tape once. -/
structure SweepRunner where
  loadTape : Episode → Except PyError EpisodeTape
  episodes : List Episode
  /-- The random streams of the seed. -/
  draws : String → Draws

namespace SweepRunner

def init (loadTape : Episode → Except PyError EpisodeTape) (episodes : List Episode)
    (draws : String → Draws) : SweepRunner :=
  ⟨loadTape, sortByKey Episode.startUtcNs (episodes.filter (·.eligible)), draws⟩

variable (runner : SweepRunner)

def simulate (variant : Variant) (tape : EpisodeTape) : Except PyError EpisodeResult :=
  ThresholdHoldSimulator.run ⟨variant.params.params, variant.realism.realism, runner.draws⟩ tape none

/-- One variant of the inner loop. -/
def simulateInto (tape : EpisodeTape) (table : ResultTable) (variant : Variant) :
    Except PyError ResultTable := do
  let result ← runner.simulate variant tape
  return table.append variant.label result

/-- One episode of the outer loop. -/
def runEpisode (variants : List Variant) (table : ResultTable) (episode : Episode) :
    Except PyError ResultTable := do
  let tape ← runner.loadTape episode
  variants.foldlM (runner.simulateInto tape) table

/-- An empty list of results for every label. -/
def emptyTable (variants : List Variant) : ResultTable :=
  variants.foldl (fun table variant => KeyedList.assign variant.label [] table) []

def run (variants : List Variant) : Except PyError (List VariantMetrics × ResultTable) := do
  let table ← runner.episodes.foldlM (runner.runEpisode variants) (emptyTable variants)
  return (variants.map fun variant => variant.aggregate (table.resultsOf variant.label), table)

end SweepRunner

end PolymarketBt
