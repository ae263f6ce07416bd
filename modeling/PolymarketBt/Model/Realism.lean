import PolymarketBt.Machine.Loop
import PolymarketBt.Model.Failure
import PolymarketBt.ToMathlib.Decimal

/-! # Fees, latency and the realism applied to a taker order

`TakerExecutor.execute` walks a depth ladder, best level first, under every configured constraint.
Money amounts go through decimal arithmetic and are rounded once to the fixed-point scale, so a fee
or a notional exists only while its decimal result does.
-/

namespace PolymarketBt

open Machine

/-- The value of a decimal operation, or the exception of the decimal context. -/
def decimalResult : Option ℤ → Except PyError ℤ
  | none => .error .invalidOperation
  | some value => .ok value

/-! ## Fees -/

inductive LiquidityRole where
  | taker
  | maker
deriving DecidableEq, Repr

inductive FeeFormula where
  | sharesRatePOneMinusP
  | zero
deriving DecidableEq, Repr

structure FeeConfig where
  liquidityRole : LiquidityRole
  formula : FeeFormula
  rate : ℚ
  exponent : ℤ
  minimumFee : ℚ
  rounding : Decimal.Rounding
deriving DecidableEq, Repr

structure FeeModel where
  config : FeeConfig
  minimumScaled : ℤ
deriving DecidableEq, Repr

namespace FeeModel

def init (config : FeeConfig) : Except PyError FeeModel := do
  let minimumScaled ←
    decimalResult (Decimal.quantize config.rounding (Decimal.mul config.minimumFee usdcScale))
  return ⟨config, minimumScaled⟩

/-- The unrounded fee, absent where the power of the curve is. -/
def rawScaled (model : FeeModel) (sharesScaled priceScaled : ℤ) : Option ℚ :=
  let shares := Decimal.div sharesScaled shareSizeScale
  let probability := Decimal.div priceScaled polymarketPriceScale
  (Decimal.pow (Decimal.mul probability (Decimal.sub 1 probability)) model.config.exponent).map
    fun curve => Decimal.mul (Decimal.mul (Decimal.mul shares model.config.rate) curve) usdcScale

def calculate (model : FeeModel) (sharesScaled priceScaled : ℤ) : Except PyError ℤ :=
  if model.config.formula = .zero ∨ model.config.liquidityRole = .maker then .ok 0
  else
    match model.rawScaled sharesScaled priceScaled with
    | none => .error .invalidOperation
    | some raw =>
      match Decimal.quantize model.config.rounding raw with
      | none => .error .invalidOperation
      | some fee => .ok (if 0 < raw then max fee model.minimumScaled else 0)

end FeeModel

/-- Price times size in collateral units, rounded half up. -/
def notionalScaled (sizeScaled priceScaled : ℤ) : Except PyError ℤ :=
  decimalResult (Decimal.quantize .halfUp
    (Decimal.div (Decimal.mul sizeScaled priceScaled) polymarketPriceScale))

/-! ## Latency -/

inductive LatencyConfig where
  | disabled
  | constant (constantMs : ℤ)
  | empirical (samplesMs : List ℤ)
  | lognormal
deriving DecidableEq, Repr

/-- The random stream of one run: what its successive draws return. -/
structure Draws where
  /-- The sample picked by a draw, read modulo the number of samples. -/
  choice : ℕ → ℕ
  /-- A log-normal draw in nanoseconds, truncated. -/
  lognormalNs : ℕ → ℤ

def LatencyConfig.sampleNs (config : LatencyConfig) (draws : Draws) (draw : ℕ) :
    Except PyError ℤ :=
  match config with
  | .disabled => .ok 0
  | .constant constantMs => .ok (max 0 (constantMs * 1000000))
  | .empirical [] => .error (.valueError "empirical latency requires samples_ms")
  | .empirical (first :: rest) =>
    .ok (max 0 ((first :: rest).getD (draws.choice draw % (first :: rest).length) first * 1000000))
  | .lognormal => .ok (max 0 (draws.lognormalNs draw))

/-! ## Execution -/

/-- A limit that is not set meets its bound. -/
theorem unset_pos : ∀ limit ∈ (none : Option ℤ), 0 < limit := by simp

theorem unset_nonneg : ∀ limit ∈ (none : Option ℤ), 0 ≤ limit := by simp

theorem unset_levels_pos : ∀ levels ∈ (none : Option ℕ), 1 ≤ levels := by simp

theorem no_haircut_range : 0 ≤ (0 : ℤ) ∧ (0 : ℤ) < ppm := by decide

theorem full_participation_range : 0 < (1000000 : ℤ) ∧ (1000000 : ℤ) ≤ ppm := by decide

structure ExecutionRealism where
  latency : LatencyConfig
  displayedDepthHaircutPpm : ℤ
  maxLevelParticipationPpm : ℤ
  maxLevelsSwept : Option ℕ
  volumeParticipationPpm : Option ℤ
  staleBookMaxAgeMs : Option ℤ
  requireValidBook : Bool
  maxTicksThroughTouch : Option ℤ
  maxPriceThroughTouchScaled : Option ℤ
  fee : FeeConfig
  haircut_range : 0 ≤ displayedDepthHaircutPpm ∧ displayedDepthHaircutPpm < ppm := by decide
  participation_range : 0 < maxLevelParticipationPpm ∧ maxLevelParticipationPpm ≤ ppm := by decide
  levels_pos : ∀ levels ∈ maxLevelsSwept, 1 ≤ levels := by decide
  volume_pos : ∀ volume ∈ volumeParticipationPpm, 0 < volume := by decide
  age_pos : ∀ age ∈ staleBookMaxAgeMs, 0 < age := by decide
  ticks_nonneg : ∀ ticks ∈ maxTicksThroughTouch, 0 ≤ ticks := by decide
  through_nonneg : ∀ price ∈ maxPriceThroughTouchScaled, 0 ≤ price := by decide
deriving DecidableEq, Repr

/-- Why an order was refused or cut short. -/
inductive ExecutionReason where
  | nonPositiveSize
  | emptyBookSide
  | belowMinimumOrderSize
  | staleBook
  | limitPrice
  | maxPriceThroughTouch
  | noRecentPublicVolume
  | volumeParticipation
  | maxLevelsSwept
  | displayedDepthHaircut
  | bookDepthExhausted
  | noExecutableLiquidity
  | parentDeadlineElapsed
  | marketClosedAtArrival
  | insufficientAvailableCash
  | noBookAtArrival
  | bookStateUncertain
  | partialEntryDisallowed
  | insufficientCashIncludingFees
  | cashBudget
deriving DecidableEq, Repr

def ExecutionReason.text : ExecutionReason → String
  | nonPositiveSize => "non_positive_size"
  | emptyBookSide => "empty_book_side"
  | belowMinimumOrderSize => "below_minimum_order_size"
  | staleBook => "stale_book"
  | limitPrice => "limit_price"
  | maxPriceThroughTouch => "max_price_through_touch"
  | noRecentPublicVolume => "no_recent_public_volume"
  | volumeParticipation => "volume_participation"
  | maxLevelsSwept => "max_levels_swept"
  | displayedDepthHaircut => "displayed_depth_haircut"
  | bookDepthExhausted => "book_depth_exhausted"
  | noExecutableLiquidity => "no_executable_liquidity"
  | parentDeadlineElapsed => "parent_deadline_elapsed"
  | marketClosedAtArrival => "market_closed_at_arrival"
  | insufficientAvailableCash => "insufficient_available_cash"
  | noBookAtArrival => "no_book_at_arrival"
  | bookStateUncertain => "book_state_uncertain"
  | partialEntryDisallowed => "partial_entry_disallowed"
  | insufficientCashIncludingFees => "insufficient_cash_including_fees"
  | cashBudget => "cash_budget"

/-- One consumed price level. -/
structure FillSlice where
  priceScaled : ℤ
  sizeScaled : ℤ
  notionalScaled : ℤ
  feeScaled : ℤ
  levelRank : ℕ
deriving DecidableEq, Repr

def sliceShares (slices : List FillSlice) : ℤ := (slices.map FillSlice.sizeScaled).sum
def sliceNotional (slices : List FillSlice) : ℤ := (slices.map FillSlice.notionalScaled).sum
def sliceFees (slices : List FillSlice) : ℤ := (slices.map FillSlice.feeScaled).sum

structure ExecutionOutcome where
  requestedSharesScaled : ℤ
  filledSharesScaled : ℤ
  notionalScaled : ℤ
  feesScaled : ℤ
  slices : List FillSlice
  rejectedReason : Option ExecutionReason
  bindingConstraint : Option ExecutionReason
  arrivalUtcNs : ℤ
  decisionUtcNs : ℤ
  referencePriceScaled : Option ℤ
  side : Side
deriving DecidableEq, Repr

namespace ExecutionOutcome

def filled (outcome : ExecutionOutcome) : Bool := 0 < outcome.filledSharesScaled

def averagePriceScaled (outcome : ExecutionOutcome) : Option ℤ :=
  if outcome.filledSharesScaled = 0 then none
  else
    some ((outcome.slices.map fun slice => slice.priceScaled * slice.sizeScaled).sum /
      outcome.filledSharesScaled)

/-- Signed distance from the reference price, positive when the fill was worse. -/
def slippageScaled (outcome : ExecutionOutcome) : Option ℤ :=
  match outcome.averagePriceScaled, outcome.referencePriceScaled with
  | some average, some reference =>
    match outcome.side with
    | .buy => some (average - reference)
    | .sell => some (-(average - reference))
  | _, _ => none

/-- An order of this request that took nothing. -/
def rejected (sharesScaled : ℤ) (reason : Option ExecutionReason) (decisionNs arrivalNs : ℤ)
    (referencePriceScaled : Option ℤ) (side : Side) : ExecutionOutcome where
  requestedSharesScaled := sharesScaled
  filledSharesScaled := 0
  notionalScaled := 0
  feesScaled := 0
  slices := []
  rejectedReason := reason
  bindingConstraint := none
  arrivalUtcNs := arrivalNs
  decisionUtcNs := decisionNs
  referencePriceScaled := referencePriceScaled
  side := side

end ExecutionOutcome

structure TakerExecutor where
  realism : ExecutionRealism
  feeModel : FeeModel
  draws : Draws

/-- What one call of the executor is asked to match. -/
structure TakerOrder where
  side : Side
  ladder : List (ℤ × ℤ)
  requestedSharesScaled : ℤ
  limitPriceScaled : Option ℤ
  referencePriceScaled : Option ℤ
  realisedVolumeScaled : Option ℤ
  decisionUtcNs : ℤ
  arrivalUtcNs : ℤ
  bookAgeNs : ℤ
  minimumOrderSizeScaled : ℤ
  tickSizeScaled : ℤ
deriving DecidableEq, Repr

/-- A price worse than the limit of the order. -/
def Side.beyond (side : Side) (limit : Option ℤ) (price : ℤ) : Bool :=
  match side, limit with
  | _, none => false
  | .buy, some limit => limit < price
  | .sell, some limit => price < limit

/-- How far an order has walked the ladder, and which rules cut it short so far. -/
structure Sweep where
  remaining : ℤ
  slices : List FillSlice
  consumed : ℤ
  hitLimit : Bool
  cutByDepth : Bool
  cutByVolume : Bool
deriving DecidableEq, Repr

namespace TakerExecutor

variable (executor : TakerExecutor)

/-- The worst price the order may accept, and which rule set it. -/
def effectiveLimit (side : Side) (touchScaled : ℤ) (limitPriceScaled : Option ℤ)
    (tickSizeScaled : ℤ) : Option ℤ × Option ExecutionReason :=
  let ticks := executor.realism.maxTicksThroughTouch.map (· * max tickSizeScaled 1)
  let absolute := executor.realism.maxPriceThroughTouchScaled
  let slack :=
    match ticks, absolute with
    | none, none => none
    | some bound, none => some bound
    | none, some bound => some bound
    | some first, some second => some (min first second)
  match slack with
  | none => (limitPriceScaled, limitPriceScaled.map fun _ => .limitPrice)
  | some slack =>
    let bound :=
      match side with
      | .buy => touchScaled + slack
      | .sell => touchScaled - slack
    match limitPriceScaled with
    | none => (some bound, some .maxPriceThroughTouch)
    | some limit =>
      let tighter :=
        match side with
        | .buy => min limit bound
        | .sell => max limit bound
      (some tighter, some (if tighter = limit then .limitPrice else .maxPriceThroughTouch))

/-- How much of the local flow one order may claim. -/
def volumeCap (realisedVolumeScaled : Option ℤ) (minimumOrderSizeScaled : ℤ) : Option ℤ :=
  match executor.realism.volumeParticipationPpm, realisedVolumeScaled with
  | some participation, some volume =>
    some (max (volume * participation / max (ppm - participation) 1) minimumOrderSizeScaled)
  | _, _ => none

/-- The part of a displayed level one order may take. -/
def allowed (displayed : ℤ) : ℤ :=
  min (displayed * (ppm - executor.realism.displayedDepthHaircutPpm) / ppm)
    (displayed * executor.realism.maxLevelParticipationPpm / ppm)

/-- The shares to take from a level, and whether the volume cap cut them. -/
def takeAt (cap : Option ℤ) (sweep : Sweep) (displayed : ℤ) : ℤ × Bool :=
  let take := min sweep.remaining (executor.allowed displayed)
  match cap with
  | none => (take, false)
  | some cap =>
    if max 0 (cap - sweep.consumed) < take then (max 0 (cap - sweep.consumed), true)
    else (take, false)

/-- Visit one level of the ladder, ranked from the best. -/
def sweepLevel (side : Side) (limit cap : Option ℤ) (sweep : Sweep) (ranked : (ℤ × ℤ) × ℕ) :
    Except PyError (Flow Sweep) :=
  let ((price, displayed), rank) := ranked
  if side.beyond limit price then .ok (.stop { sweep with hitLimit := true })
  else
    let (take, cutByVolume) := executor.takeAt cap sweep displayed
    let met :=
      { sweep with
        cutByDepth := sweep.cutByDepth || decide (executor.allowed displayed < sweep.remaining)
        cutByVolume := sweep.cutByVolume || cutByVolume }
    if take ≤ 0 then
      .ok (if cap.any fun cap => cap ≤ sweep.consumed then .stop met else .next met)
    else do
      let fee ← executor.feeModel.calculate take price
      let notional ← notionalScaled take price
      let taken :=
        { met with
          slices := sweep.slices ++ [⟨price, take, notional, fee, rank + 1⟩]
          remaining := sweep.remaining - take
          consumed := sweep.consumed + take }
      return if taken.remaining ≤ 0 then .stop taken else .next taken

/-- The rule that left part of the request unfilled. -/
def bindingOf (order : TakerOrder) (limitSource : Option ExecutionReason) (sweep : Sweep) :
    Option ExecutionReason :=
  if sweep.remaining ≤ 0 then none
  else if sweep.hitLimit then some (limitSource.getD .limitPrice)
  else if sweep.cutByVolume then
    some (if order.realisedVolumeScaled.getD 0 = 0 then .noRecentPublicVolume
      else .volumeParticipation)
  else if executor.realism.maxLevelsSwept.any fun levels => levels < order.ladder.length then
    some .maxLevelsSwept
  else if sweep.cutByDepth then some .displayedDepthHaircut
  else some .bookDepthExhausted

/-- The outcome of an order that was refused before it met the ladder, or took nothing there. -/
def refuse (order : TakerOrder) (reason : ExecutionReason) : ExecutionOutcome :=
  .rejected order.requestedSharesScaled (some reason) order.decisionUtcNs order.arrivalUtcNs
    order.referencePriceScaled order.side

/-- The levels one order may visit. -/
def visibleLadder (ladder : List (ℤ × ℤ)) : List (ℤ × ℤ) :=
  match executor.realism.maxLevelsSwept with
  | none => ladder
  | some levels => ladder.take levels

/-- Walk the ladder, best level first, under every configured constraint. -/
def execute (order : TakerOrder) : Except PyError ExecutionOutcome :=
  if order.requestedSharesScaled ≤ 0 then .ok (refuse order .nonPositiveSize)
  else
    match order.ladder with
    | [] => .ok (refuse order .emptyBookSide)
    | (touch, _) :: _ =>
      if order.requestedSharesScaled < order.minimumOrderSizeScaled then
        .ok (refuse order .belowMinimumOrderSize)
      else if executor.realism.staleBookMaxAgeMs.any fun age => age * 1000000 < order.bookAgeNs then
        .ok (refuse order .staleBook)
      else do
        let (limit, limitSource) :=
          executor.effectiveLimit order.side touch order.limitPriceScaled order.tickSizeScaled
        let cap := executor.volumeCap order.realisedVolumeScaled order.minimumOrderSizeScaled
        let sweep ← forLoop (executor.sweepLevel order.side limit cap)
          ⟨order.requestedSharesScaled, [], 0, false, false, false⟩
          (executor.visibleLadder order.ladder).zipIdx
        let binding := executor.bindingOf order limitSource sweep
        if sliceShares sweep.slices = 0 then
          return refuse order (binding.getD .noExecutableLiquidity)
        return {
          refuse order .noExecutableLiquidity with
          rejectedReason := none
          slices := sweep.slices
          filledSharesScaled := sliceShares sweep.slices
          notionalScaled := sliceNotional sweep.slices
          feesScaled := sliceFees sweep.slices
          bindingConstraint := binding }

end TakerExecutor

end PolymarketBt
