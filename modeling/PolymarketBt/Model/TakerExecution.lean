import PolymarketBt.Model.OrderBook
import PolymarketBt.Model.Portfolio
import PolymarketBt.Model.Realism

/-! # The taker execution of the reference engine

An order sweeps the depth that earlier simulated fills left on the opposite side of the book. The
whole sweep is planned and checked against cash or inventory before the first fill is booked.
-/

namespace PolymarketBt

open Machine

/-- One level the sweep will take. -/
structure PlannedFill where
  rank : ℕ
  priceScaled : ℤ
  sizeScaled : ℤ
  notionalScaled : ℤ
  displayedAfterScaled : ℤ
deriving DecidableEq, Repr

/-- What is left of a request, and the levels planned for it. -/
structure SweepPlan where
  sharesRemaining : Option ℤ
  notionalRemaining : Option ℤ
  planned : List PlannedFill
deriving DecidableEq, Repr

namespace SweepPlan

def init (intent : OrderIntent) : SweepPlan where
  sharesRemaining := intent.requestedSharesScaled
  notionalRemaining := intent.requestedNotionalScaled
  planned := []

/-- The size to take from a level. -/
def desired (plan : SweepPlan) (priceScaled displayedSize : ℤ) : Except PyError ℤ :=
  match plan.sharesRemaining, plan.notionalRemaining with
  | some shares, _ => .ok (min shares displayedSize)
  | none, some notional => .ok (min displayedSize (notional * shareSizeScale / max priceScaled 1))
  | none, none => .error .assertionError

def take (plan : SweepPlan) (rank : ℕ) (priceScaled displayedSize desired notional : ℤ) :
    SweepPlan where
  sharesRemaining := plan.sharesRemaining.map (· - desired)
  notionalRemaining := plan.notionalRemaining.map fun remaining => max 0 (remaining - notional)
  planned := plan.planned ++ [⟨rank, priceScaled, desired, notional, displayedSize - desired⟩]

/-- Nothing is left of the request. -/
def done (plan : SweepPlan) : Bool :=
  plan.sharesRemaining = some 0 ∨ plan.notionalRemaining = some 0

/-- Visit one level, ranked from the best. -/
def visit (intent : OrderIntent) (plan : SweepPlan) (ranked : (ℤ × ℤ) × ℕ) :
    Except PyError (Flow SweepPlan) :=
  let ((priceScaled, displayedSize), index) := ranked
  if intent.side.beyond intent.limitPriceScaled priceScaled then .ok (.stop plan)
  else do
    let desired ← plan.desired priceScaled displayedSize
    if desired ≤ 0 then return .stop plan
    let notional ← notionalScaled desired priceScaled
    let taken := plan.take (index + 1) priceScaled displayedSize desired notional
    return if taken.done then .stop taken else .next taken

end SweepPlan

/-- The side of the resting quotes that an order takes. -/
def Side.opposite : Side → Side
  | .buy => .sell
  | .sell => .buy

/-- Book, portfolio and fills of an order while its plan is carried out. -/
structure FillProgress where
  book : OrderBook
  portfolio : Portfolio
  fills : List SimulatedFill

structure TakerExecutionSimulator where
  feeModel : FeeModel
  /-- The name-based identifier under the URL namespace. -/
  uuid5 : String → String

namespace TakerExecutionSimulator

variable (simulator : TakerExecutionSimulator)

def plan (intent : OrderIntent) (book : OrderBook) : Except PyError (List PlannedFill) := do
  let levels := book.availableLevels intent.side.opposite
  let plan ← forLoop (SweepPlan.visit intent) (.init intent) levels.zipIdx
  return plan.planned

/-- Why the whole plan may not be carried out. -/
def shortage (intent : OrderIntent) (portfolio : Portfolio) (planned : List PlannedFill) :
    Except PyError (Option String) :=
  match intent.side with
  | .buy => do
    let debits ← planned.mapM fun level => do
      return level.notionalScaled +
        (← simulator.feeModel.calculate level.sizeScaled level.priceScaled)
    return if portfolio.availableCashScaled < debits.sum then some "insufficient available cash"
      else none
  | .sell =>
    .ok (if portfolio.inventory intent.tokenId < (planned.map PlannedFill.sizeScaled).sum then
      some "insufficient inventory" else none)

def fillOf (intent : OrderIntent) (arrivalTimeNs lastSequence : ℤ) (level : PlannedFill)
    (fee : ℤ) : SimulatedFill where
  fillId := simulator.uuid5
    s!"{intent.orderIntentId}:{level.rank}:{level.priceScaled}:{level.sizeScaled}"
  orderIntentId := intent.orderIntentId
  conditionId := intent.conditionId
  tokenId := intent.tokenId
  side := intent.side
  priceScaled := level.priceScaled
  sizeScaled := level.sizeScaled
  notionalScaled := level.notionalScaled
  feeScaled := fee
  bookEventSequence := lastSequence
  decisionTimeNs := intent.decisionTimestampNs
  scheduledArrivalTimeNs := arrivalTimeNs
  fillTimeNs := arrivalTimeNs
  levelRank := level.rank
  liquidityRemainingAfterScaled := level.displayedAfterScaled

/-- Carry out one planned level. -/
def fillLevel (intent : OrderIntent) (arrivalTimeNs : ℤ) (progress : FillProgress)
    (level : PlannedFill) : Except PyError FillProgress := do
  let fee ← simulator.feeModel.calculate level.sizeScaled level.priceScaled
  let fill := simulator.fillOf intent arrivalTimeNs progress.book.lastSequence level fee
  let (portfolio, applied) := progress.portfolio.applyFill fill intent.outcome
  applied
  return {
    book := progress.book.consume intent.side.opposite level.priceScaled level.sizeScaled
    portfolio := portfolio
    fills := progress.fills ++ [fill] }

/-- The fills meet the request. -/
def fullyFilled (intent : OrderIntent) (fills : List SimulatedFill) : Bool :=
  intent.requestedSharesScaled = some (fills.map SimulatedFill.sizeScaled).sum ∨
    intent.requestedNotionalScaled.any fun requested =>
      requested ≤ (fills.map SimulatedFill.notionalScaled).sum

def execute (intent : OrderIntent) (book : OrderBook) (portfolio : Portfolio)
    (arrivalTimeNs : ℤ) : Except PyError (OrderBook × Portfolio × OrderResult) :=
  let refuse (reason : String) := (book, portfolio, OrderResult.rejected intent reason)
  if !book.valid then .ok (refuse "book unavailable or invalid")
  else if intent.requestedSharesScaled = none ∧ intent.requestedNotionalScaled = none then
    .ok (refuse "size or notional required")
  else do
    let planned ← plan intent book
    match ← simulator.shortage intent portfolio planned with
    | some reason => return refuse reason
    | none =>
      let progress ← planned.foldlM (simulator.fillLevel intent arrivalTimeNs)
        ⟨book, portfolio, []⟩
      if progress.fills.isEmpty then
        return (progress.book, progress.portfolio,
          .rejected intent "no executable liquidity/resources")
      return (progress.book, progress.portfolio, {
        intent := intent
        status := if fullyFilled intent progress.fills then .filled else .partiallyFilled
        fills := progress.fills })

end TakerExecutionSimulator

end PolymarketBt
