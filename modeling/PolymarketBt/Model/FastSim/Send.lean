import PolymarketBt.Model.Realism
import PolymarketBt.Model.Tape
import PolymarketBt.Model.ThresholdHold
import PolymarketBt.ToMathlib.Bisect

/-! # Sending one order to the tape

An order decided on one row is matched against the last row of its token at or before its arrival.
Depth the run has already taken is an overlay on that row's ladder. The overlay, the cursor that
replays restatements into it and the position in the random stream are shared by all orders of a
run and travel together as a `SimContext`.
-/

namespace PolymarketBt

/-- What the orders of one run share. -/
structure SimContext where
  draw : ℕ
  consumed : TokenIndex → Side → Consumption
  impactCursor : TokenIndex → ℤ

def SimContext.init : SimContext := ⟨0, fun _ _ _ => 0, fun _ => -1⟩

/-- A cash balance as a function of the instant it is asked for, or no balance at all. -/
abbrev CashAvailability := Option (ℤ → Except PyError ℤ)

/-- What stays fixed while one episode is replayed. -/
structure Replay where
  params : ThresholdHoldParams
  tape : EpisodeTape
  executor : TakerExecutor
  takerDelayNs : ℤ

/-- The arguments that differ from one order to the next. -/
structure OrderRequest where
  tokenIndex : TokenIndex
  side : Side
  decisionNs : ℤ
  sharesScaled : ℤ
  maxSpendScaled : Option ℤ
  cash : CashAvailability
  requireFullFill : Bool
  limitPriceScaled : Option ℤ
  referencePriceScaled : Option ℤ
  deadlineNs : Option ℤ

/-! ## Tape navigation -/

/-- The rows of one token with their positions in the tape. -/
def tokenRows (tape : EpisodeTape) (tokenIndex : TokenIndex) : List (TapeRow × ℕ) :=
  tape.rows.zipIdx.filter fun entry => entry.1.tokenIndex = tokenIndex

def stamps (rows : List (TapeRow × ℕ)) : List ℤ := rows.map fun entry => entry.1.receivedUtcNs

/-- The last row at or before an instant. -/
def rowAt (rows : List (TapeRow × ℕ)) (timestampNs : ℤ) : Option (TapeRow × ℕ) :=
  match (stamps rows).bisectRight timestampNs with
  | 0 => none
  | position + 1 => rows[position]?

/-- The book of a row may be traded at this instant. -/
def tradable (tape : EpisodeTape) (tokenIndex : TokenIndex) (row : TapeRow) (timestampNs : ℤ) :
    Bool :=
  row.bookValid && !tape.isUncertain (tape.tokenIdOf tokenIndex) timestampNs

/-! ## Self-impact -/

/-- What the event of one row gives back: everything of its token, one level, or nothing. -/
def replenish (tokenIndex : TokenIndex) (consumed : TokenIndex → Side → Consumption)
    (row : TapeRow) : TokenIndex → Side → Consumption :=
  match row.eventKind, row.eventSide with
  | .snapshot, _ => Function.update consumed tokenIndex fun _ _ => 0
  | .update, some side =>
    Function.update consumed tokenIndex
      (Function.update (consumed tokenIndex) side
        (Function.update (consumed tokenIndex side) row.eventPriceScaled 0))
  | _, _ => consumed

/-- Replay the restatements after the cursor up to a row; the cursor never moves back. -/
def reconcileSelfImpact (rows : List (TapeRow × ℕ)) (tokenIndex : TokenIndex) (throughRow : ℕ)
    (context : SimContext) : SimContext :=
  if (throughRow : ℤ) ≤ context.impactCursor tokenIndex then context
  else
    let positions := rows.map fun entry => (entry.2 : ℤ)
    let fresh := (rows.take (positions.bisectRight throughRow)).drop
      (positions.bisectRight (context.impactCursor tokenIndex))
    { context with
      consumed := (fresh.map Prod.fst).foldl (replenish tokenIndex) context.consumed
      impactCursor := Function.update context.impactCursor tokenIndex throughRow }

/-- The levels of one resting side a row offers, less the depth the run has taken. -/
def seenLadder (tokenIndex : TokenIndex) (row : TapeRow) (context : SimContext) (bookSide : Side) :
    List (ℤ × ℤ) :=
  remainingLevels (row.ladder bookSide) (context.consumed tokenIndex bookSide)

/-- Consumption with the slices of one order added. -/
def addSlices (consumed : Consumption) (slices : List FillSlice) : Consumption :=
  slices.foldl (fun consumed slice =>
    Function.update consumed slice.priceScaled (consumed slice.priceScaled + slice.sizeScaled))
    consumed

/-- Record the depth an outcome took from the given resting side. -/
def takeDepth (tokenIndex : TokenIndex) (bookSide : Side) (context : SimContext)
    (slices : List FillSlice) : SimContext :=
  { context with
    consumed := Function.update context.consumed tokenIndex
      (Function.update (context.consumed tokenIndex) bookSide
        (addSlices (context.consumed tokenIndex bookSide) slices)) }

/-! ## Cash -/

def cashAt : CashAvailability → ℤ → Except PyError (Option ℤ)
  | none, _ => .ok none
  | some source, timestampNs => do
    let value ← source timestampNs
    return some (max 0 value)

namespace TakerExecutor

variable (executor : TakerExecutor)

/-- Notional plus taker fee of a quantity at one price. -/
def costOf (priceScaled sharesScaled : ℤ) : Except PyError ℤ := do
  let notional ← notionalScaled sharesScaled priceScaled
  let fee ← executor.feeModel.calculate sharesScaled priceScaled
  return notional + fee

/-- Halve `[low, high]` while it holds more than one quantity. -/
def affordableSearch (spendScaled priceScaled : ℤ) : ℕ → ℤ → ℤ → Except PyError ℤ
  | 0, low, _ => .ok low
  | fuel + 1, low, high =>
    if low < high then do
      let middle := (low + high + 1) / 2
      let cost ← executor.costOf priceScaled middle
      if cost ≤ spendScaled then affordableSearch spendScaled priceScaled fuel middle high
      else affordableSearch spendScaled priceScaled fuel low (middle - 1)
    else .ok low

/-- The quantity a binary search finds to fit the spend, notional and taker fee included. -/
def maxAffordableShares (spendScaled priceScaled : ℤ) (upper : Option ℤ) : Except PyError ℤ :=
  if spendScaled ≤ 0 ∨ priceScaled ≤ 0 then .ok 0
  else
    let high := upper.getD (spendScaled * polymarketPriceScale / priceScaled + 1)
    executor.affordableSearch spendScaled priceScaled (Nat.size high.toNat) 0 high

/-- Keep slices while their cost fits, trim the first that does not, and drop the rest. -/
def capSlices : ℤ → List FillSlice → Except PyError (List FillSlice × Bool)
  | _, [] => .ok ([], false)
  | remaining, slice :: rest =>
    if slice.notionalScaled + slice.feeScaled ≤ remaining then do
      let (kept, bound) ←
        capSlices (remaining - (slice.notionalScaled + slice.feeScaled)) rest
      return (slice :: kept, bound)
    else do
      let size ← executor.maxAffordableShares remaining slice.priceScaled (some slice.sizeScaled)
      if 0 < size then
        let notional ← notionalScaled size slice.priceScaled
        let fee ← executor.feeModel.calculate size slice.priceScaled
        return ([⟨slice.priceScaled, size, notional, fee, slice.levelRank⟩], true)
      else return ([], true)

/-- Trim a BUY so that its notional plus fees cannot exceed the spend. -/
def capBuyToSpend (outcome : ExecutionOutcome) (spendScaled : ℤ) :
    Except PyError (ExecutionOutcome × Bool) := do
  let (kept, bound) ← executor.capSlices (max 0 spendScaled) outcome.slices
  let capped :=
    { outcome with
      slices := kept
      filledSharesScaled := sliceShares kept
      notionalScaled := sliceNotional kept
      feesScaled := sliceFees kept
      bindingConstraint := if bound then some .cashBudget else outcome.bindingConstraint }
  return ({ capped with
    rejectedReason :=
      if capped.filled then capped.rejectedReason else some .insufficientCashIncludingFees },
    bound)

end TakerExecutor

/-! ## The order -/

namespace Replay

variable (replay : Replay)

def rowsOf (tokenIndex : TokenIndex) : List (TapeRow × ℕ) := tokenRows replay.tape tokenIndex

/-- The instant an order meets the book, and the context after its latency draw. -/
def arrive (request : OrderRequest) (context : SimContext) : Except PyError (ℤ × SimContext) := do
  let latency ← replay.executor.realism.latency.sampleNs replay.executor.draws context.draw
  return (request.decisionNs + latency + replay.takerDelayNs,
    { context with draw := context.draw + 1 })

def refuseAt (request : OrderRequest) (arrivalNs : ℤ) (reason : ExecutionReason) :
    ExecutionOutcome :=
  .rejected request.sharesScaled (some reason) request.decisionNs arrivalNs
    request.referencePriceScaled request.side

/-- The cash checks of a BUY: some cash, and all of a notional request. -/
def cashRefused (request : OrderRequest) (cash : Option ℤ) : Bool :=
  request.side = .buy && cash.any fun cash =>
    cash ≤ 0 || request.maxSpendScaled.any fun spend => cash < spend

/-- The shares to request once the arrival ladder is known: a notional BUY is resized on it. -/
def requestedShares (request : OrderRequest) (ladder : List (ℤ × ℤ)) : Except PyError ℤ :=
  match request.side, request.maxSpendScaled, ladder with
  | .buy, some spend, (touch, _) :: _ => replay.executor.maxAffordableShares spend touch none
  | _, _, _ => .ok request.sharesScaled

/-- The most a BUY may cost at its arrival. -/
def spendCap (request : OrderRequest) (cash : Option ℤ) : Option ℤ :=
  match request.side, request.maxSpendScaled with
  | .sell, _ => none
  | .buy, some spend => some spend
  | .buy, none => cash

/-- The part of an execution its spend affords, and whether the spend cut it. -/
def capToSpend (request : OrderRequest) (cash : Option ℤ) (executed : ExecutionOutcome) :
    Except PyError (ExecutionOutcome × Bool) :=
  match spendCap request cash with
  | some spend =>
    if executed.filled then replay.executor.capBuyToSpend executed spend else .ok (executed, false)
  | none => .ok (executed, false)

/-- Undo a fill that had to be complete and is not. -/
def enforceFullFill (request : OrderRequest) (outcome : ExecutionOutcome) (cashBound : Bool) :
    ExecutionOutcome :=
  let fullFill := outcome.filledSharesScaled = outcome.requestedSharesScaled ∨
    (request.side = .buy ∧ request.maxSpendScaled.isSome ∧ cashBound)
  if request.requireFullFill ∧ outcome.filled ∧ ¬fullFill then
    { outcome with
      slices := []
      filledSharesScaled := 0
      notionalScaled := 0
      feesScaled := 0
      rejectedReason := some .partialEntryDisallowed }
  else outcome

/-- Match an order that reached a tradable row. -/
def matchAt (request : OrderRequest) (arrivalNs : ℤ) (cash : Option ℤ) (entry : TapeRow × ℕ)
    (context : SimContext) : Except PyError (ExecutionOutcome × SimContext) := do
  let reconciled :=
    reconcileSelfImpact (replay.rowsOf request.tokenIndex) request.tokenIndex entry.2 context
  let bookSide := request.side.taken
  let ladder := seenLadder request.tokenIndex entry.1 reconciled bookSide
  let requested ← replay.requestedShares request ladder
  let executed ← replay.executor.execute {
    side := request.side
    ladder := ladder
    requestedSharesScaled := requested
    limitPriceScaled := request.limitPriceScaled
    referencePriceScaled := request.referencePriceScaled
    -- Public prints after the arrival cannot constrain an order matched at it.
    realisedVolumeScaled := none
    decisionUtcNs := request.decisionNs
    arrivalUtcNs := arrivalNs
    bookAgeNs := arrivalNs - entry.1.receivedUtcNs
    minimumOrderSizeScaled := replay.tape.episode.minimumOrderSizeScaled
    tickSizeScaled := replay.tape.episode.tickSizeScaled }
  let (capped, cashBound) ← replay.capToSpend request cash executed
  let outcome := enforceFullFill request capped cashBound
  return (outcome,
    if outcome.filled then takeDepth request.tokenIndex bookSide reconciled outcome.slices
    else reconciled)

/-- Meet the book at the arrival. -/
def sendAt (request : OrderRequest) (arrivalNs : ℤ) (context : SimContext) :
    Except PyError (ExecutionOutcome × SimContext) :=
  if request.deadlineNs.any fun deadline => deadline < arrivalNs then
    .ok (refuseAt request arrivalNs .parentDeadlineElapsed, context)
  else if replay.tape.episode.endUtcNs ≤ arrivalNs then
    .ok (refuseAt request arrivalNs .marketClosedAtArrival, context)
  else do
    let cash ← cashAt request.cash arrivalNs
    if cashRefused request cash then
      return (refuseAt request arrivalNs .insufficientAvailableCash, context)
    match rowAt (replay.rowsOf request.tokenIndex) arrivalNs with
    | none => return (refuseAt request arrivalNs .noBookAtArrival, context)
    | some entry =>
      if replay.executor.realism.requireValidBook &&
          !tradable replay.tape request.tokenIndex entry.1 arrivalNs then
        return (refuseAt request arrivalNs .bookStateUncertain, context)
      replay.matchAt request arrivalNs cash entry context

def send (request : OrderRequest) (context : SimContext) :
    Except PyError (ExecutionOutcome × SimContext) := do
  let (arrivalNs, drawn) ← replay.arrive request context
  replay.sendAt request arrivalNs drawn

end Replay

end PolymarketBt
