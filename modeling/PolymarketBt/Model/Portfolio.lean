import PolymarketBt.Model.Failure
import PolymarketBt.ToMathlib.KeyedList

/-! # Orders and the portfolio of the reference engine

An intent is what a strategy asks for, a fill is one consumed price level, and a result lists the
fills of one intent. The portfolio keeps its positions by token in the order they were opened, and
a row of its event log for each fill and each settlement.
-/

namespace PolymarketBt

inductive SimulatedOrderType where
  | marketableTaker
  | limitGtcSimulated
deriving DecidableEq, Repr

structure OrderIntent where
  orderIntentId : String
  strategyId : String
  decisionTimestampNs : ℤ
  tokenId : String
  conditionId : String
  outcome : String
  side : Side
  orderType : SimulatedOrderType := .marketableTaker
  limitPriceScaled : Option ℤ := none
  requestedSharesScaled : Option ℤ := none
  requestedNotionalScaled : Option ℤ := none
  timeInForce : String := "IOC"
  metadata : List (String × String) := []
deriving DecidableEq, Repr

structure SimulatedFill where
  fillId : String
  orderIntentId : String
  conditionId : String
  tokenId : String
  side : Side
  priceScaled : ℤ
  sizeScaled : ℤ
  notionalScaled : ℤ
  feeScaled : ℤ
  bookEventSequence : ℤ
  decisionTimeNs : ℤ
  scheduledArrivalTimeNs : ℤ
  fillTimeNs : ℤ
  levelRank : ℕ
  liquidityRemainingAfterScaled : ℤ
deriving DecidableEq, Repr

inductive OrderStatus where
  | accepted
  | rejected
  | partiallyFilled
  | filled
deriving DecidableEq, Repr

structure OrderResult where
  intent : OrderIntent
  status : OrderStatus
  rejectionReason : Option String := none
  fills : List SimulatedFill := []
deriving DecidableEq, Repr

def OrderResult.rejected (intent : OrderIntent) (reason : String) : OrderResult where
  intent := intent
  status := .rejected
  rejectionReason := some reason

/-! ## The portfolio -/

structure Position where
  conditionId : String
  outcome : String
  sharesScaled : ℤ := 0
  costBasisScaled : ℤ := 0
deriving DecidableEq, Repr

/-- The position takes part in the settlement of a market. -/
def Position.settles (conditionId : String) (position : Position) : Bool :=
  position.conditionId = conditionId ∧ position.sharesScaled ≠ 0

inductive PortfolioEventType where
  | fill
  | settlement
deriving DecidableEq, Repr

structure PortfolioEvent where
  timestampNs : ℤ
  eventType : PortfolioEventType
  tokenId : String
  cashScaled : ℤ
  inventoryScaled : ℤ
  realizedPnlScaled : ℤ
  feesScaled : ℤ
deriving DecidableEq, Repr

structure Portfolio where
  startingCashScaled : ℤ
  availableCashScaled : ℤ
  allowNegativeCash : Bool
  allowShortPositions : Bool
  positions : List (String × Position)
  realizedPnlScaled : ℤ
  unrealizedPnlScaled : ℤ
  feesPaidScaled : ℤ
  settlementReceivableScaled : ℤ
  settledCashScaled : ℤ
  events : List PortfolioEvent
deriving DecidableEq, Repr

namespace Portfolio

def init (startingCashScaled : ℤ) (allowNegativeCash allowShortPositions : Bool) : Portfolio where
  startingCashScaled := startingCashScaled
  availableCashScaled := startingCashScaled
  allowNegativeCash := allowNegativeCash
  allowShortPositions := allowShortPositions
  positions := []
  realizedPnlScaled := 0
  unrealizedPnlScaled := 0
  feesPaidScaled := 0
  settlementReceivableScaled := 0
  settledCashScaled := 0
  events := []

variable (portfolio : Portfolio)

def inventory (tokenId : String) : ℤ :=
  match portfolio.positions.lookup tokenId with
  | some position => position.sharesScaled
  | none => 0

def setPosition (tokenId : String) (position : Position) : Portfolio :=
  { portfolio with positions := KeyedList.assign tokenId position portfolio.positions }

/-- The position of the fill's token, a new one where the token has none. -/
def positionFor (fill : SimulatedFill) (outcome : String) : Position :=
  (portfolio.positions.lookup fill.tokenId).getD
    { conditionId := fill.conditionId, outcome := outcome }

def buyFill (fill : SimulatedFill) (position : Position) : Portfolio :=
  { portfolio.setPosition fill.tokenId { position with
      sharesScaled := position.sharesScaled + fill.sizeScaled
      costBasisScaled := position.costBasisScaled + fill.notionalScaled } with
    availableCashScaled :=
      portfolio.availableCashScaled - (fill.notionalScaled + fill.feeScaled) }

/-- The cost of the shares a sale removes, at the average cost of the position. -/
def removedCost (fill : SimulatedFill) (position : Position) : ℤ :=
  if position.sharesScaled = 0 then 0
  else (position.costBasisScaled * fill.sizeScaled).fdiv position.sharesScaled

def sellFill (fill : SimulatedFill) (position : Position) : Portfolio :=
  { portfolio.setPosition fill.tokenId { position with
      sharesScaled := position.sharesScaled - fill.sizeScaled
      costBasisScaled := position.costBasisScaled - removedCost fill position } with
    availableCashScaled := portfolio.availableCashScaled + (fill.notionalScaled - fill.feeScaled)
    realizedPnlScaled := portfolio.realizedPnlScaled +
      (fill.notionalScaled - fill.feeScaled - removedCost fill position) }

/-- The fee and the log row that follow a fill. -/
def recordFill (fill : SimulatedFill) : Portfolio :=
  { portfolio with
    feesPaidScaled := portfolio.feesPaidScaled + fill.feeScaled
    events := portfolio.events ++ [{
      timestampNs := fill.fillTimeNs
      eventType := .fill
      tokenId := fill.tokenId
      cashScaled := portfolio.availableCashScaled
      inventoryScaled := portfolio.inventory fill.tokenId
      realizedPnlScaled := portfolio.realizedPnlScaled
      feesScaled := portfolio.feesPaidScaled + fill.feeScaled }] }

/-- Book a fill; a refused one has opened the position of its token all the same. -/
def applyFill (fill : SimulatedFill) (outcome : String) : Portfolio × Except PyError Unit :=
  let position := portfolio.positionFor fill outcome
  let opened := portfolio.setPosition fill.tokenId position
  match fill.side with
  | .buy =>
    if !portfolio.allowNegativeCash ∧
        portfolio.availableCashScaled < fill.notionalScaled + fill.feeScaled then
      (opened, .error (.valueError "insufficient available cash"))
    else ((portfolio.buyFill fill position).recordFill fill, .ok ())
  | .sell =>
    if !portfolio.allowShortPositions ∧ position.sharesScaled < fill.sizeScaled then
      (opened, .error (.valueError "insufficient inventory"))
    else ((portfolio.sellFill fill position).recordFill fill, .ok ())

/-- What one position pays when its market resolves. -/
def tokenPayout (conditionId winningTokenId : String) (entry : String × Position) : ℤ :=
  if entry.2.settles conditionId ∧ entry.1 = winningTokenId then entry.2.sharesScaled else 0

/-- The cost of a position that its settlement writes off. -/
def settledCost (conditionId : String) (entry : String × Position) : ℤ :=
  if entry.2.settles conditionId then entry.2.costBasisScaled else 0

def settlePosition (conditionId : String) (entry : String × Position) : String × Position :=
  if entry.2.settles conditionId then
    (entry.1, { entry.2 with sharesScaled := 0, costBasisScaled := 0 })
  else entry

def settleMarket (conditionId winningTokenId : String) (timestampNs : ℤ) : Portfolio × ℤ :=
  let payout := (portfolio.positions.map (tokenPayout conditionId winningTokenId)).sum
  let realized := portfolio.realizedPnlScaled +
    (payout - (portfolio.positions.map (settledCost conditionId)).sum)
  ({ portfolio with
      positions := portfolio.positions.map (settlePosition conditionId)
      realizedPnlScaled := realized
      availableCashScaled := portfolio.availableCashScaled + payout
      settledCashScaled := portfolio.settledCashScaled + payout
      events := portfolio.events ++ [{
        timestampNs := timestampNs
        eventType := .settlement
        tokenId := winningTokenId
        cashScaled := portfolio.availableCashScaled + payout
        inventoryScaled := 0
        realizedPnlScaled := realized
        feesScaled := portfolio.feesPaidScaled }] }, payout)

/-- The value of a position at a marked price. -/
def markedValue (prices : String → Option ℤ) (entry : String × Position) : ℤ :=
  match prices entry.1 with
  | some price => entry.2.sharesScaled * price / 1000000
  | none => 0

def unrealizedOf (prices : String → Option ℤ) (entry : String × Position) : ℤ :=
  match prices entry.1 with
  | some _ => markedValue prices entry - entry.2.costBasisScaled
  | none => 0

def markToMarket (prices : String → Option ℤ) : Portfolio :=
  { portfolio with
    unrealizedPnlScaled := (portfolio.positions.map (unrealizedOf prices)).sum }

def equityScaled (prices : String → Option ℤ) : ℤ :=
  portfolio.availableCashScaled + (portfolio.positions.map (markedValue prices)).sum +
    portfolio.settlementReceivableScaled

end Portfolio

/-- Settle a market that pays one share of the winning outcome in full. -/
def settleCategoricalMarket (portfolio : Portfolio) (conditionId winningTokenId : String)
    (resolutionAvailableUtcNs : ℤ) : Portfolio × ℤ :=
  portfolio.settleMarket conditionId winningTokenId resolutionAvailableUtcNs

end PolymarketBt
