import PolymarketBt.Model.Engine
import PolymarketBt.Model.Tape
import PolymarketBt.Model.ThresholdHold

/-! # Threshold-and-hold for the reference engine

The strategy with which the cross-check drives the reference engine: it buys on an executable ask
inside the entry window and sells on an executable bid at the stop. What it has decided to buy stays
its position whatever becomes of the order.
-/

namespace PolymarketBt

/-- What the strategy remembers between its callbacks. -/
structure HoldState where
  entries : ℕ
  positionToken : Option String
  stopSent : Bool
deriving DecidableEq, Repr

/-- The strategy id carries the label of the parameters. -/
structure ThresholdHoldStrategy where
  params : ThresholdHoldParams
  episode : Episode
  strategyId : String
deriving DecidableEq, Repr

namespace ThresholdHoldStrategy

variable (hold : ThresholdHoldStrategy)

def entryFromNs : ℤ := hold.episode.startUtcNs + hold.params.entryFromNs
def entryToNs : ℤ := hold.episode.startUtcNs + hold.params.entryToNs

def candidateTokens : List String :=
  match hold.params.sideSelection with
  | .up => [hold.episode.upTokenId]
  | .down => [hold.episode.downTokenId]
  | .favoured => [hold.episode.upTokenId, hold.episode.downTokenId]

def entrySize (askScaled : ℤ) : Except PyError ℤ :=
  match hold.params.orderSharesScaled, hold.params.orderNotionalScaled with
  | some shares, _ => .ok shares
  | none, some notional => .ok (notional * 1000000 / max askScaled 1)
  | none, none => .error .assertionError

/-- The ask of a token that triggers an entry. -/
def triggerAsk (context : StrategyContext) (tokenId : String) : Option ℤ :=
  (context.books tokenId).bind fun book =>
    if book.valid then
      book.bestAsk.filter fun ask =>
        hold.params.entryTriggerPriceScaled ≤ ask ∧ ask ≤ hold.params.entryLimitPriceScaled
    else none

/-- The engine replaces the id that an intent is created with. -/
def entryIntent (context : StrategyContext) (tokenId : String) (ask : ℤ) :
    Except PyError OrderIntent := do
  let outcome ← hold.episode.tokenOutcome tokenId
  let shares ← hold.entrySize ask
  return {
    orderIntentId := ""
    strategyId := hold.strategyId
    decisionTimestampNs := context.nowNs
    tokenId := tokenId
    conditionId := hold.episode.conditionId
    outcome := outcome
    side := .buy
    orderType := .marketableTaker
    limitPriceScaled := some hold.params.entryLimitPriceScaled
    requestedSharesScaled := some shares
    timeInForce := "IOC"
    metadata := [("trigger_ask_scaled", s!"{ask}"), ("kind", "entry")] }

def exitIntent (context : StrategyContext) (tokenId : String) (bid : Option ℤ) :
    Except PyError OrderIntent := do
  let outcome ← hold.episode.tokenOutcome tokenId
  return {
    orderIntentId := ""
    strategyId := hold.strategyId
    decisionTimestampNs := context.nowNs
    tokenId := tokenId
    conditionId := hold.episode.conditionId
    outcome := outcome
    side := .sell
    orderType := .marketableTaker
    requestedSharesScaled := some
      (context.portfolio.inventory tokenId * hold.params.stopLossFractionPpm / 1000000)
    timeInForce := "IOC"
    metadata := [("trigger_bid_scaled", showOptional bid), ("kind", "stop_loss")] }

def exitIntents (state : HoldState) (tokenId : String) (context : StrategyContext) :
    Except PyError (HoldState × List OrderIntent) :=
  match hold.params.stopLossPriceScaled, context.books tokenId with
  | some stop, some book =>
    if state.stopSent ∨ context.portfolio.inventory tokenId ≤ 0 ∨
        (book.bestBid.any fun bid => stop < bid) then .ok (state, [])
    else do
      let intent ← hold.exitIntent context tokenId book.bestBid
      return ({ state with stopSent := true }, [intent])
  | _, _ => .ok (state, [])

def onMarketEvent (state : HoldState) (context : StrategyContext) :
    Except PyError (HoldState × List OrderIntent) :=
  if hold.episode.endUtcNs < context.nowNs then .ok (state, [])
  else
    match state.positionToken with
    | some tokenId => hold.exitIntents state tokenId context
    | none =>
      if hold.params.maxEntriesPerEpisode ≤ state.entries ∨ context.nowNs < hold.entryFromNs ∨
          hold.entryToNs < context.nowNs then .ok (state, [])
      else
        match hold.candidateTokens.findSome? fun tokenId =>
            (hold.triggerAsk context tokenId).map fun ask => (tokenId, ask) with
        | none => .ok (state, [])
        | some (tokenId, ask) => do
          let intent ← hold.entryIntent context tokenId ask
          return ({ state with entries := state.entries + 1, positionToken := some tokenId },
            [intent])

/-- Only market events make it decide. -/
def strategy : Strategy HoldState where
  strategyId := hold.strategyId
  initial := ⟨0, none, false⟩
  onStart := fun state _ => .ok state
  onMarketEvent := fun state _ context => hold.onMarketEvent state context
  onBtcPrice := fun state _ _ => .ok (state, [])
  onTrade := fun state _ _ => .ok (state, [])
  onMarketClose := fun state _ _ => .ok (state, [])

end ThresholdHoldStrategy

end PolymarketBt
