import PolymarketBt.Model.Failure

/-! # The queue of a simulated maker order

Public depth does not tell who is ahead in a queue. A queue state keeps the displayed size ahead of
a simulated order and how much of the order is filled; its model decides what a displayed decrease
takes off the size ahead.
-/

namespace PolymarketBt

inductive QueueModel where
  | optimistic
  | conservative
  | proportional
deriving DecidableEq, Repr

structure MakerQueueState where
  orderId : String
  displayedAheadScaled : ℤ
  simulatedSizeScaled : ℤ
  queueModel : QueueModel
  filledScaled : ℤ := 0
deriving DecidableEq, Repr

namespace MakerQueueState

variable (state : MakerQueueState)

/-- A trade at the level advances the queue and fills the order with the rest: the fill, and the
state after it. -/
def observeTrade (aggressiveTradeSizeScaled : ℤ) : ℤ × MakerQueueState :=
  let advance := min state.displayedAheadScaled aggressiveTradeSizeScaled
  let residual := aggressiveTradeSizeScaled - advance
  let fill := min residual (state.simulatedSizeScaled - state.filledScaled)
  (fill, { state with
    displayedAheadScaled := state.displayedAheadScaled - advance
    filledScaled := state.filledScaled + fill })

/-- A displayed decrease that no trade explains. -/
def observeDisplayedDecrease (decreaseScaled displayedTotalScaled : ℤ) : MakerQueueState :=
  match state.queueModel with
  | .conservative => state
  | .optimistic =>
    { state with displayedAheadScaled := max 0 (state.displayedAheadScaled - decreaseScaled) }
  | .proportional =>
    if displayedTotalScaled ≤ 0 then state
    else
      let aheadShare := state.displayedAheadScaled * decreaseScaled / displayedTotalScaled
      { state with displayedAheadScaled := max 0 (state.displayedAheadScaled - aheadShare) }

end MakerQueueState

end PolymarketBt
