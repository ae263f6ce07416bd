import Mathlib.Data.String.Basic
import PolymarketBt.Model.FastSim.Run
import PolymarketBt.Model.Wallet
import PolymarketBt.ToMathlib.StableSort

/-! # Replaying markets under one of two staking rules

The markets are replayed in the order of their starts. A fixed stake makes the results independent
of each other. A compounding stake takes its cash from the replay wallet: the simulator asks the
wallet what is available at each instant, and the fills it reports are booked afterwards, the sells
and the settlement as future credits and the buys as debits at their arrivals.
-/

namespace PolymarketBt

open Machine StableSort

/-- An episode with the receipt of its resolution, where it was recorded. -/
structure ResolvedEpisode extends Episode where
  resolutionReceivedUtcNs : Option ℤ
deriving DecidableEq, Repr

inductive Sizing where
  | fixed
  | compound
deriving DecidableEq, Repr

/-- One completed pass over the selected markets. -/
structure RunOutcome where
  results : List EpisodeResult
  sizing : Sizing
  startingBalanceScaled : ℤ
  finalBalanceScaled : ℤ
  episodesSelected : ℕ
  /-- A compounded balance was used up and the remaining markets were never reached. -/
  endedEarly : Bool
  availableBalanceScaled : ℤ
  lockedBalanceScaled : ℤ
  walletEvents : List WalletEvent
deriving DecidableEq, Repr

def OrderKind.text : OrderKind → String
  | entry => "entry"
  | stopLoss => "stop_loss"
  | takeProfit => "take_profit"
  | flatten => "flatten"

namespace SimulatedOrder

/-- Orders settle by arrival, and at one instant sells before buys. -/
def settlementKey (order : SimulatedOrder) : ℤ ×ₗ ℕ :=
  toLex (order.arrivalUtcNs, if order.side = .sell then 0 else 1)

/-- The source under which the wallet logs the cash of an order. -/
def cashSource (order : SimulatedOrder) (episode : ResolvedEpisode) : String :=
  s!"{episode.conditionId}:{order.kind.text}"

end SimulatedOrder

/-- The orders that moved cash, in the order they settle. -/
def EpisodeResult.filledOrders (result : EpisodeResult) : List SimulatedOrder :=
  sortByKey SimulatedOrder.settlementKey
    (result.orders.filter fun order => order.filledSharesScaled ≠ 0)

/-- When a payout can be spent: at the resolution, or after the complete observation window. -/
def ResolvedEpisode.payoutNs (episode : ResolvedEpisode) : ℤ :=
  max episode.endUtcNs (episode.resolutionReceivedUtcNs.getD (episode.endUtcNs + 60000000000))

/-! ## Booking a result -/

namespace ReplayWallet

def scheduleSell (episode : ResolvedEpisode) (wallet : ReplayWallet) (order : SimulatedOrder) :
    Except PyError ReplayWallet :=
  let netProceeds := order.notionalScaled - order.feesScaled
  if netProceeds < 0 then
    .error (.valueError s!"sell fees exceed proceeds for {order.cashSource episode}")
  else do
    let credit ← PendingCredit.init order.arrivalUtcNs netProceeds (order.cashSource episode)
    return wallet.scheduleCredit credit

def scheduleSettlement (episode : ResolvedEpisode) (result : EpisodeResult)
    (wallet : ReplayWallet) : Except PyError ReplayWallet :=
  if result.settledSharesScaled = 0 then .ok wallet
  else do
    let credit ← PendingCredit.init episode.payoutNs result.settlementPayoutScaled
      s!"{episode.conditionId}:settlement"
    return wallet.scheduleCredit credit

def debitBuy (episode : ResolvedEpisode) (wallet : ReplayWallet) (order : SimulatedOrder) :
    Except PyError ReplayWallet :=
  match wallet.debit order.arrivalUtcNs (order.notionalScaled + order.feesScaled)
      (order.cashSource episode) with
  | (.error e, _) => .error e
  | (.ok (), after) => .ok after

/-- Book the fills of a result without moving the ledger past its last buy. -/
def applyResult (wallet : ReplayWallet) (episode : ResolvedEpisode) (result : EpisodeResult) :
    Except PyError ReplayWallet := do
  let filled := result.filledOrders
  -- Credits first: a sell is available to a buy of its own instant.
  let sold ← (filled.filter fun order => order.side = .sell).foldlM (scheduleSell episode) wallet
  let settled ← sold.scheduleSettlement episode result
  let debited ← (filled.filter fun order => order.side = .buy).foldlM (debitBuy episode) settled
  let actualDelta := debited.totalEquityScaled - wallet.totalEquityScaled
  if actualDelta ≠ result.netPnlScaled then
    .error (.valueError (s!"wallet cashflows do not reconcile for {episode.conditionId}: " ++
      s!"cashflow_delta={actualDelta}, net_pnl={result.netPnlScaled}"))
  else return debited

end ReplayWallet

/-! ## The pass -/

/-- The markets of a pass are replayed by start, and by condition at one start. -/
def ResolvedEpisode.startKey (episode : ResolvedEpisode) : ℤ ×ₗ String :=
  toLex (episode.startUtcNs, episode.conditionId)

/-- The arguments of a pass that its markets share. -/
structure MarketPass where
  params : ThresholdHoldParams
  realism : ExecutionRealism
  /-- The random stream seeded by the seed of the pass and the condition. -/
  draws : String → Draws
  load : ResolvedEpisode → Except PyError EpisodeTape
  sizing : Sizing
  startingBalanceScaled : ℤ

/-- The local variables of the loop over the markets. -/
structure PassState where
  wallet : ReplayWallet
  balance : ℤ
  results : List EpisodeResult
  endedEarly : Bool

namespace MarketPass

variable (pass : MarketPass)

/-- The simulator of every market under a fixed stake. -/
def fixedSimulator : ThresholdHoldSimulator := ⟨pass.params, pass.realism, pass.draws⟩

/-- The simulator of the next market under a compounding stake, which total equity bounds. -/
def compoundSimulator (wallet : ReplayWallet) : ThresholdHoldSimulator :=
  ⟨{ pass.params with orderNotionalScaled := some (max 1 wallet.totalEquityScaled) },
    pass.realism, pass.draws⟩

def runEpisode (state : PassState) (episode : ResolvedEpisode) : Except PyError (Flow PassState) :=
  if pass.sizing = .compound ∧ state.wallet.totalEquityScaled ≤ 0 then
    .ok (.stop { state with endedEarly := true })
  else do
    let tape ← pass.load episode
    match pass.sizing with
    | .compound =>
      let result ← (pass.compoundSimulator state.wallet).run tape (some state.wallet.peekAvailableAt)
      let wallet ← state.wallet.applyResult episode result
      return .next { state with wallet := wallet, results := state.results ++ [result] }
    | .fixed =>
      let result ← pass.fixedSimulator.run tape none
      return .next { state with
        results := state.results ++ [result]
        balance := state.balance + result.netPnlScaled }

def inOrder (episodes : List ResolvedEpisode) : List ResolvedEpisode :=
  sortByKey ResolvedEpisode.startKey episodes

/-- The wallet opens at the start of the first market. -/
def openWallet (episodes : List ResolvedEpisode) : Except PyError ReplayWallet :=
  ReplayWallet.init pass.startingBalanceScaled
    (((inOrder episodes).head?.map fun episode => episode.startUtcNs).getD 0)

def initialState (wallet : ReplayWallet) : PassState := ⟨wallet, pass.startingBalanceScaled, [], false⟩

/-- The end of the last window observed, or the wallet's time where nothing was. -/
def horizonNs (state : PassState) : ℤ :=
  ((state.results.map EpisodeResult.endUtcNs).max?).getD state.wallet.now

def runEpisodes (episodes : List ResolvedEpisode) : Except PyError RunOutcome := do
  let wallet ← pass.openWallet episodes
  let state ← forLoop pass.runEpisode (pass.initialState wallet) (inOrder episodes)
  let outcome : RunOutcome := {
    results := state.results
    sizing := pass.sizing
    startingBalanceScaled := pass.startingBalanceScaled
    finalBalanceScaled := state.balance
    episodesSelected := episodes.length
    endedEarly := state.endedEarly
    availableBalanceScaled := state.balance
    lockedBalanceScaled := 0
    walletEvents := [] }
  match pass.sizing with
  | .fixed => return outcome
  | .compound =>
    -- Known payouts beyond the horizon stay locked.
    match state.wallet.advanceTo (max state.wallet.now (horizonNs state)) with
    | (.error e, _) => .error e
    | (.ok _, wallet) => return { outcome with
        finalBalanceScaled := wallet.totalEquityScaled
        availableBalanceScaled := wallet.available
        lockedBalanceScaled := wallet.pendingCashScaled
        walletEvents := wallet.events }

end MarketPass

end PolymarketBt
