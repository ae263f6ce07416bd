import PolymarketBt.Model.FastSim.SequentialEntry

/-! # Replaying one episode

The outer loop visits every row of the tape up to the market end. A row either offers the held
position an exit, or a flat strategy an entry, or nothing. The loop keeps, beside what the source
keeps, the orders it sent with their outcomes, tokens and signals; the reported orders are read off
that list when the episode is settled.
-/

namespace PolymarketBt

open Machine

inductive OrderKind where
  | entry
  | stopLoss
  | takeProfit
  | flatten
deriving DecidableEq, Repr

inductive ExitReason where
  | settlement
  | stopLoss
  | takeProfit
  | flattenBeforeEnd
  | stopUnfilledHeldToSettlement
  | noEntry
deriving DecidableEq, Repr

/-- One order the strategy sent, and what the book gave it. -/
structure SimulatedOrder where
  kind : OrderKind
  side : Side
  decisionUtcNs : ℤ
  arrivalUtcNs : ℤ
  /-- The offset of the decision from the market start, in nanoseconds. -/
  decisionOffsetNs : ℤ
  triggerPriceScaled : Option ℤ
  requestedSharesScaled : ℤ
  filledSharesScaled : ℤ
  notionalScaled : ℤ
  feesScaled : ℤ
  averagePriceScaled : Option ℤ
  slippageScaled : Option ℤ
  levelsConsumed : ℕ
  rejectedReason : Option ExecutionReason
  bindingConstraint : Option ExecutionReason
deriving DecidableEq, Repr

def SimulatedOrder.fromOutcome (kind : OrderKind) (outcome : ExecutionOutcome) (episode : Episode)
    (triggerPriceScaled : Option ℤ) : SimulatedOrder where
  kind := kind
  side := outcome.side
  decisionUtcNs := outcome.decisionUtcNs
  arrivalUtcNs := outcome.arrivalUtcNs
  decisionOffsetNs := outcome.decisionUtcNs - episode.startUtcNs
  triggerPriceScaled := triggerPriceScaled
  requestedSharesScaled := outcome.requestedSharesScaled
  filledSharesScaled := outcome.filledSharesScaled
  notionalScaled := outcome.notionalScaled
  feesScaled := outcome.feesScaled
  averagePriceScaled := outcome.averagePriceScaled
  slippageScaled := outcome.slippageScaled
  levelsConsumed := outcome.slices.length
  rejectedReason := outcome.rejectedReason
  bindingConstraint := outcome.bindingConstraint

/-- An order with its outcome, its token and the signal of its parent. -/
structure SentOrder where
  kind : OrderKind
  tokenIndex : TokenIndex
  signalNs : ℤ
  triggerPriceScaled : Option ℤ
  outcome : ExecutionOutcome
deriving DecidableEq, Repr

def SentOrder.toOrder (episode : Episode) (sent : SentOrder) : SimulatedOrder :=
  .fromOutcome sent.kind sent.outcome episode sent.triggerPriceScaled

structure EpisodeResult where
  conditionId : String
  marketSlug : String
  startUtcNs : ℤ
  endUtcNs : ℤ
  winnerOutcome : Option String
  executionPolicy : EntryExecutionPolicy
  traded : Bool := false
  outcomeToken : Option String := none
  outcomeSide : Option String := none
  entered : Bool := false
  won : Option Bool := none
  exitReason : ExitReason := .noEntry
  entryPriceScaled : Option ℤ := none
  entrySharesScaled : ℤ := 0
  entryNotionalScaled : ℤ := 0
  exitPriceScaled : Option ℤ := none
  exitSharesScaled : ℤ := 0
  exitNotionalScaled : ℤ := 0
  settledSharesScaled : ℤ := 0
  settlementPayoutScaled : ℤ := 0
  feesScaled : ℤ := 0
  grossPnlScaled : ℤ := 0
  netPnlScaled : ℤ := 0
  peakAdverseBidScaled : Option ℤ := none
  stopSlippageScaled : Option ℤ := none
  unfilledExitSharesScaled : ℤ := 0
  executionTargetSharesScaled : ℤ := 0
  executionUnfilledSharesScaled : ℤ := 0
  executionFillRatePpm : ℤ := 0
  executionImplementationShortfallScaled : Option ℤ := none
  executionNonFillPenaltyScaled : Option ℤ := none
  executionAdverseSelectionPenaltyScaled : Option ℤ := none
  executionObjectiveScaled : Option ℤ := none
  skipReason : Option String := none
  orders : List SimulatedOrder := []
deriving DecidableEq, Repr

/-- The local variables of the main loop. -/
structure RunState where
  context : SimContext
  entryCashDebited : ℤ
  positionShares : ℤ
  positionCost : ℤ
  positionToken : Option TokenIndex
  entries : ℕ
  nextEntryAllowedNs : ℤ
  /-- Inventory exists only from the arrival of the buy on. -/
  positionEffectiveNs : ℤ
  peakAdverse : Option ℤ
  stopDeadlineNs : Option ℤ
  stopActive : Bool
  stopAttempts : ℕ
  takeProfitAttempted : Bool
  flattenAttempted : Bool
  exitReason : ExitReason
  exitShares : ℤ
  exitNotional : ℤ
  exitPrices : List (ℤ × ℤ)
  sent : List SentOrder
  result : EpisodeResult

namespace Replay

variable (replay : Replay)

def entryFromNs : ℤ := replay.tape.episode.startUtcNs + replay.params.entryFromNs
def entryToNs : ℤ := replay.tape.episode.startUtcNs + replay.params.entryToNs

def flattenNs : Option ℤ :=
  replay.params.flattenBeforeEndNs.map fun before => replay.tape.episode.endUtcNs - before

def stopArmedNs : Option ℤ :=
  replay.params.stopLossFromNs.map fun armed => replay.tape.episode.startUtcNs + armed

def allowed (tokenIndex : TokenIndex) : Bool :=
  match replay.params.sideSelection with
  | .up => tokenIndex = replay.tape.tokenIndexOf replay.tape.episode.upTokenId
  | .down => tokenIndex = replay.tape.tokenIndexOf replay.tape.episode.downTokenId
  | .favoured => true

/-- The cash left of the wallet, or of the configured spend, after the entry fills so far. -/
def walletAt (cash : CashAvailability) (entryCashDebited : ℤ) (timestampNs : ℤ) :
    Except PyError ℤ := do
  let external ← cashAt cash timestampNs
  let fallback :=
    match replay.params.orderNotionalScaled with
    | none => 2 ^ 63 - 1
    | some notional => if notional = 0 then 2 ^ 63 - 1 else notional
  return max 0 (external.getD fallback - entryCashDebited)

def initialState : RunState where
  context := .init
  entryCashDebited := 0
  positionShares := 0
  positionCost := 0
  positionToken := none
  entries := 0
  nextEntryAllowedNs := replay.entryFromNs
  positionEffectiveNs := 0
  peakAdverse := none
  stopDeadlineNs := none
  stopActive := false
  stopAttempts := 0
  takeProfitAttempted := false
  flattenAttempted := false
  exitReason := .noEntry
  exitShares := 0
  exitNotional := 0
  exitPrices := []
  sent := []
  result :=
    { conditionId := replay.tape.episode.conditionId
      marketSlug := replay.tape.episode.marketSlug
      startUtcNs := replay.tape.episode.startUtcNs
      endUtcNs := replay.tape.episode.endUtcNs
      winnerOutcome := replay.tape.episode.winnerOutcome
      executionPolicy := replay.params.entryExecutionPolicy }

/-! ## Exits -/

/-- The exit a row calls for, and its share target. -/
def exitSignal (state : RunState) (row : TapeRow) : Option (OrderKind × ℤ) :=
  let params := replay.params
  let timestamp := row.receivedUtcNs
  let bid := row.bestBidScaled
  let flattenDue := !state.flattenAttempted && replay.flattenNs.any (· ≤ timestamp)
  if state.stopActive then
    if state.stopDeadlineNs.any (· ≤ timestamp) then some (.stopLoss, state.positionShares)
    else if flattenDue then some (.flatten, state.positionShares)
    else none
  -- No bid at all is the most dangerous state of the two, not a reason to skip the stop.
  else if params.stopLossPriceScaled.any (fun stop => bid.all (· ≤ stop)) &&
      replay.stopArmedNs.all (· ≤ timestamp) then
    some (.stopLoss, state.positionShares * params.stopLossFractionPpm / 1000000)
  else if params.takeProfitPriceScaled.any (fun profit => bid.any (profit ≤ ·)) &&
      !state.takeProfitAttempted then
    some (.takeProfit, state.positionShares * params.takeProfitFractionPpm / 1000000)
  else if flattenDue then some (.flatten, state.positionShares)
  else none

def exitRequest (tokenIndex : TokenIndex) (row : TapeRow) (kind : OrderKind) (target : ℤ) :
    OrderRequest where
  tokenIndex := tokenIndex
  side := .sell
  decisionNs := row.receivedUtcNs
  sharesScaled := target
  maxSpendScaled := none
  cash := none
  requireFullFill := false
  limitPriceScaled := none
  referencePriceScaled :=
    if kind = .stopLoss then replay.params.stopLossPriceScaled else row.bestBidScaled
  deadlineNs := none

def exitReasonOf : OrderKind → ExitReason
  | .stopLoss => .stopLoss
  | .takeProfit => .takeProfit
  | _ => .flattenBeforeEnd

/-- Send the exit a row calls for, if it calls for one of positive size. -/
def maybeExit (state : RunState) (row : TapeRow) :
    Except PyError (Option SentOrder × SimContext) :=
  match replay.exitSignal state row with
  | none => .ok (none, state.context)
  | some (kind, target) =>
    if target ≤ 0 then .ok (none, state.context)
    else do
      let (outcome, context) ←
        replay.send (replay.exitRequest row.tokenIndex row kind target) state.context
      return (some ⟨kind, row.tokenIndex, row.receivedUtcNs, row.bestBidScaled, outcome⟩, context)

/-- Book a filled exit. -/
def bookExit (state : RunState) (sent : SentOrder) : RunState :=
  let outcome := sent.outcome
  if outcome.filledSharesScaled = 0 then state
  else
    { state with
      positionShares := state.positionShares - outcome.filledSharesScaled
      exitShares := state.exitShares + outcome.filledSharesScaled
      exitNotional := state.exitNotional + outcome.notionalScaled
      exitPrices := state.exitPrices ++
        [(outcome.averagePriceScaled.getD 0, outcome.filledSharesScaled)]
      result :=
        { state.result with
          feesScaled := state.result.feesScaled + outcome.feesScaled
          stopSlippageScaled :=
            if state.result.stopSlippageScaled = none ∧ sent.kind = .stopLoss then
              outcome.slippageScaled
            else state.result.stopSlippageScaled } }

/-- Remember an exit attempt: its reason, its arrival, and whether the stop is sent again. -/
def rearm (state : RunState) (sent : SentOrder) (timestamp : ℤ) : RunState :=
  let reason := exitReasonOf sent.kind
  let arrival := sent.outcome.arrivalUtcNs
  let stopped := 0 < state.positionShares ∧ reason = .stopLoss
  let attempts := if stopped then state.stopAttempts + 1 else state.stopAttempts
  { state with
    exitReason := reason
    takeProfitAttempted := state.takeProfitAttempted || decide (reason = .takeProfit)
    flattenAttempted := state.flattenAttempted || decide (reason = .flattenBeforeEnd)
    positionEffectiveNs := max state.positionEffectiveNs arrival
    stopActive := state.stopActive || decide stopped
    stopAttempts := attempts
    stopDeadlineNs :=
      if stopped ∧ attempts - 1 < replay.params.stopRetryLimit then
        some (max timestamp arrival + replay.params.stopRetryIntervalMs * 1000000)
      else none }

/-- A row of the held token at or after the position exists. -/
def exitStep (state : RunState) (row : TapeRow) : Except PyError (Flow RunState) := do
  let watched :=
    { state with
      peakAdverse :=
        match row.bestBidScaled, state.peakAdverse with
        | none, peak => peak
        | some bid, none => some bid
        | some bid, some peak => some (min peak bid) }
  let (order, context) ← replay.maybeExit watched row
  match order with
  | none => return .next { watched with context := context }
  | some sent =>
    let after := replay.rearm
      (bookExit { watched with context := context, sent := state.sent ++ [sent] } sent)
      sent row.receivedUtcNs
    return if after.positionShares ≤ 0 then .stop after else .next after

/-! ## Entries -/

/-- The spend of a new parent, and whether cash at the signal limits it. -/
def entrySpend (cash : CashAvailability) (state : RunState) (timestamp : ℤ) :
    Except PyError (Option ℤ × Bool) :=
  match replay.params.orderNotionalScaled, cash with
  | some spend, some _ => do
    let cashNow ← replay.walletAt cash state.entryCashDebited timestamp
    return (some (if 0 < cashNow then min spend cashNow else spend), decide (cashNow < spend))
  | spend, _ => .ok (spend, false)

/-- The decision-time quantity of an immediate entry. -/
def entrySize (ask : ℤ) : Except PyError ℤ :=
  match replay.params.orderSharesScaled, replay.params.orderNotionalScaled with
  | some shares, _ => .ok shares
  | none, some notional => .ok (notional * polymarketPriceScale / max ask 1)
  | none, none => .error .assertionError

/-- What an entry attempt leaves: the state, its aggregate outcome, and when it takes effect. -/
structure EntryAttempt where
  state : RunState
  outcome : ExecutionOutcome
  effectiveNs : ℤ

def entryRequest (cash : CashAvailability) (state : RunState) (row : TapeRow) (ask : ℤ)
    (spend : Option ℤ) (shares : ℤ) : OrderRequest where
  tokenIndex := row.tokenIndex
  side := .buy
  decisionNs := row.receivedUtcNs
  sharesScaled := shares
  maxSpendScaled := spend
  cash := some (replay.walletAt cash state.entryCashDebited)
  requireFullFill := !replay.params.allowPartialEntry
  limitPriceScaled := some replay.params.entryLimitPriceScaled
  referencePriceScaled := some ask
  deadlineNs := none

/-- One order for the whole parent. -/
def immediateEntry (cash : CashAvailability) (state : RunState) (row : TapeRow) (ask : ℤ)
    (spend : Option ℤ) (cashLimited : Bool) : Except PyError EntryAttempt := do
  let shares ← replay.entrySize ask
  let (outcome, context) ←
    replay.send (replay.entryRequest cash state row ask spend shares) state.context
  let cashPending := decide (outcome.rejectedReason = some .insufficientAvailableCash) ||
    (cashLimited && !outcome.filled)
  let sent := ⟨.entry, row.tokenIndex, row.receivedUtcNs, some ask, outcome⟩
  return {
    state :=
      { state with
        context := context
        sent := state.sent ++ [sent]
        entries := if cashPending then state.entries else state.entries + 1
        nextEntryAllowedNs :=
          if cashPending then state.nextEntryAllowedNs
          else row.receivedUtcNs + replay.params.reentryCooldownNs
        result :=
          { state.result with
            executionTargetSharesScaled := outcome.requestedSharesScaled
            executionUnfilledSharesScaled :=
              max 0 (outcome.requestedSharesScaled - outcome.filledSharesScaled)
            executionFillRatePpm :=
              if outcome.requestedSharesScaled = 0 then 0
              else outcome.filledSharesScaled * 1000000 / outcome.requestedSharesScaled } }
    outcome := outcome
    effectiveNs := outcome.arrivalUtcNs }

/-- A parent worked through its deadline before the outer loop goes on. -/
def sequentialAttempt (cash : CashAvailability) (state : RunState) (row : TapeRow) (ask : ℤ)
    (spend : Option ℤ) (cashLimited : Bool) : Except PyError EntryAttempt := do
  let timestamp := row.receivedUtcNs
  let deadlineNs := replay.executionDeadlineNs timestamp replay.entryToNs
  let (children, objective, context) ←
    replay.sequentialEntry row.tokenIndex timestamp ask replay.entryToNs spend
      (some (replay.walletAt cash state.entryCashDebited)) state.context
  let target := objective.filledSharesScaled + objective.unfilledSharesScaled
  let outcome := aggregateEntryOutcomes target timestamp ask children
  let cashPending := (cashLimited && !outcome.filled) ||
    (!children.isEmpty &&
      children.all fun child => child.rejectedReason = some .insufficientAvailableCash)
  return {
    state :=
      { state with
        context := context
        sent := state.sent ++
          children.map fun child => ⟨.entry, row.tokenIndex, timestamp, some ask, child⟩
        entries := if cashPending then state.entries else state.entries + 1
        nextEntryAllowedNs := deadlineNs + replay.params.reentryCooldownNs
        result :=
          { state.result with
            executionTargetSharesScaled := target
            executionUnfilledSharesScaled := objective.unfilledSharesScaled
            executionFillRatePpm := objective.fillRatePpm
            executionImplementationShortfallScaled :=
              some objective.implementationShortfallScaled
            executionNonFillPenaltyScaled := some objective.nonFillPenaltyScaled
            executionAdverseSelectionPenaltyScaled :=
              some objective.adverseSelectionPenaltyScaled
            executionObjectiveScaled := some objective.totalObjectiveScaled } }
    outcome := outcome
    effectiveNs := max outcome.arrivalUtcNs deadlineNs }

/-- Enter under the configured policy. -/
def attemptEntry (cash : CashAvailability) (state : RunState) (row : TapeRow) (ask : ℤ)
    (spend : Option ℤ) (cashLimited : Bool) : Except PyError EntryAttempt :=
  if replay.params.entryExecutionPolicy = .immediate then
    replay.immediateEntry cash state row ask spend cashLimited
  else replay.sequentialAttempt cash state row ask spend cashLimited

/-- Take over the position of a filled attempt. -/
def openPosition (attempt : EntryAttempt) (tokenIndex : TokenIndex) : Except PyError RunState := do
  let outcome := attempt.outcome
  let tokenId := replay.tape.tokenIdOf tokenIndex
  let outcomeSide ← replay.tape.episode.tokenOutcome tokenId
  return { attempt.state with
    entryCashDebited :=
      attempt.state.entryCashDebited + (outcome.notionalScaled + outcome.feesScaled)
    positionShares := outcome.filledSharesScaled
    positionCost := outcome.notionalScaled
    positionToken := some tokenIndex
    positionEffectiveNs := attempt.effectiveNs
    exitReason := .settlement
    result :=
      { attempt.state.result with
        entered := true
        traded := true
        outcomeToken := some tokenId
        outcomeSide := some outcomeSide
        entryPriceScaled := outcome.averagePriceScaled
        entrySharesScaled := outcome.filledSharesScaled
        entryNotionalScaled := outcome.notionalScaled
        feesScaled := attempt.state.result.feesScaled + outcome.feesScaled } }

/-- The ask of a row that signals an entry. -/
def entrySignal (state : RunState) (row : TapeRow) : Option ℤ :=
  let params := replay.params
  let timestamp := row.receivedUtcNs
  if 0 < state.positionShares ∨ params.maxEntriesPerEpisode ≤ state.entries then none
  else if timestamp < state.nextEntryAllowedNs ∨ replay.entryToNs < timestamp then none
  else if replay.allowed row.tokenIndex then
    row.bestAskScaled.filter fun ask =>
      params.entryTriggerPriceScaled ≤ ask && ask ≤ params.entryLimitPriceScaled
  else none

/-- A row met while no exit is watched. -/
def entryStep (cash : CashAvailability) (state : RunState) (row : TapeRow) :
    Except PyError (Flow RunState) :=
  match replay.entrySignal state row with
  | none => .ok (.next state)
  | some ask => do
    let (spend, cashLimited) ← replay.entrySpend cash state row.receivedUtcNs
    if replay.params.entryExecutionPolicy ≠ .immediate ∧
        replay.executionDeadlineNs row.receivedUtcNs replay.entryToNs ≤ row.receivedUtcNs then
      -- No legal child horizon is left: the signal has expired.
      return .next state
    let attempt ← replay.attemptEntry cash state row ask spend cashLimited
    if attempt.outcome.filled then
      let opened ← replay.openPosition attempt row.tokenIndex
      return .next opened
    else return .next attempt.state

/-! ## The run -/

/-- The row belongs to the held token and the position exists by then. -/
def watchesExit (state : RunState) (row : TapeRow) : Bool :=
  0 < state.positionShares && state.positionToken = some row.tokenIndex &&
    state.positionEffectiveNs ≤ row.receivedUtcNs

def step (cash : CashAvailability) (state : RunState) (row : TapeRow) :
    Except PyError (Flow RunState) :=
  if replay.tape.episode.endUtcNs < row.receivedUtcNs then .ok (.stop state)
  else if watchesExit state row then replay.exitStep state row
  else replay.entryStep cash state row

def trace (cash : CashAvailability) : Except PyError RunState :=
  forLoop (replay.step cash) replay.initialState replay.tape.rows

/-- Settle what is still held and close the result. -/
def settle (state : RunState) : EpisodeResult :=
  let episode := replay.tape.episode
  let orders := state.sent.map (SentOrder.toOrder episode)
  if !state.result.entered then { state.result with exitReason := .noEntry, orders := orders }
  else
    let held := 0 < state.positionShares
    let won := state.result.outcomeToken = episode.winnerTokenId
    let settledShares := if held then state.positionShares else 0
    let payout :=
      if held ∧ won then state.positionShares * usdcScale / shareSizeScale else 0
    let gross := state.exitNotional + payout - state.positionCost
    { state.result with
      orders := orders
      unfilledExitSharesScaled :=
        if held ∧ (state.exitReason = .stopLoss ∨ state.exitReason = .takeProfit ∨
            state.exitReason = .flattenBeforeEnd) then state.positionShares
        else state.result.unfilledExitSharesScaled
      settledSharesScaled := settledShares
      settlementPayoutScaled := payout
      exitReason :=
        if held ∧ state.exitReason = .stopLoss then .stopUnfilledHeldToSettlement
        else state.exitReason
      exitSharesScaled := state.exitShares
      exitNotionalScaled := state.exitNotional
      exitPriceScaled :=
        if state.exitShares = 0 then none
        else some ((state.exitPrices.map fun print => print.1 * print.2).sum / state.exitShares)
      peakAdverseBidScaled := state.peakAdverse
      won := some (decide won)
      grossPnlScaled := gross
      netPnlScaled := gross - state.result.feesScaled }

end Replay

/-- Runs one parameter variant over one episode tape. -/
structure ThresholdHoldSimulator where
  params : ThresholdHoldParams
  realism : ExecutionRealism
  /-- The random stream seeded by the run's seed and the condition. -/
  draws : String → Draws

namespace ThresholdHoldSimulator

variable (simulator : ThresholdHoldSimulator)

/-- The realism with the fee fields the market carries. -/
def episodeRealism (episode : Episode) : ExecutionRealism :=
  { simulator.realism with
    fee :=
      { simulator.realism.fee with
        rate := episode.feeRate.getD simulator.realism.fee.rate
        exponent := episode.feeExponent.getD simulator.realism.fee.exponent } }

/-- The constants of a replay of this tape. -/
def replayOf (tape : EpisodeTape) : Except PyError Replay := do
  let realism := simulator.episodeRealism tape.episode
  let feeModel ← FeeModel.init realism.fee
  return {
    params := simulator.params
    tape := tape
    executor := ⟨realism, feeModel, simulator.draws tape.episode.conditionId⟩
    takerDelayNs := (tape.episode.takerOrderDelayMs.getD 0 : ℕ) * 1000000 }

/-- The result of an episode that is not replayed. -/
def skipped (episode : Episode) : EpisodeResult :=
  { conditionId := episode.conditionId
    marketSlug := episode.marketSlug
    startUtcNs := episode.startUtcNs
    endUtcNs := episode.endUtcNs
    winnerOutcome := episode.winnerOutcome
    executionPolicy := simulator.params.entryExecutionPolicy
    skipReason :=
      match episode.exclusionReason with
      | none => some "ineligible_episode"
      | some reason => some (if reason = "" then "ineligible_episode" else reason) }

/-- Replay one episode. -/
def run (tape : EpisodeTape) (cash : CashAvailability) : Except PyError EpisodeResult :=
  if tape.episode.eligible then do
    let replay ← simulator.replayOf tape
    let state ← replay.trace cash
    return replay.settle state
  else .ok (simulator.skipped tape.episode)

end ThresholdHoldSimulator

end PolymarketBt
