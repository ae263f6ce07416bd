import PolymarketBt.Model.FastSim.Send
import PolymarketBt.Model.OptimalExecution

/-! # Executing one parent order as a sequence of children

A parent has a clock of its own: it decides at its start, on a fixed tick, at every row and print of
its token, and at its deadline. Each decision uses the last row at or before it. The loop over the
decision instants threads the session, the shared context and what the children have spent.
-/

namespace PolymarketBt

open Machine

namespace Replay

variable (replay : Replay)

def executionDeadlineNs (decisionNs entryToNs : ℤ) : ℤ :=
  min (min entryToNs (replay.tape.episode.endUtcNs - 1))
    (decisionNs + replay.params.executionHorizonNs)

def decisionIntervalNs : ℤ := 250000000

/-- The ticks of the child clock strictly between the decision and the deadline. -/
def clockTicks (decisionNs deadlineNs : ℤ) : List ℤ :=
  (List.range ((deadlineNs - decisionNs - 1) / decisionIntervalNs).toNat).map fun tick : ℕ =>
    decisionNs + decisionIntervalNs * (tick + 1)

/-- The part of a sorted column between two instants, both included. -/
def between (column : List ℤ) (firstNs lastNs : ℤ) : List ℤ :=
  (column.take (column.bisectRight lastNs)).drop (column.bisectLeft firstNs)

/-- The prints of the token in the same span, by position in the shared column. -/
def tradesBetween (trades : List TradePrint) (tokenIndex : TokenIndex) (firstNs lastNs : ℤ) :
    List ℤ :=
  let column := tradeStamps trades
  (((trades.take (column.bisectRight lastNs)).drop (column.bisectLeft firstNs)).filter
    fun trade => trade.tokenIndex = tokenIndex).map TradePrint.receivedUtcNs

/-- The distinct decision instants of a parent, in order. -/
def decisionInstants (tokenIndex : TokenIndex) (decisionNs deadlineNs : ℤ) : List ℤ :=
  (([decisionNs, deadlineNs] ++ clockTicks decisionNs deadlineNs ++
      between (stamps (replay.rowsOf tokenIndex)) decisionNs deadlineNs ++
      tradesBetween replay.tape.trades tokenIndex decisionNs deadlineNs).dedup).insertionSort
    (· ≤ ·)

/-- What stays fixed while one parent is worked. -/
structure ParentEntry where
  parent : ParentOrder
  maxSpendScaled : Option ℤ
  cash : CashAvailability
  referencePriceScaled : ℤ
  deadlineNs : ℤ

/-- What the children of one parent have done so far. -/
structure ParentRun where
  session : SequentialExecutionSession
  context : SimContext
  outcomes : List ExecutionOutcome
  externallySpent : ℤ

/-- The cash a child may spend: the session's, and what its siblings left of the external balance. -/
def childCash (entry : ParentEntry) (session : SequentialExecutionSession) (spent : ℤ)
    (arrivalNs : ℤ) : Except PyError ℤ := do
  let external ← cashAt entry.cash arrivalNs
  return min session.cashScaled
    (max 0 (external.getD (entry.maxSpendScaled.getD session.cashScaled) - spent))

/-- The request of a child decided by the session. -/
def childRequest (entry : ParentEntry) (session : SequentialExecutionSession) (spent : ℤ)
    (nowNs : ℤ) (action : ExecutionAction) : OrderRequest where
  tokenIndex := entry.parent.tokenIndex
  side := .buy
  decisionNs := nowNs
  sharesScaled := action.requestedSharesScaled
  maxSpendScaled := none
  cash := some (childCash entry session spent)
  requireFullFill := false
  limitPriceScaled := action.limitPriceScaled
  referencePriceScaled := some entry.referencePriceScaled
  deadlineNs := some entry.deadlineNs

/-- Send the slice a decision asked for and account for its outcome. -/
def workChild (entry : ParentEntry) (run : ParentRun) (nowNs : ℤ) (action : ExecutionAction) :
    Except PyError (Flow ParentRun) := do
  let (outcome, context) ←
    replay.send (childRequest entry run.session run.externallySpent nowNs action) run.context
  let session ← run.session.recordOutcome entry.parent outcome
  let after : ParentRun :=
    { session := session
      context := context
      outcomes := run.outcomes ++ [outcome]
      externallySpent := run.externallySpent + (outcome.notionalScaled + outcome.feesScaled) }
  return if session.remainingSharesScaled entry.parent ≤ 0 then .stop after else .next after

/-- One decision instant of a parent. -/
def decideChild (entry : ParentEntry) (run : ParentRun) (nowNs : ℤ) :
    Except PyError (Flow ParentRun) :=
  let tokenIndex := entry.parent.tokenIndex
  match rowAt (replay.rowsOf tokenIndex) nowNs with
  | none => .ok (.next run)
  | some (row, position) =>
    if replay.executor.realism.requireValidBook && !tradable replay.tape tokenIndex row nowNs then
      .ok (.next run)
    else do
      let context := reconcileSelfImpact (replay.rowsOf tokenIndex) tokenIndex position run.context
      let (session, action) ← run.session.decide entry.parent nowNs
        (seenLadder tokenIndex row context .buy) (seenLadder tokenIndex row context .sell)
        replay.tape.episode.minimumOrderSizeScaled row.bestAskScaled
      let decided := { run with session := session, context := context }
      match action.kind with
      | .wait => return .next decided
      | .takerSlice => replay.workChild entry decided nowNs action

/-- The child policy configured for the parent. -/
def childPolicy : SequentialExecutionPolicy :=
  let limits : PolicyLimits :=
    { minimumActionIntervalNs := decisionIntervalNs
      maxChildSharesScaled := none
      maxL2ParticipationPpm := 250000
      feeReservePpm := 50000 }
  if replay.params.entryExecutionPolicy = .twap then
    .twap { slices := replay.params.executionSlices, limits := limits }
  else
    .adaptivePov { participationPpm := replay.params.executionParticipationPpm, limits := limits }

/-- The size of the parent: configured shares, or what the spend affords at the signal. -/
def parentTarget (maxSpendScaled : Option ℤ) (referencePriceScaled : ℤ) : Except PyError ℤ :=
  match replay.params.orderSharesScaled, maxSpendScaled with
  | some shares, _ => .ok shares
  | none, some spend => replay.executor.maxAffordableShares spend referencePriceScaled none
  | none, none => .error .assertionError

/-- The wallet of the session: the spend, else the external balance at the deadline. -/
def sessionCash (maxSpendScaled : Option ℤ) (cash : CashAvailability) (deadlineNs : ℤ) :
    Except PyError ℤ :=
  match maxSpendScaled with
  | some spend => .ok spend
  | none => do
    let external ← cashAt cash deadlineNs
    return external.getD (2 ^ 62)

/-- Check the plan and the policy of a parent and open its session. -/
def openParent (tokenIndex : TokenIndex) (decisionNs referencePriceScaled entryToNs : ℤ)
    (maxSpendScaled : Option ℤ) (cash : CashAvailability) :
    Except PyError (ParentEntry × SequentialExecutionSession) := do
  let targetShares ← replay.parentTarget maxSpendScaled referencePriceScaled
  let deadlineNs := replay.executionDeadlineNs decisionNs entryToNs
  require (decisionNs < deadlineNs) "sequential entry needs a deadline after its decision"
  let plan : ExecutionPlan :=
    { side := .buy
      targetSharesScaled := targetShares
      startUtcNs := decisionNs
      deadlineUtcNs := deadlineNs
      benchmarkPriceScaled := referencePriceScaled
      limitPriceScaled := some replay.params.entryLimitPriceScaled }
  plan.check
  replay.childPolicy.check
  let parent : ParentOrder := ⟨plan, replay.childPolicy, replay.tape.trades, tokenIndex⟩
  let volume ← CausalVolumeCursor.init replay.tape.trades decisionNs
  let sessionCash ← sessionCash maxSpendScaled cash deadlineNs
  let session ← SequentialExecutionSession.init parent volume sessionCash 0
  return (⟨parent, maxSpendScaled, cash, referencePriceScaled, deadlineNs⟩, session)

/-- The mark of the objective: the ask at the deadline, else the reference. -/
def deadlineMark (entry : ParentEntry) : ℤ :=
  match rowAt (replay.rowsOf entry.parent.tokenIndex) entry.deadlineNs with
  | none => entry.referencePriceScaled
  | some (row, _) => row.bestAskScaled.getD entry.referencePriceScaled

/-- Execute one parent BUY through a deterministic causal child policy. -/
def sequentialEntry (tokenIndex : TokenIndex) (decisionNs referencePriceScaled entryToNs : ℤ)
    (maxSpendScaled : Option ℤ) (cash : CashAvailability) (context : SimContext) :
    Except PyError (List ExecutionOutcome × ExecutionObjectiveResult × SimContext) := do
  let (entry, session) ←
    replay.openParent tokenIndex decisionNs referencePriceScaled entryToNs maxSpendScaled cash
  let run ← forLoop (replay.decideChild entry) ⟨session, context, [], 0⟩
    (replay.decisionInstants tokenIndex decisionNs entry.deadlineNs)
  let objective ← run.session.evaluate entry.parent entry.deadlineNs
    (some (replay.deadlineMark entry))
  return (run.outcomes, objective, run.context)

end Replay

/-- The parent seen as one order: the sums of its children. -/
def aggregateEntryOutcomes (targetSharesScaled decisionNs referencePriceScaled : ℤ)
    (outcomes : List ExecutionOutcome) : ExecutionOutcome :=
  let slices := outcomes.flatMap ExecutionOutcome.slices
  let filled := sliceShares slices
  { requestedSharesScaled := targetSharesScaled
    filledSharesScaled := filled
    notionalScaled := sliceNotional slices
    feesScaled := sliceFees slices
    slices := slices
    rejectedReason :=
      if filled = 0 then outcomes.reverse.findSome? ExecutionOutcome.rejectedReason else none
    bindingConstraint := outcomes.reverse.findSome? ExecutionOutcome.bindingConstraint
    arrivalUtcNs :=
      (((outcomes.filter ExecutionOutcome.filled).map ExecutionOutcome.arrivalUtcNs).max?).getD
        decisionNs
    decisionUtcNs := decisionNs
    referencePriceScaled := some referencePriceScaled
    side := .buy }

end PolymarketBt
