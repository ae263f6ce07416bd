import PolymarketBt.Model.FastSim.SequentialEntry
import PolymarketBt.Proofs.FastSim.Send
import PolymarketBt.Proofs.PolicyDecision
import PolymarketBt.ToMathlib.ListSplits

/-! # What the children of one parent can do

The session admits a child only between the start and the deadline of its parent, under the limit of
the parent, and debits every fill. The loop over the decision instants therefore keeps the account
of the parent: what the session still holds and what the children cost add up to what it opened with.
-/

namespace PolymarketBt

open Machine

/-! ## Sums over outcomes -/

def totalShares (outcomes : List ExecutionOutcome) : ℤ :=
  (outcomes.map ExecutionOutcome.filledSharesScaled).sum

def totalNotional (outcomes : List ExecutionOutcome) : ℤ :=
  (outcomes.map ExecutionOutcome.notionalScaled).sum

def totalFees (outcomes : List ExecutionOutcome) : ℤ :=
  (outcomes.map ExecutionOutcome.feesScaled).sum

def totalCost (outcomes : List ExecutionOutcome) : ℤ := (outcomes.map ExecutionOutcome.cost).sum

@[simp] theorem totalCost_nil : totalCost [] = 0 := rfl

@[simp] theorem totalCost_append (first second : List ExecutionOutcome) :
    totalCost (first ++ second) = totalCost first + totalCost second := by
  simp [totalCost]

@[simp] theorem totalCost_cons (outcome : ExecutionOutcome) (rest : List ExecutionOutcome) :
    totalCost (outcome :: rest) = outcome.cost + totalCost rest := by
  simp [totalCost]

theorem totalCost_eq (outcomes : List ExecutionOutcome) :
    totalCost outcomes = totalNotional outcomes + totalFees outcomes := by
  induction outcomes with
  | nil => rfl
  | cons outcome rest ih =>
    simp only [totalNotional, totalFees, totalCost_cons, ih, List.map_cons, List.sum_cons,
      ExecutionOutcome.cost]
    ring

/-- The aggregate of balanced children reports their sums. -/
theorem aggregateEntryOutcomes_balanced {executor : TakerExecutor} (target decisionNs reference : ℤ)
    {outcomes : List ExecutionOutcome} (balanced : ∀ outcome ∈ outcomes, outcome.Balanced executor) :
    let aggregate := aggregateEntryOutcomes target decisionNs reference outcomes
    aggregate.Balanced executor ∧ aggregate.filledSharesScaled = totalShares outcomes ∧
      aggregate.notionalScaled = totalNotional outcomes ∧
      aggregate.feesScaled = totalFees outcomes := by
  intro aggregate
  refine ⟨⟨rfl, rfl, rfl, fun slice member => ?_⟩, ?_⟩
  · obtain ⟨outcome, inOutcomes, inSlices⟩ := List.mem_flatMap.mp member
    exact (balanced outcome inOutcomes).priced slice inSlices
  change sliceShares (outcomes.flatMap ExecutionOutcome.slices) = _ ∧
    sliceNotional (outcomes.flatMap ExecutionOutcome.slices) = _ ∧
    sliceFees (outcomes.flatMap ExecutionOutcome.slices) = _
  clear aggregate
  induction outcomes with
  | nil => exact ⟨rfl, rfl, rfl⟩
  | cons outcome rest ih =>
    have own := balanced outcome (List.mem_cons_self ..)
    obtain ⟨shares, notional, fees⟩ :=
      ih fun other member => balanced other (List.mem_cons_of_mem _ member)
    simp only [List.flatMap_cons, sliceShares_append, sliceNotional_append, sliceFees_append,
      totalShares, totalNotional, totalFees, List.map_cons, List.sum_cons] at *
    rw [shares, notional, fees, own.shares, own.notional, own.fees]
    exact ⟨rfl, rfl, rfl⟩

/-! ## The session -/

/-- A policy slices inside the parent's window, under the parent's limit. -/
theorem SequentialExecutionPolicy.decide_slice {policy : SequentialExecutionPolicy}
    {state : ExecutionState} (slice : (policy.decide state).kind = .takerSlice) :
    state.plan.startUtcNs ≤ state.nowUtcNs ∧ state.nowUtcNs ≤ state.plan.deadlineUtcNs ∧
      (policy.decide state).limitPriceScaled = state.plan.limitPriceScaled := by
  obtain ⟨clear, requested, reason, child, _⟩ := decide_cases slice
  rw [child] at slice ⊢
  exact ⟨clear.started, clear.opened, (PolicyLimits.childAction_slice slice).1⟩

namespace SequentialExecutionSession

variable {parent : ParentOrder} {session after : SequentialExecutionSession}

/-- Deciding moves no money and no shares; a slice is decided in the parent's window. -/
theorem decide_spec {nowUtcNs : ℤ} {bids asks : List (ℤ × ℤ)} {minimum : ℤ} {reference : Option ℤ}
    {action : ExecutionAction}
    (ran : session.decide parent nowUtcNs bids asks minimum reference = .ok (after, action)) :
    after.cashScaled = session.cashScaled ∧
      after.filledSharesScaled = session.filledSharesScaled ∧
      (action.kind = .takerSlice →
        parent.plan.startUtcNs ≤ nowUtcNs ∧ nowUtcNs ≤ parent.plan.deadlineUtcNs ∧
          action.limitPriceScaled = parent.plan.limitPriceScaled) := by
  unfold decide at ran
  obtain ⟨_, _, ran⟩ := Except.bind_eq_ok.mp ran
  obtain ⟨volume, _, ran⟩ := Except.bind_eq_ok.mp ran
  dsimp only at ran
  split at ran
  · obtain ⟨rfl, rfl⟩ := Prod.mk.inj (Except.pure_eq_ok.mp ran)
    exact ⟨rfl, rfl, fun slice => by cases slice⟩
  split at ran
  · obtain ⟨rfl, rfl⟩ := Prod.mk.inj (Except.pure_eq_ok.mp ran)
    exact ⟨rfl, rfl, fun slice => by cases slice⟩
  obtain ⟨_, _, ran⟩ := Except.bind_eq_ok.mp ran
  split at ran
  · next waits =>
    obtain ⟨rfl, rfl⟩ := Prod.mk.inj (Except.pure_eq_ok.mp ran)
    exact ⟨rfl, rfl, fun slice => by rw [waits] at slice; cases slice⟩
  · obtain ⟨rfl, rfl⟩ := Prod.mk.inj (Except.pure_eq_ok.mp ran)
    exact ⟨rfl, rfl, fun slice => SequentialExecutionPolicy.decide_slice slice⟩

/-- Fills of a buy are debited in full, and only while the session can pay them. -/
theorem applyFills_buy {action : ExecutionAction} {fills : List ExecutionFill} {notional fees : ℤ}
    (buys : parent.plan.side = .buy)
    (ran : session.applyFills parent action fills notional fees = .ok after) :
    after.cashScaled = session.cashScaled - (notional + fees) ∧
      notional + fees ≤ session.cashScaled ∧
      after.filledSharesScaled =
        session.filledSharesScaled + (fills.map ExecutionFill.sharesScaled).sum := by
  unfold applyFills at ran
  dsimp only at ran
  obtain ⟨_, _, ran⟩ := Except.bind_eq_ok.mp ran
  obtain ⟨_, _, ran⟩ := Except.bind_eq_ok.mp ran
  rw [buys] at ran
  dsimp only at ran
  obtain ⟨_, solvent, ran⟩ := Except.bind_eq_ok.mp ran
  obtain rfl := Except.pure_eq_ok.mp ran
  exact ⟨rfl, require_eq_ok.mp solvent, rfl⟩

theorem recordOutcome_buy {outcome : ExecutionOutcome} (buys : parent.plan.side = .buy)
    (ran : session.recordOutcome parent outcome = .ok after) :
    after.cashScaled = session.cashScaled - outcome.cost ∧ outcome.cost ≤ session.cashScaled ∧
      after.filledSharesScaled = session.filledSharesScaled + outcome.filledSharesScaled := by
  unfold recordOutcome at ran
  split at ran
  · obtain ⟨_, _, ran⟩ := Except.bind_eq_ok.mp ran
    obtain ⟨_, _, ran⟩ := Except.bind_eq_ok.mp ran
    obtain ⟨_, _, ran⟩ := Except.bind_eq_ok.mp ran
    obtain ⟨_, _, ran⟩ := Except.bind_eq_ok.mp ran
    obtain ⟨_, shares, ran⟩ := Except.bind_eq_ok.mp ran
    obtain ⟨_, _, ran⟩ := Except.bind_eq_ok.mp ran
    obtain ⟨_, _, ran⟩ := Except.bind_eq_ok.mp ran
    dsimp only at ran
    obtain ⟨_, _, ran⟩ := Except.bind_eq_ok.mp ran
    obtain ⟨applied, appliedRan, ran⟩ := Except.bind_eq_ok.mp ran
    obtain rfl := Except.pure_eq_ok.mp ran
    obtain ⟨cash, solvent, filled⟩ := applyFills_buy buys appliedRan
    refine ⟨cash, solvent, filled.trans ?_⟩
    rw [← require_eq_ok.mp shares, List.map_map]
    rfl
  · cases ran

end SequentialExecutionSession

namespace Replay

variable {replay : Replay}

/-- The plan of a parent entry: a buy with a limit, between its decision and its deadline. -/
structure Plans (entry : ParentEntry) (decisionNs deadlineNs limit : ℤ) : Prop where
  side : entry.parent.plan.side = .buy
  limit : entry.parent.plan.limitPriceScaled = some limit
  start : entry.parent.plan.startUtcNs = decisionNs
  deadline : entry.parent.plan.deadlineUtcNs = deadlineNs
  horizon : entry.deadlineNs = deadlineNs

/-- A child of a parent with this plan. -/
structure Child (replay : Replay) (decisionNs deadlineNs limit : ℤ) (outcome : ExecutionOutcome) :
    Prop where
  balanced : outcome.Balanced replay.executor
  side : outcome.side = .buy
  inside : ∀ slice ∈ outcome.slices, slice.priceScaled ≤ limit
  decided : decisionNs ≤ outcome.decisionUtcNs ∧ outcome.decisionUtcNs ≤ deadlineNs
  arrived : 0 ≤ replay.takerDelayNs → outcome.decisionUtcNs ≤ outcome.arrivalUtcNs
  open_market : outcome.filled = true → outcome.arrivalUtcNs < replay.tape.episode.endUtcNs
  deadline : outcome.filled = true → outcome.arrivalUtcNs ≤ deadlineNs

/-- Every filled child and its elder siblings fit the cash there is at its arrival. -/
def Affordable (cash : CashAvailability) (outcomes : List ExecutionOutcome) : Prop :=
  ∀ past outcome future, outcomes = past ++ outcome :: future → outcome.filled = true →
    ∃ available, cashAt cash outcome.arrivalUtcNs = .ok available ∧
      ∀ balance ∈ available, totalCost past + outcome.cost ≤ balance

/-- The account of a parent after some of its decision instants. -/
structure Worked (replay : Replay) (entry : ParentEntry) (decisionNs deadlineNs limit openingCash : ℤ)
    (run : ParentRun) : Prop where
  children : ∀ outcome ∈ run.outcomes, replay.Child decisionNs deadlineNs limit outcome
  spent : run.externallySpent = totalCost run.outcomes
  account : run.session.cashScaled + totalCost run.outcomes = openingCash
  solvent : 0 ≤ run.session.cashScaled
  affordable : Affordable entry.cash run.outcomes

theorem Affordable.concat {cash : CashAvailability} {outcomes : List ExecutionOutcome}
    (earlier : Affordable cash outcomes) {outcome : ExecutionOutcome}
    (last : outcome.filled = true → ∃ available, cashAt cash outcome.arrivalUtcNs = .ok available ∧
      ∀ balance ∈ available, totalCost outcomes + outcome.cost ≤ balance) :
    Affordable cash (outcomes ++ [outcome]) := by
  intro past other future split filled
  rcases List.concat_eq_append_cons_iff.mp split with ⟨_, rfl, rfl⟩ | ⟨middle, _, before⟩
  · exact last filled
  · exact earlier past other middle before filled

/-- What the balance a child sees leaves room for, its elder siblings' spending included. -/
theorem childCash_available {entry : ParentEntry} {session : SequentialExecutionSession}
    {spent arrivalNs cost : ℤ} {seen : Option ℤ}
    (ran : cashAt (some (childCash entry session spent)) arrivalNs = .ok seen)
    (fits : ∀ balance ∈ seen, 0 < balance ∧ cost ≤ balance) :
    ∃ available, cashAt entry.cash arrivalNs = .ok available ∧
      ∀ balance ∈ available, spent + cost ≤ balance := by
  obtain ⟨value, childRan, rest⟩ := Except.bind_eq_ok.mp ran
  obtain rfl := Except.pure_eq_ok.mp rest
  obtain ⟨external, externalRan, rest⟩ := Except.bind_eq_ok.mp childRan
  obtain rfl := Except.pure_eq_ok.mp rest
  obtain ⟨positive, within⟩ := fits _ rfl
  refine ⟨external, externalRan, ?_⟩
  rintro balance rfl
  rw [Option.getD_some] at positive within
  omega

theorem workChild_spec {entry : ParentEntry} {decisionNs deadlineNs limit openingCash : ℤ}
    {run : ParentRun} (plans : Plans entry decisionNs deadlineNs limit)
    (worked : replay.Worked entry decisionNs deadlineNs limit openingCash run) {nowNs : ℤ}
    {action : ExecutionAction} (window : decisionNs ≤ nowNs ∧ nowNs ≤ deadlineNs)
    (limited : action.limitPriceScaled = some limit) {flow : Flow ParentRun}
    (ran : replay.workChild entry run nowNs action = .ok flow) :
    replay.Worked entry decisionNs deadlineNs limit openingCash flow.state := by
  obtain ⟨⟨outcome, context⟩, sent, ran⟩ := Except.bind_eq_ok.mp ran
  obtain ⟨session, recorded, ran⟩ := Except.bind_eq_ok.mp ran
  have sends := send_spec sent
  obtain ⟨cash, affordable, _⟩ := SequentialExecutionSession.recordOutcome_buy plans.side recorded
  have state : flow.state =
      ⟨session, context, run.outcomes ++ [outcome], run.externallySpent + outcome.cost⟩ := by
    obtain rfl := Except.pure_eq_ok.mp ran
    split <;> rfl
  rw [state]
  refine ⟨?_, ?_, ?_, ?_, ?_⟩
  · intro other member
    rcases List.mem_append.mp member with earlier | last
    · exact worked.children other earlier
    obtain rfl := List.mem_singleton.mp last
    refine ⟨sends.balanced, sends.side, fun slice inSlices => ?_, ?_, ?_, sends.open_market, ?_⟩
    · have inside := sends.inside slice inSlices
      change Side.buy.beyond action.limitPriceScaled slice.priceScaled = false at inside
      rw [limited] at inside
      simpa [Side.beyond] using inside
    · rw [sends.decided]
      exact window
    · rw [sends.decided]
      exact sends.arrived
    · intro filled
      exact sends.deadline filled deadlineNs (congrArg some plans.horizon)
  · simp [worked.spent]
  · simp only [totalCost_append, totalCost_cons, totalCost_nil, cash]
    have := worked.account
    omega
  · dsimp only
    omega
  · refine worked.affordable.concat fun filled => ?_
    obtain ⟨seen, seenRan, fits⟩ := sends.cash rfl filled
    obtain ⟨available, availableRan, room⟩ := childCash_available seenRan fits
    rw [worked.spent] at room
    exact ⟨available, availableRan, room⟩

theorem decideChild_spec {entry : ParentEntry} {decisionNs deadlineNs limit openingCash : ℤ}
    {run : ParentRun} (plans : Plans entry decisionNs deadlineNs limit)
    (worked : replay.Worked entry decisionNs deadlineNs limit openingCash run) {nowNs : ℤ}
    {flow : Flow ParentRun} (ran : replay.decideChild entry run nowNs = .ok flow) :
    replay.Worked entry decisionNs deadlineNs limit openingCash flow.state := by
  unfold decideChild at ran
  dsimp only at ran
  split at ran
  · cases ran
    exact worked
  next row position _ =>
  split at ran
  · cases ran
    exact worked
  obtain ⟨⟨session, action⟩, decided, ran⟩ := Except.bind_eq_ok.mp ran
  obtain ⟨cash, _, slice⟩ := SequentialExecutionSession.decide_spec decided
  have kept : replay.Worked entry decisionNs deadlineNs limit openingCash
      { run with
        session := session
        context := reconcileSelfImpact (replay.rowsOf entry.parent.tokenIndex)
          entry.parent.tokenIndex position run.context } :=
    ⟨worked.children, worked.spent, cash ▸ worked.account, cash ▸ worked.solvent, worked.affordable⟩
  dsimp only at ran
  split at ran
  · obtain rfl := Except.pure_eq_ok.mp ran
    exact kept
  · next slices =>
    obtain ⟨start, deadline, limited⟩ := slice slices
    rw [plans.start] at start
    rw [plans.deadline] at deadline
    rw [plans.limit] at limited
    exact workChild_spec plans kept ⟨start, deadline⟩ limited ran

/-- What opening a parent fixes. -/
theorem openParent_spec {tokenIndex : TokenIndex} {decisionNs reference entryToNs : ℤ}
    {maxSpend : Option ℤ} {cash : CashAvailability} {entry : ParentEntry}
    {session : SequentialExecutionSession}
    (ran : replay.openParent tokenIndex decisionNs reference entryToNs maxSpend cash =
      .ok (entry, session)) :
    Plans entry decisionNs (replay.executionDeadlineNs decisionNs entryToNs)
        replay.params.entryLimitPriceScaled ∧
      entry.cash = cash ∧ 0 ≤ session.cashScaled ∧
      ∀ spend ∈ maxSpend, session.cashScaled = spend := by
  unfold openParent at ran
  obtain ⟨target, _, ran⟩ := Except.bind_eq_ok.mp ran
  dsimp only at ran
  obtain ⟨_, _, ran⟩ := Except.bind_eq_ok.mp ran
  obtain ⟨_, _, ran⟩ := Except.bind_eq_ok.mp ran
  obtain ⟨_, _, ran⟩ := Except.bind_eq_ok.mp ran
  obtain ⟨volume, _, ran⟩ := Except.bind_eq_ok.mp ran
  obtain ⟨opening, openingRan, ran⟩ := Except.bind_eq_ok.mp ran
  obtain ⟨opened, openedRan, ran⟩ := Except.bind_eq_ok.mp ran
  obtain ⟨rfl, rfl⟩ := Prod.mk.inj (Except.pure_eq_ok.mp ran)
  unfold SequentialExecutionSession.init at openedRan
  obtain ⟨_, nonneg, openedRan⟩ := Except.bind_eq_ok.mp openedRan
  obtain ⟨_, _, openedRan⟩ := Except.bind_eq_ok.mp openedRan
  obtain ⟨_, _, openedRan⟩ := Except.bind_eq_ok.mp openedRan
  obtain rfl := Except.pure_eq_ok.mp openedRan
  refine ⟨⟨rfl, rfl, rfl, rfl, rfl⟩, rfl, require_eq_ok.mp nonneg, ?_⟩
  rintro spend rfl
  exact (Except.ok.inj openingRan).symm

/-- The children of a completed parent. -/
structure Parented (replay : Replay) (decisionNs deadlineNs : ℤ) (maxSpend : Option ℤ)
    (cash : CashAvailability) (outcomes : List ExecutionOutcome) : Prop where
  children : ∀ outcome ∈ outcomes,
    replay.Child decisionNs deadlineNs replay.params.entryLimitPriceScaled outcome
  budget : ∀ spend ∈ maxSpend, totalCost outcomes ≤ spend
  affordable : Affordable cash outcomes

theorem sequentialEntry_spec {tokenIndex : TokenIndex} {decisionNs reference entryToNs : ℤ}
    {maxSpend : Option ℤ} {cash : CashAvailability} {context after : SimContext}
    {outcomes : List ExecutionOutcome} {objective : ExecutionObjectiveResult}
    (ran : replay.sequentialEntry tokenIndex decisionNs reference entryToNs maxSpend cash context =
      .ok (outcomes, objective, after)) :
    replay.Parented decisionNs (replay.executionDeadlineNs decisionNs entryToNs) maxSpend cash
      outcomes := by
  obtain ⟨⟨entry, session⟩, opened, ran⟩ := Except.bind_eq_ok.mp ran
  obtain ⟨run, looped, ran⟩ := Except.bind_eq_ok.mp ran
  obtain ⟨_, _, ran⟩ := Except.bind_eq_ok.mp ran
  obtain ⟨rfl, _⟩ := Prod.mk.inj (Except.pure_eq_ok.mp ran)
  obtain ⟨plans, rfl, solvent, opening⟩ := openParent_spec opened
  have start : replay.Worked entry decisionNs (replay.executionDeadlineNs decisionNs entryToNs)
      replay.params.entryLimitPriceScaled session.cashScaled ⟨session, context, [], 0⟩ := by
    refine ⟨by simp, rfl, by simp, solvent, fun past outcome future split => ?_⟩
    simp at split
  have worked := forLoop_invariant
    (replay.Worked entry decisionNs (replay.executionDeadlineNs decisionNs entryToNs)
      replay.params.entryLimitPriceScaled session.cashScaled)
    start (fun state now flow _ worked stepped => decideChild_spec plans worked stepped) looped
  refine ⟨worked.children, fun spend limited => ?_, worked.affordable⟩
  have := worked.account
  have := worked.solvent
  have := opening spend limited
  omega

end Replay

end PolymarketBt
