import PolymarketBt.Proofs.FastSim.Run
import PolymarketBt.Proofs.FastSim.SendReturns

/-! # The orders of a run were sent

Whatever path an iteration takes, the orders it adds are outcomes of orders sent at or after the row
it visits. What holds of every sent order therefore holds of every order of a run.
-/

namespace PolymarketBt

open Machine

/-- At prices of the venue an outcome costs nothing negative. -/
theorem ExecutionOutcome.Balanced.cost_nonneg {executor : TakerExecutor} {outcome : ExecutionOutcome}
    (balanced : outcome.Balanced executor) (priced : ∀ slice ∈ outcome.slices, Tradable slice.priceScaled) :
    0 ≤ outcome.cost := by
  have notional : 0 ≤ sliceNotional outcome.slices := by
    refine List.sum_nonneg fun amount member => ?_
    obtain ⟨slice, inSlices, rfl⟩ := List.mem_map.mp member
    have sized := (balanced.priced slice inSlices).size_pos.le
    exact notionalScaled_nonneg sized (priced slice inSlices).1.le (balanced.priced slice inSlices).notional
  have fees : 0 ≤ sliceFees outcome.slices := by
    refine List.sum_nonneg fun amount member => ?_
    obtain ⟨slice, inSlices, rfl⟩ := List.mem_map.mp member
    exact FeeModel.calculate_nonneg (balanced.priced slice inSlices).fee
  rw [ExecutionOutcome.cost, balanced.notional, balanced.fees]
  exact add_nonneg notional fees

namespace Replay

variable {replay : Replay} {cash : CashAvailability}

/-- The outcome of an order decided at an instant. -/
def SentAt (replay : Replay) (decisionNs : ℤ) (outcome : ExecutionOutcome) : Prop :=
  ∃ request context after, request.decisionNs = decisionNs ∧
    replay.send request context = .ok (outcome, after)

/-- The outcome of an order decided at or after an instant. -/
def SentSince (replay : Replay) (instant : ℤ) (outcome : ExecutionOutcome) : Prop :=
  ∃ decisionNs, instant ≤ decisionNs ∧ replay.SentAt decisionNs outcome

theorem SentAt.of_send {request : OrderRequest} {context after : SimContext}
    {outcome : ExecutionOutcome} (ran : replay.send request context = .ok (outcome, after)) :
    replay.SentAt request.decisionNs outcome := ⟨request, context, after, rfl, ran⟩

theorem SentAt.since {decisionNs : ℤ} {outcome : ExecutionOutcome}
    (sent : replay.SentAt decisionNs outcome) : replay.SentSince decisionNs outcome :=
  ⟨decisionNs, le_rfl, sent⟩

/-! ## Children -/

/-- A decision instant sends nothing, or one child, from the start of the parent on. -/
theorem decideChild_sends {entry : ParentEntry} {run : ParentRun} {nowNs : ℤ} {flow : Flow ParentRun}
    (ran : replay.decideChild entry run nowNs = .ok flow) :
    flow.state.outcomes = run.outcomes ∨
      ∃ outcome, flow.state.outcomes = run.outcomes ++ [outcome] ∧
        entry.parent.plan.startUtcNs ≤ nowNs ∧ replay.SentAt nowNs outcome := by
  unfold decideChild at ran
  dsimp only at ran
  split at ran
  · cases ran
    exact .inl rfl
  split at ran
  · cases ran
    exact .inl rfl
  obtain ⟨⟨session, action⟩, decided, ran⟩ := Except.bind_eq_ok.mp ran
  obtain ⟨_, _, slice⟩ := SequentialExecutionSession.decide_spec decided
  dsimp only at ran
  split at ran
  · obtain rfl := Except.pure_eq_ok.mp ran
    exact .inl rfl
  · next slices =>
    obtain ⟨⟨outcome, context⟩, sent, ran⟩ := Except.bind_eq_ok.mp ran
    obtain ⟨recorded, _, ran⟩ := Except.bind_eq_ok.mp ran
    refine .inr ⟨outcome, ?_, (slice slices).1, .of_send sent⟩
    obtain rfl := Except.pure_eq_ok.mp ran
    split <;> rfl

theorem sequentialEntry_sends {tokenIndex : TokenIndex} {decisionNs reference entryToNs : ℤ}
    {maxSpend : Option ℤ} {context after : SimContext} {outcomes : List ExecutionOutcome}
    {objective : ExecutionObjectiveResult}
    (ran : replay.sequentialEntry tokenIndex decisionNs reference entryToNs maxSpend cash context =
      .ok (outcomes, objective, after)) :
    ∀ outcome ∈ outcomes, replay.SentSince decisionNs outcome := by
  obtain ⟨⟨entry, session⟩, opened, ran⟩ := Except.bind_eq_ok.mp ran
  obtain ⟨run, looped, ran⟩ := Except.bind_eq_ok.mp ran
  obtain ⟨_, _, ran⟩ := Except.bind_eq_ok.mp ran
  obtain ⟨rfl, _⟩ := Prod.mk.inj (Except.pure_eq_ok.mp ran)
  obtain ⟨plans, _⟩ := openParent_spec opened
  refine forLoop_invariant (fun run => ∀ outcome ∈ run.outcomes, replay.SentSince decisionNs outcome)
    (by simp) (fun state now flow _ earlier stepped => ?_) looped
  rcases decideChild_sends stepped with same | ⟨outcome, same, start, sent⟩
  · rw [same]
    exact earlier
  · rw [same]
    intro other inOutcomes
    rcases List.mem_append.mp inOutcomes with old | last
    · exact earlier other old
    · obtain rfl := List.mem_singleton.mp last
      rw [plans.start] at start
      exact ⟨now, start, sent⟩

/-! ## One iteration -/

/-- The orders one iteration added to those sent before it were sent from an instant on. -/
def SendsSince (replay : Replay) (state after : RunState) (instant : ℤ) : Prop :=
  ∃ fresh, after.sent = state.sent ++ fresh ∧
    ∀ order ∈ fresh, replay.SentSince instant order.outcome

theorem SendsSince.nothing {state after : RunState} {instant : ℤ} (same : after.sent = state.sent) :
    replay.SendsSince state after instant :=
  ⟨[], by simp [same], by simp⟩

/-- An exit that is sent is sent at the instant of its row. -/
theorem maybeExit_sends {state : RunState} {row : TapeRow} {sent : SentOrder} {context : SimContext}
    (ran : replay.maybeExit state row = .ok (some sent, context)) :
    replay.SentAt row.receivedUtcNs sent.outcome := by
  unfold maybeExit at ran
  split at ran
  · cases ran
  split at ran
  · cases ran
  obtain ⟨⟨outcome, reached⟩, sendRan, ran⟩ := Except.bind_eq_ok.mp ran
  obtain ⟨same, _⟩ := Prod.mk.inj (Except.pure_eq_ok.mp ran)
  obtain rfl := Option.some.inj same
  exact .of_send sendRan

@[simp] theorem bookExit_sent (state : RunState) (sent : SentOrder) :
    (bookExit state sent).sent = state.sent := by
  unfold bookExit
  dsimp only
  split <;> rfl

@[simp] theorem rearm_sent (state : RunState) (sent : SentOrder) (timestamp : ℤ) :
    (replay.rearm state sent timestamp).sent = state.sent := rfl

theorem exitStep_sends {state : RunState} {row : TapeRow} {flow : Flow RunState}
    (ran : replay.exitStep state row = .ok flow) :
    replay.SendsSince state flow.state row.receivedUtcNs := by
  obtain ⟨⟨order, context⟩, exitRan, ran⟩ := Except.bind_eq_ok.mp ran
  dsimp only at ran
  cases order with
  | none =>
    obtain rfl := Except.pure_eq_ok.mp ran
    exact .nothing rfl
  | some sent =>
    obtain ⟨stateIs, _⟩ := stops_flat (Except.pure_eq_ok.mp ran)
    refine ⟨[sent], by rw [stateIs, rearm_sent, bookExit_sent], fun order member => ?_⟩
    obtain rfl := List.mem_singleton.mp member
    exact (maybeExit_sends exitRan).since

theorem attemptEntry_sendsSince {state : RunState} {row : TapeRow} {ask : ℤ} {spend : Option ℤ}
    {limited : Bool} {attempt : EntryAttempt}
    (ran : replay.attemptEntry cash state row ask spend limited = .ok attempt) :
    replay.SendsSince state attempt.state row.receivedUtcNs := by
  unfold attemptEntry at ran
  split at ran
  · obtain ⟨shares, _, ran⟩ := Except.bind_eq_ok.mp ran
    obtain ⟨⟨outcome, context⟩, sent, ran⟩ := Except.bind_eq_ok.mp ran
    obtain rfl := Except.pure_eq_ok.mp ran
    refine ⟨[_], rfl, fun order member => ?_⟩
    obtain rfl := List.mem_singleton.mp member
    exact (SentAt.of_send sent).since
  · obtain ⟨⟨children, objective, context⟩, entryRan, ran⟩ := Except.bind_eq_ok.mp ran
    obtain rfl := Except.pure_eq_ok.mp ran
    refine ⟨_, rfl, fun order member => ?_⟩
    obtain ⟨child, inChildren, rfl⟩ := List.mem_map.mp member
    exact sequentialEntry_sends entryRan child inChildren

theorem openPosition_sent {attempt : EntryAttempt} {tokenIndex : TokenIndex} {opened : RunState}
    (ran : replay.openPosition attempt tokenIndex = .ok opened) : opened.sent = attempt.state.sent := by
  obtain ⟨_, _, ran⟩ := Except.bind_eq_ok.mp ran
  obtain rfl := Except.pure_eq_ok.mp ran
  rfl

theorem entryStep_sends {state : RunState} {row : TapeRow} {flow : Flow RunState}
    (ran : replay.entryStep cash state row = .ok flow) :
    replay.SendsSince state flow.state row.receivedUtcNs := by
  unfold entryStep at ran
  split at ran
  · cases ran
    exact .nothing rfl
  obtain ⟨⟨spend, limited⟩, _, ran⟩ := Except.bind_eq_ok.mp ran
  dsimp only at ran
  split at ran
  · obtain rfl := Except.pure_eq_ok.mp ran
    exact .nothing rfl
  obtain ⟨attempt, attemptRan, ran⟩ := Except.bind_eq_ok.mp ran
  have sends := attemptEntry_sendsSince attemptRan
  split at ran
  · obtain ⟨opened, openedRan, ran⟩ := Except.bind_eq_ok.mp ran
    obtain rfl := Except.pure_eq_ok.mp ran
    obtain ⟨fresh, same, since⟩ := sends
    exact ⟨fresh, (openPosition_sent openedRan).trans same, since⟩
  · obtain rfl := Except.pure_eq_ok.mp ran
    exact sends

theorem step_sendsSince {state : RunState} {row : TapeRow} {flow : Flow RunState}
    (ran : replay.step cash state row = .ok flow) :
    replay.SendsSince state flow.state row.receivedUtcNs := by
  unfold step at ran
  split at ran
  · cases ran
    exact .nothing rfl
  split at ran
  · exact exitStep_sends ran
  · exact entryStep_sends ran

/-! ## Whole runs -/

/-- Every order of a completed replay is the outcome of an order it sent. -/
theorem trace_sends {final : RunState} (ran : replay.trace cash = .ok final) :
    ∀ order ∈ final.sent, ∃ decisionNs, replay.SentAt decisionNs order.outcome := by
  refine forLoop_invariant
    (fun state => ∀ order ∈ state.sent, ∃ decisionNs, replay.SentAt decisionNs order.outcome)
    (by simp [initialState]) (fun state row flow _ earlier stepped => ?_) ran
  obtain ⟨fresh, same, since⟩ := step_sendsSince stepped
  rw [same]
  intro order member
  rcases List.mem_append.mp member with old | new
  · exact earlier order old
  · obtain ⟨decisionNs, _, sent⟩ := since order new
    exact ⟨decisionNs, sent⟩

/-- On books at prices of the venue every sent order is filled at such prices. -/
theorem SentAt.priced (priced : ∀ row ∈ replay.tape.rows, ∀ side, PricedLadder (row.ladder side))
    {decisionNs : ℤ} {outcome : ExecutionOutcome} (sent : replay.SentAt decisionNs outcome) :
    ∀ slice ∈ outcome.slices, Tradable slice.priceScaled := by
  obtain ⟨request, context, after, _, ran⟩ := sent
  obtain ⟨⟨arrivalNs, drawn⟩, _, ran⟩ := Except.bind_eq_ok.mp ran
  dsimp only at ran
  unfold sendAt at ran
  split at ran
  · cases ran
    simp [refuseAt, ExecutionOutcome.rejected]
  split at ran
  · cases ran
    simp [refuseAt, ExecutionOutcome.rejected]
  obtain ⟨available, _, ran⟩ := Except.bind_eq_ok.mp ran
  split at ran
  · cases Except.pure_eq_ok.mp ran
    simp [refuseAt, ExecutionOutcome.rejected]
  split at ran
  · cases Except.pure_eq_ok.mp ran
    simp [refuseAt, ExecutionOutcome.rejected]
  next entry met =>
  split at ran
  · cases Except.pure_eq_ok.mp ran
    simp [refuseAt, ExecutionOutcome.rejected]
  obtain ⟨matched, _⟩ := matchAt_spec ran
  exact matched.drawn.priced (seenLadder_priced _ _ (priced entry.1 (mem_rows_of_rowAt met) _))

end Replay

end PolymarketBt
