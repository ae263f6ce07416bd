import PolymarketBt.Proofs.FastSim.SentOrders

/-! # Arrivals under a constant delay

With a constant or disabled latency every order meets the book one fixed delay after its decision.
An iteration of the main loop therefore adds only orders that arrive at least that delay after the
row it visits.
-/

namespace PolymarketBt

open Machine

namespace Replay

variable {replay : Replay} {delay : ℤ}

/-- Every latency draw, with the delay of the venue, takes the same time. -/
def Delays (replay : Replay) (delay : ℤ) : Prop :=
  ∀ draw latency, replay.executor.realism.latency.sampleNs replay.executor.draws draw = .ok latency →
    latency + replay.takerDelayNs = delay

/-- A latency that draws nothing at random. -/
def Deterministic (config : LatencyConfig) : Prop :=
  config = .disabled ∨ ∃ constantMs, config = .constant constantMs

theorem delays_of_deterministic (venue : 0 ≤ replay.takerDelayNs)
    (deterministic : Deterministic replay.executor.realism.latency) :
    ∃ delay, replay.Delays delay ∧ 0 ≤ delay := by
  rcases deterministic with disabled | ⟨constantMs, constant⟩
  · refine ⟨0 + replay.takerDelayNs, fun draw latency ran => ?_, by omega⟩
    rw [disabled] at ran
    cases ran
    rfl
  · refine ⟨max 0 (constantMs * 1000000) + replay.takerDelayNs, fun draw latency ran => ?_, by omega⟩
    rw [constant] at ran
    cases ran
    rfl

theorem arrive_spec (delays : replay.Delays delay) {request : OrderRequest}
    {context drawn : SimContext} {arrivalNs : ℤ}
    (ran : replay.arrive request context = .ok (arrivalNs, drawn)) :
    arrivalNs = request.decisionNs + delay := by
  obtain ⟨latency, sampled, ran⟩ := Except.bind_eq_ok.mp ran
  obtain ⟨rfl, _⟩ := Prod.mk.inj (Except.pure_eq_ok.mp ran)
  have := delays _ latency sampled
  omega

theorem send_arrival (delays : replay.Delays delay) {request : OrderRequest}
    {context after : SimContext} {outcome : ExecutionOutcome}
    (ran : replay.send request context = .ok (outcome, after)) :
    outcome.arrivalUtcNs = request.decisionNs + delay := by
  obtain ⟨⟨arrivalNs, drawn⟩, arrived, ran⟩ := Except.bind_eq_ok.mp ran
  obtain ⟨latency, sampled, shape⟩ := Except.bind_eq_ok.mp arrived
  obtain ⟨same, _⟩ := Prod.mk.inj (Except.pure_eq_ok.mp shape)
  have nonneg := sampleNs_nonneg sampled
  rw [← arrive_spec delays arrived]
  exact (sendAt_spec (fun venue => by omega) ran).2

theorem SentAt.arrival (delays : replay.Delays delay) {decisionNs : ℤ} {outcome : ExecutionOutcome}
    (sent : replay.SentAt decisionNs outcome) : outcome.arrivalUtcNs = decisionNs + delay := by
  obtain ⟨request, context, after, rfl, ran⟩ := sent
  exact send_arrival delays ran

/-- A decision instant sends nothing, or, from the start of the parent on, one child that arrives the
delay after it. -/
theorem decideChild_sent (delays : replay.Delays delay) {entry : ParentEntry} {run : ParentRun}
    {nowNs : ℤ} {flow : Flow ParentRun} (ran : replay.decideChild entry run nowNs = .ok flow) :
    flow.state.outcomes = run.outcomes ∨
      ∃ outcome, flow.state.outcomes = run.outcomes ++ [outcome] ∧
        entry.parent.plan.startUtcNs ≤ nowNs ∧ outcome.arrivalUtcNs = nowNs + delay := by
  refine (decideChild_sends ran).imp_right ?_
  rintro ⟨outcome, same, start, sent⟩
  exact ⟨outcome, same, start, sent.arrival delays⟩

/-- The orders one iteration added to those sent before it. -/
def Adds (state : RunState) (after : RunState) (arrivalNs : ℤ) : Prop :=
  ∃ fresh, after.sent = state.sent ++ fresh ∧
    ∀ order ∈ fresh, arrivalNs ≤ order.outcome.arrivalUtcNs

/-- What one iteration adds arrives at least the delay after the row it visits. -/
theorem step_adds (delays : replay.Delays delay) {cash : CashAvailability} {state : RunState}
    {row : TapeRow} {flow : Flow RunState} (ran : replay.step cash state row = .ok flow) :
    Adds state flow.state (row.receivedUtcNs + delay) := by
  obtain ⟨fresh, same, since⟩ := step_sendsSince ran
  refine ⟨fresh, same, fun order member => ?_⟩
  obtain ⟨decisionNs, late, sent⟩ := since order member
  rw [sent.arrival delays]
  omega

end Replay

end PolymarketBt
