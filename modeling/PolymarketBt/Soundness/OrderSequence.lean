import PolymarketBt.Proofs.FastSim.Delay
import PolymarketBt.Proofs.SessionCalls
import PolymarketBt.Soundness.EpisodeLedger

/-! # The strategy waits for its last order

An order is decided behind a guard: a position's effective time, the cooldown of an entry, or the
not-before instant of a parent's session. Children wait for one another. Between parents and exits
the guard can open while the last order is still in flight: an unfilled entry is retried after a
cooldown shorter than its latency, one short of cash is retried at once, and the last child of a
parent may arrive after the parent's deadline.
-/

namespace PolymarketBt

open Machine

/-- The next order is decided when the previous one has reached the venue. -/
def Follows (previous next : ExecutionOutcome) : Prop := previous.arrivalUtcNs ≤ next.decisionUtcNs

namespace Replay

variable {replay : Replay} {cash : CashAvailability}

/-! ## The children of a parent -/

/-- The children so far follow one another, and the session waits for the last of them. -/
structure InSequence (run : ParentRun) : Prop where
  chain : run.outcomes.IsChain Follows
  waits : ∀ last ∈ run.outcomes.getLast?,
    last.arrivalUtcNs ≤ run.session.nextDecisionNotBeforeUtcNs

theorem isChain_concat {outcomes : List ExecutionOutcome} {next : ExecutionOutcome}
    (chain : outcomes.IsChain Follows) (follows : ∀ last ∈ outcomes.getLast?, Follows last next) :
    (outcomes ++ [next]).IsChain Follows := by
  refine List.isChain_append.mpr ⟨chain, List.isChain_singleton _, fun last isLast head isHead => ?_⟩
  obtain rfl := Option.some.inj isHead
  exact follows last isLast

theorem workChild_inSequence {entry : ParentEntry} {run : ParentRun} {nowNs : ℤ}
    {action : ExecutionAction} {flow : Flow ParentRun} (chain : run.outcomes.IsChain Follows)
    (arrived : ∀ last ∈ run.outcomes.getLast?, last.arrivalUtcNs ≤ nowNs)
    (ran : replay.workChild entry run nowNs action = .ok flow) : InSequence flow.state := by
  obtain ⟨⟨outcome, context⟩, sent, ran⟩ := Except.bind_eq_ok.mp ran
  obtain ⟨session, recorded, ran⟩ := Except.bind_eq_ok.mp ran
  have decided := (send_spec sent).decided
  have completes := @SessionMethod.recordOutcome_returned entry.parent _ _ _
    ((SessionMethod.recordOutcome_perform outcome).trans
      (congrArg (RaisingMethod.settle run.session) recorded))
  have state : flow.state =
      ⟨session, context, run.outcomes ++ [outcome], run.externallySpent + outcome.cost⟩ := by
    obtain rfl := Except.pure_eq_ok.mp ran
    split <;> rfl
  rw [state]
  refine ⟨isChain_concat chain fun last isLast => ?_, fun last isLast => ?_⟩
  · exact (arrived last isLast).trans decided.ge
  · rw [List.getLast?_concat] at isLast
    obtain rfl := Option.some.inj isLast
    exact (le_max_right _ _).trans completes.notBefore.ge

theorem decideChild_inSequence {entry : ParentEntry} {run : ParentRun} {nowNs : ℤ}
    {flow : Flow ParentRun} (sequence : InSequence run)
    (ran : replay.decideChild entry run nowNs = .ok flow) : InSequence flow.state := by
  unfold decideChild at ran
  dsimp only at ran
  split at ran
  · cases ran
    exact sequence
  split at ran
  · cases ran
    exact sequence
  obtain ⟨⟨session, action⟩, decided, ran⟩ := Except.bind_eq_ok.mp ran
  have decides := SessionMethod.decide_decides (SessionMethod.decide_perform.mpr decided)
  dsimp only at ran
  split at ran
  · obtain rfl := Except.pure_eq_ok.mp ran
    refine ⟨sequence.chain, fun last isLast => ?_⟩
    exact (sequence.waits last isLast).trans decides.notBefore.ge
  · next slices =>
    refine workChild_inSequence ?_ (fun last isLast => ?_) ran
    · exact sequence.chain
    · exact (sequence.waits last isLast).trans (decides.issues action rfl slices).2.1

theorem sequentialEntry_inSequence {tokenIndex : TokenIndex} {decisionNs reference entryToNs : ℤ}
    {maxSpend : Option ℤ} {context after : SimContext} {outcomes : List ExecutionOutcome}
    {objective : ExecutionObjectiveResult}
    (ran : replay.sequentialEntry tokenIndex decisionNs reference entryToNs maxSpend cash context =
      .ok (outcomes, objective, after)) : outcomes.IsChain Follows := by
  obtain ⟨⟨entry, session⟩, opened, ran⟩ := Except.bind_eq_ok.mp ran
  obtain ⟨run, looped, ran⟩ := Except.bind_eq_ok.mp ran
  obtain ⟨_, _, ran⟩ := Except.bind_eq_ok.mp ran
  obtain ⟨rfl, _⟩ := Prod.mk.inj (Except.pure_eq_ok.mp ran)
  refine (forLoop_invariant InSequence ⟨.nil, fun last isLast => by cases isLast⟩ ?_ looped).chain
  exact fun state now flow _ sequence stepped => decideChild_inSequence sequence stepped

/-! ## One iteration -/

/-- What one iteration sends follows one another, from the instant of its row on. -/
structure SendsFrom (before after : RunState) (nowNs : ℤ) (fresh : List SentOrder) : Prop where
  sent : after.sent = before.sent ++ fresh
  chain : (outcomesOf fresh).IsChain Follows
  decided : ∀ order ∈ fresh, nowNs ≤ order.outcome.decisionUtcNs

theorem SendsFrom.nothing {before after : RunState} {nowNs : ℤ} (same : after.sent = before.sent) :
    SendsFrom before after nowNs [] :=
  ⟨by rw [same, List.append_nil], .nil, fun _ member => absurd member List.not_mem_nil⟩

theorem SendsFrom.single {before after : RunState} {nowNs : ℤ} {order : SentOrder}
    (sent : after.sent = before.sent ++ [order]) (decided : order.outcome.decisionUtcNs = nowNs) :
    SendsFrom before after nowNs [order] := by
  refine ⟨sent, List.isChain_singleton _, fun other member => ?_⟩
  obtain rfl := List.mem_singleton.mp member
  exact decided.ge

theorem attemptEntry_sends {state : RunState} {row : TapeRow} {ask : ℤ} {spend : Option ℤ}
    {limited : Bool} {attempt : EntryAttempt}
    (ran : replay.attemptEntry cash state row ask spend limited = .ok attempt) :
    ∃ fresh, SendsFrom state attempt.state row.receivedUtcNs fresh := by
  unfold attemptEntry at ran
  split at ran
  · obtain ⟨shares, _, ran⟩ := Except.bind_eq_ok.mp ran
    obtain ⟨⟨outcome, context⟩, sent, ran⟩ := Except.bind_eq_ok.mp ran
    obtain rfl := Except.pure_eq_ok.mp ran
    exact ⟨[_], .single rfl (send_spec sent).decided⟩
  · obtain ⟨⟨children, objective, context⟩, entryRan, ran⟩ := Except.bind_eq_ok.mp ran
    obtain rfl := Except.pure_eq_ok.mp ran
    refine ⟨_, rfl, ?_, fun order member => ?_⟩
    · have outcomes : outcomesOf (children.map fun child => SentOrder.mk .entry row.tokenIndex
          row.receivedUtcNs (some ask) child) = children := by
        rw [outcomesOf, List.map_map]
        exact List.map_id _
      rw [outcomes]
      exact sequentialEntry_inSequence entryRan
    · obtain ⟨child, inChildren, rfl⟩ := List.mem_map.mp member
      exact ((sequentialEntry_spec entryRan).children child inChildren).decided.1

theorem maybeExit_decided {state : RunState} {row : TapeRow} {sent : SentOrder}
    {context : SimContext} (ran : replay.maybeExit state row = .ok (some sent, context)) :
    sent.outcome.decisionUtcNs = row.receivedUtcNs := by
  unfold maybeExit at ran
  split at ran
  · cases ran
  split at ran
  · cases ran
  obtain ⟨⟨outcome, reached⟩, sendRan, ran⟩ := Except.bind_eq_ok.mp ran
  obtain ⟨same, _⟩ := Prod.mk.inj (Except.pure_eq_ok.mp ran)
  obtain rfl := Option.some.inj same
  exact (send_spec sendRan).decided

/-- The instant before which the strategy does not act: the position's effective time while one is
held, and else the end of the entry cooldown. -/
def guardNs (state : RunState) : ℤ :=
  if 0 < state.positionShares then state.positionEffectiveNs else state.nextEntryAllowedNs

/-- An iteration that sends something does so at or after the guard. -/
theorem step_sends {state : RunState} {row : TapeRow} {flow : Flow RunState}
    (ran : replay.step cash state row = .ok flow) :
    ∃ fresh, SendsFrom state flow.state row.receivedUtcNs fresh ∧
      (fresh ≠ [] → guardNs state ≤ row.receivedUtcNs) := by
  unfold step at ran
  split at ran
  · cases ran
    exact ⟨[], .nothing rfl, fun nonempty => absurd rfl nonempty⟩
  split at ran
  · next watched =>
    unfold watchesExit at watched
    simp only [Bool.and_eq_true, decide_eq_true_eq] at watched
    have guarded : guardNs state ≤ row.receivedUtcNs := by
      rw [guardNs, if_pos watched.1.1]
      exact watched.2
    obtain ⟨⟨order, context⟩, exitRan, ran⟩ := Except.bind_eq_ok.mp ran
    dsimp only at ran
    cases order with
    | none =>
      obtain rfl := Except.pure_eq_ok.mp ran
      exact ⟨[], .nothing rfl, fun nonempty => absurd rfl nonempty⟩
    | some sent =>
      obtain ⟨stateIs, _⟩ := stops_flat (Except.pure_eq_ok.mp ran)
      refine ⟨[sent], .single ?_ (maybeExit_decided exitRan), fun _ => guarded⟩
      rw [stateIs, rearm_sent, bookExit_sent]
  · unfold entryStep at ran
    split at ran
    · cases ran
      exact ⟨[], .nothing rfl, fun nonempty => absurd rfl nonempty⟩
    next ask signal =>
    obtain ⟨flat, allowed, _⟩ := replay.entrySignal_eq_some signal
    have guarded : guardNs state ≤ row.receivedUtcNs := by
      rw [guardNs, if_neg (not_lt.mpr flat)]
      exact allowed
    obtain ⟨⟨spend, limited⟩, _, ran⟩ := Except.bind_eq_ok.mp ran
    dsimp only at ran
    split at ran
    · obtain rfl := Except.pure_eq_ok.mp ran
      exact ⟨[], .nothing rfl, fun nonempty => absurd rfl nonempty⟩
    obtain ⟨attempt, attemptRan, ran⟩ := Except.bind_eq_ok.mp ran
    obtain ⟨fresh, sends⟩ := attemptEntry_sends attemptRan
    split at ran
    · obtain ⟨opened, openedRan, ran⟩ := Except.bind_eq_ok.mp ran
      obtain rfl := Except.pure_eq_ok.mp ran
      exact ⟨fresh, ⟨(openPosition_sent openedRan).trans sends.sent, sends.chain, sends.decided⟩,
        fun _ => guarded⟩
    · obtain rfl := Except.pure_eq_ok.mp ran
      exact ⟨fresh, sends, fun _ => guarded⟩

/-! ## Whole runs -/

/-- At this row the guard has not opened before the last order arrives. -/
def Covers (state : RunState) (row : TapeRow) : Prop :=
  ∀ last ∈ state.sent.getLast?,
    last.outcome.arrivalUtcNs ≤ max (guardNs state) row.receivedUtcNs

/-- The guard covers the last order at every row the loop reaches. -/
def Guarded (replay : Replay) (cash : CashAvailability) : Prop :=
  ∀ past row future state, replay.tape.rows = past ++ row :: future →
    Reaches (replay.step cash) replay.initialState past state → Covers state row

/-- A state whose guard covers its last order. -/
def Covered (state : RunState) : Prop :=
  ∀ last ∈ state.sent.getLast?, last.outcome.arrivalUtcNs ≤ guardNs state

theorem Covered.covers {state : RunState} (covered : Covered state) (row : TapeRow) :
    Covers state row :=
  fun last isLast => (covered last isLast).trans (le_max_left _ _)

theorem exitStep_covered {state after : RunState} {row : TapeRow}
    (ran : replay.exitStep state row = .ok (.next after)) (covered : Covered state) :
    Covered after := by
  obtain ⟨⟨order, context⟩, exitRan, ran⟩ := Except.bind_eq_ok.mp ran
  dsimp only at ran
  cases order with
  | none =>
    cases Except.pure_eq_ok.mp ran
    exact covered
  | some sent =>
    obtain ⟨stateIs, runs⟩ := stops_flat (Except.pure_eq_ok.mp ran)
    have held := runs after rfl
    change after = _ at stateIs
    intro last isLast
    rw [guardNs, if_pos held, stateIs]
    rw [stateIs, rearm_sent, bookExit_sent, List.getLast?_concat] at isLast
    obtain rfl := Option.some.inj isLast
    exact le_max_right _ _

/-- The guard falls short after an entry attempt only: one that is worked in children, or one that
leaves the strategy flat. -/
theorem step_covered {state after : RunState} {row : TapeRow}
    (ran : replay.step cash state row = .ok (.next after)) (covered : Covered state) :
    Covered after ∨ (∃ ask, replay.entrySignal state row = some ask) ∧
      (replay.params.entryExecutionPolicy ≠ .immediate ∨ after.positionShares ≤ 0) := by
  unfold step at ran
  split at ran
  · cases ran
  split at ran
  · exact .inl (exitStep_covered ran covered)
  unfold entryStep at ran
  cases signal : replay.entrySignal state row with
  | none =>
    rw [signal] at ran
    cases ran
    exact .inl covered
  | some ask =>
  rw [signal] at ran
  by_cases flat : after.positionShares ≤ 0
  · exact .inr ⟨⟨ask, rfl⟩, .inr flat⟩
  by_cases immediate : replay.params.entryExecutionPolicy = .immediate
  · left
    obtain ⟨⟨spend, limited⟩, _, ran⟩ := Except.bind_eq_ok.mp ran
    dsimp only at ran
    rw [if_neg fun late => late.1 immediate] at ran
    obtain ⟨attempt, attemptRan, ran⟩ := Except.bind_eq_ok.mp ran
    unfold attemptEntry at attemptRan
    rw [if_pos immediate] at attemptRan
    obtain ⟨shares, _, attemptRan⟩ := Except.bind_eq_ok.mp attemptRan
    obtain ⟨⟨outcome, context⟩, _, attemptRan⟩ := Except.bind_eq_ok.mp attemptRan
    obtain rfl := Except.pure_eq_ok.mp attemptRan
    by_cases filled : outcome.filled = true
    · rw [if_pos filled] at ran
      obtain ⟨opened, openedRan, ran⟩ := Except.bind_eq_ok.mp ran
      cases Except.pure_eq_ok.mp ran
      obtain ⟨_, _, openedRan⟩ := Except.bind_eq_ok.mp openedRan
      obtain rfl := Except.pure_eq_ok.mp openedRan
      intro last isLast
      rw [guardNs, if_pos (not_le.mp flat)]
      rw [List.getLast?_concat] at isLast
      obtain rfl := Option.some.inj isLast
      exact le_rfl
    · rw [if_neg filled] at ran
      cases Except.pure_eq_ok.mp ran
      exact absurd (replay.entrySignal_eq_some signal).1 flat
  · exact .inr ⟨⟨ask, rfl⟩, .inl immediate⟩

theorem trace_sequence {final : RunState} (guarded : replay.Guarded cash)
    (ran : replay.trace cash = .ok final) : (outcomesOf final.sent).IsChain Follows := by
  refine forLoop_reached (fun state => (outcomesOf state.sent).IsChain Follows) .nil ?_ ran
  intro past row future state flow split reached chain stepped
  obtain ⟨fresh, sends, opened⟩ := step_sends stepped
  rw [sends.sent, outcomesOf_append]
  refine List.isChain_append.mpr ⟨chain, sends.chain, fun last isLast next isNext => ?_⟩
  rw [outcomesOf, List.getLast?_map] at isLast
  obtain ⟨order, isOrder, rfl⟩ := Option.mem_map.mp isLast
  obtain ⟨following, inFresh, rfl⟩ := List.mem_map.mp (List.mem_of_mem_head? isNext)
  have nonempty : fresh ≠ [] := List.ne_nil_of_mem inFresh
  have covered := guarded past row future state split reached order isOrder
  rw [max_eq_right (opened nonempty)] at covered
  exact covered.trans (sends.decided following inFresh)

end Replay

namespace ThresholdHoldSimulator

variable {simulator : ThresholdHoldSimulator} {tape : EpisodeTape} {cash : CashAvailability}
  {result : EpisodeResult}

/-- Consecutive orders of a report: each is decided when the one before it has arrived. -/
def InOrder (orders : List SimulatedOrder) : Prop :=
  orders.IsChain fun previous next => previous.arrivalUtcNs ≤ next.decisionUtcNs

/-- Nine shares or nothing, tried again without a cooldown, a millisecond away from the venue. -/
def hastySimulator : ThresholdHoldSimulator :=
  ⟨{ exampleParams .immediate with
      orderSharesScaled := some 9000000
      allowPartialEntry := false
      maxEntriesPerEpisode := 2 },
    { exampleRealism with latency := .constant 1 }, fun _ => ⟨fun _ => 0, fun _ => 0⟩⟩

/-- Two rows a few nanoseconds apart offer seven shares. -/
def hastyTape : EpisodeTape :=
  ⟨TapeBuilder.exampleEpisode, none, [TapeBuilder.exampleRow none 780000 800000,
    { TapeBuilder.exampleRow none 780000 800000 with receivedUtcNs := 20 }], [], []⟩

theorem hastySimulator_valid : hastySimulator.params.Valid := by
  refine ⟨?_, ?_⟩ <;> constructor <;>
    simp [hastySimulator, exampleParams, polymarketPriceScale, ppm]

end ThresholdHoldSimulator

end PolymarketBt
