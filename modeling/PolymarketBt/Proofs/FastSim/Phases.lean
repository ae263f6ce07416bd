import PolymarketBt.Proofs.FastSim.Run

/-! # The two phases of a run

A run is flat until one entry attempt fills; from then on it holds or has held that parent's position
and only sells. Each phase says what was sent so far and accounts for every amount the loop carries.
-/

namespace PolymarketBt

open Machine

@[simp] theorem totalShares_append (first second : List ExecutionOutcome) :
    totalShares (first ++ second) = totalShares first + totalShares second := by
  simp [totalShares]

@[simp] theorem totalNotional_append (first second : List ExecutionOutcome) :
    totalNotional (first ++ second) = totalNotional first + totalNotional second := by
  simp [totalNotional]

@[simp] theorem totalFees_append (first second : List ExecutionOutcome) :
    totalFees (first ++ second) = totalFees first + totalFees second := by
  simp [totalFees]

def outcomesOf (sent : List SentOrder) : List ExecutionOutcome := sent.map SentOrder.outcome

@[simp] theorem outcomesOf_append (first second : List SentOrder) :
    outcomesOf (first ++ second) = outcomesOf first ++ outcomesOf second := List.map_append

theorem totalShares_nonneg {executor : TakerExecutor} {outcomes : List ExecutionOutcome}
    (balanced : ∀ outcome ∈ outcomes, outcome.Balanced executor) : 0 ≤ totalShares outcomes := by
  refine List.sum_nonneg fun shares member => ?_
  obtain ⟨outcome, inOutcomes, rfl⟩ := List.mem_map.mp member
  exact (balanced outcome inOutcomes).filled_nonneg

/-- Outcomes that fill nothing together fill nothing each. -/
theorem unfilled_of_totalShares {executor : TakerExecutor} {outcomes : List ExecutionOutcome}
    (balanced : ∀ outcome ∈ outcomes, outcome.Balanced executor) (none : totalShares outcomes = 0) :
    ∀ outcome ∈ outcomes, outcome.filled = false := by
  induction outcomes with
  | nil => simp
  | cons outcome rest ih =>
    have own := (balanced outcome (List.mem_cons_self ..)).filled_nonneg
    have others := totalShares_nonneg fun other member =>
      balanced other (List.mem_cons_of_mem _ member)
    have sum : totalShares (outcome :: rest) = outcome.filledSharesScaled + totalShares rest := by
      simp [totalShares]
    rw [sum] at none
    intro other member
    rcases List.mem_cons.mp member with rfl | inRest
    · exact decide_eq_false (by omega)
    · exact ih (fun other member => balanced other (List.mem_cons_of_mem _ member)) (by omega) other
        inRest

namespace Replay

variable {replay : Replay} {cash : CashAvailability}

/-- The orders one entry attempt of the run added to those sent before it. -/
def IsAttempt (replay : Replay) (cash : CashAvailability) (before parent : List SentOrder) : Prop :=
  ∃ state row ask spend limited attempt, state.sent = before ∧
    replay.attemptEntry cash state row ask spend limited = .ok attempt ∧
      attempt.state.sent = before ++ parent

/-- An entry order that filled nothing. -/
structure Idle (replay : Replay) (sent : SentOrder) : Prop where
  kind : sent.kind = .entry
  side : sent.outcome.side = .buy
  balanced : sent.outcome.Balanced replay.executor
  unfilled : sent.outcome.filled = false

/-- Idle orders move no total. -/
theorem Idle.totals {sent : List SentOrder} (idle : ∀ order ∈ sent, replay.Idle order) :
    totalShares (outcomesOf sent) = 0 ∧ totalNotional (outcomesOf sent) = 0 ∧
      totalFees (outcomesOf sent) = 0 := by
  have zero : ∀ field : ExecutionOutcome → ℤ, (∀ order ∈ sent, field order.outcome = 0) →
      ((outcomesOf sent).map field).sum = 0 := by
    intro field none
    refine List.sum_eq_zero fun amount member => ?_
    obtain ⟨outcome, inOutcomes, rfl⟩ := List.mem_map.mp member
    obtain ⟨order, inSent, rfl⟩ := List.mem_map.mp inOutcomes
    exact none order inSent
  have none := fun order member =>
    (idle order member).balanced.of_unfilled (idle order member).unfilled
  exact ⟨zero _ fun order member => (none order member).1,
    zero _ fun order member => (none order member).2.2.1,
    zero _ fun order member => (none order member).2.2.2⟩

/-- Nothing has been filled. -/
structure Flat (replay : Replay) (state : RunState) : Prop where
  idle : ∀ sent ∈ state.sent, replay.Idle sent
  window : replay.entryFromNs ≤ state.nextEntryAllowedNs
  entryCashDebited : state.entryCashDebited = 0
  positionShares : state.positionShares = 0
  positionCost : state.positionCost = 0
  exitShares : state.exitShares = 0
  exitNotional : state.exitNotional = 0
  entered : state.result.entered = false
  fees : state.result.feesScaled = 0
  entry : state.result.entrySharesScaled = 0 ∧ state.result.entryNotionalScaled = 0
  exit : state.result.exitSharesScaled = 0 ∧ state.result.exitNotionalScaled = 0
  settlement : state.result.settledSharesScaled = 0 ∧ state.result.settlementPayoutScaled = 0
  net : state.result.netPnlScaled = 0

/-- The signal of a parent entry: the ask of one row of the tape. -/
structure Signals (replay : Replay) (tokenIndex : TokenIndex) (signalNs ask : ℤ) : Prop where
  quoted : ∃ row ∈ replay.tape.rows, row.tokenIndex = tokenIndex ∧ row.receivedUtcNs = signalNs ∧
    row.bestAskScaled = some ask
  window : replay.entryFromNs ≤ signalNs ∧ signalNs ≤ replay.entryToNs
  allowed : replay.allowed tokenIndex = true
  band : replay.params.entryTriggerPriceScaled ≤ ask ∧ ask ≤ replay.params.entryLimitPriceScaled

/-- One parent entry has been filled; the orders after it are its exits. -/
structure Entered (replay : Replay) (cash : CashAvailability) (tokenIndex : TokenIndex)
    (signalNs ask : ℤ) (before parent after : List SentOrder) (state : RunState) : Prop where
  sent : state.sent = before ++ parent ++ after
  idle : ∀ sent ∈ before, replay.Idle sent
  attempt : replay.IsAttempt cash before parent
  signals : replay.Signals tokenIndex signalNs ask
  bounded : replay.Parent cash tokenIndex signalNs ask parent
  exits : ∀ sent ∈ after, sent.kind ≠ .entry ∧ sent.tokenIndex = tokenIndex ∧
    sent.outcome.side = .sell ∧ sent.outcome.Balanced replay.executor
  sold : ∀ past exit future, after = past ++ exit :: future →
    exit.outcome.filledSharesScaled ≤
      totalShares (outcomesOf parent) - totalShares (outcomesOf past)
  positionShares : state.positionShares =
    totalShares (outcomesOf parent) - totalShares (outcomesOf after)
  positionCost : state.positionCost = totalNotional (outcomesOf parent)
  exitShares : state.exitShares = totalShares (outcomesOf after)
  exitNotional : state.exitNotional = totalNotional (outcomesOf after)
  entryCashDebited : state.entryCashDebited = totalCost (outcomesOf parent)
  positionToken : state.positionToken = some tokenIndex
  entered : state.result.entered = true
  outcomeToken : state.result.outcomeToken = some (replay.tape.tokenIdOf tokenIndex)
  fees : state.result.feesScaled =
    totalFees (outcomesOf parent) + totalFees (outcomesOf after)
  entry : state.result.entrySharesScaled = totalShares (outcomesOf parent) ∧
    state.result.entryNotionalScaled = totalNotional (outcomesOf parent)

/-- A running loop is flat, or holds part of its position. -/
def Running (replay : Replay) (cash : CashAvailability) (state : RunState) : Prop :=
  replay.Flat state ∨ 0 < state.positionShares ∧
    ∃ tokenIndex signalNs ask before parent after,
      replay.Entered cash tokenIndex signalNs ask before parent after state

/-- An ended loop is flat, or entered and holds whatever it did not sell. -/
def Ended (replay : Replay) (cash : CashAvailability) (state : RunState) : Prop :=
  replay.Flat state ∨ 0 ≤ state.positionShares ∧
    ∃ tokenIndex signalNs ask before parent after,
      replay.Entered cash tokenIndex signalNs ask before parent after state

theorem Running.ended {state : RunState} (running : replay.Running cash state) :
    replay.Ended cash state :=
  running.imp id fun ⟨held, entered⟩ => ⟨held.le, entered⟩

theorem Flat.initialState (replay : Replay) : replay.Flat replay.initialState where
  idle := by simp [Replay.initialState]
  window := le_rfl
  entryCashDebited := rfl
  positionShares := rfl
  positionCost := rfl
  exitShares := rfl
  exitNotional := rfl
  entered := rfl
  fees := rfl
  entry := ⟨rfl, rfl⟩
  exit := ⟨rfl, rfl⟩
  settlement := ⟨rfl, rfl⟩
  net := rfl

/-! ## Entering -/

/-- An attempt that filled nothing leaves the run flat. -/
theorem Flat.attempt {state : RunState} {row : TapeRow} {ask : ℤ} {attempt : EntryAttempt}
    {parent : List SentOrder} (flat : replay.Flat state)
    (attempts : replay.Attempts cash state row ask attempt parent)
    (from_ : state.nextEntryAllowedNs ≤ row.receivedUtcNs)
    (unfilled : attempt.outcome.filled = false) : replay.Flat attempt.state := by
  have untouched := attempts.untouched
  refine ⟨?_, attempts.entriesFrom (flat.window.trans from_) flat.window, ?_, ?_, ?_, ?_, ?_, ?_, ?_, ?_,
    ?_, ?_, ?_⟩
  · rw [attempts.sent]
    intro sent member
    rcases List.mem_append.mp member with earlier | own
    · exact flat.idle sent earlier
    have balanced : ∀ outcome ∈ outcomesOf parent, outcome.Balanced replay.executor := by
      intro outcome inOutcomes
      obtain ⟨order, inParent, rfl⟩ := List.mem_map.mp inOutcomes
      exact (attempts.parent.orders order inParent).balanced
    have none : totalShares (outcomesOf parent) = 0 := by
      rw [← (attempts.balanced.of_unfilled unfilled).1]
      exact attempts.shares.symm
    have order := attempts.parent.orders sent own
    exact ⟨(attempts.parent.marks sent own).1, order.side, order.balanced,
      unfilled_of_totalShares balanced none _ (List.mem_map_of_mem own)⟩
  · rw [untouched.entryCashDebited, flat.entryCashDebited]
  · rw [untouched.positionShares, flat.positionShares]
  · rw [untouched.positionCost, flat.positionCost]
  · rw [untouched.exitShares, flat.exitShares]
  · rw [untouched.exitNotional, flat.exitNotional]
  · rw [untouched.entered, flat.entered]
  · rw [untouched.fees, flat.fees]
  · rw [untouched.entry.1, untouched.entry.2]
    exact flat.entry
  · rw [untouched.exit.1, untouched.exit.2]
    exact flat.exit
  · rw [untouched.settlement.1, untouched.settlement.2]
    exact flat.settlement
  · rw [untouched.net, flat.net]

/-- A filled attempt opens the position of its parent. -/
theorem Flat.openPosition {state opened : RunState} {row : TapeRow} {ask : ℤ}
    {attempt : EntryAttempt} {parent : List SentOrder} (flat : replay.Flat state)
    (attempts : replay.Attempts cash state row ask attempt parent)
    (attempted : replay.IsAttempt cash state.sent parent)
    (signals : replay.Signals row.tokenIndex row.receivedUtcNs ask)
    (ran : replay.openPosition attempt row.tokenIndex = .ok opened) :
    opened.positionShares = attempt.outcome.filledSharesScaled ∧
      replay.Entered cash row.tokenIndex row.receivedUtcNs ask state.sent parent [] opened := by
  obtain ⟨outcomeSide, _, ran⟩ := Except.bind_eq_ok.mp ran
  obtain rfl := Except.pure_eq_ok.mp ran
  have untouched := attempts.untouched
  have none : totalShares (outcomesOf []) = 0 := rfl
  refine ⟨rfl, ?_, flat.idle, attempted, signals, attempts.parent, by simp, by simp, ?_, ?_, ?_, ?_, ?_,
    rfl, rfl, rfl, ?_, ?_⟩
  · rw [List.append_nil]
    exact attempts.sent
  · rw [none, sub_zero]
    exact attempts.shares
  · exact attempts.notional
  · exact untouched.exitShares.trans flat.exitShares
  · exact untouched.exitNotional.trans flat.exitNotional
  · dsimp only
    rw [untouched.entryCashDebited, flat.entryCashDebited, zero_add, attempts.notional,
      attempts.fees, totalCost_eq]
    rfl
  · dsimp only
    rw [untouched.fees, flat.fees, zero_add, attempts.fees]
    simp [outcomesOf, totalFees]
  · exact ⟨attempts.shares, attempts.notional⟩

theorem entryStep_spec (inRange : replay.params.InRange) {state : RunState} {row : TapeRow}
    {flow : Flow RunState} (member : row ∈ replay.tape.rows) (running : replay.Running cash state)
    (ran : replay.entryStep cash state row = .ok flow) :
    ∃ after, flow = .next after ∧ replay.Running cash after := by
  unfold entryStep at ran
  split at ran
  · cases ran
    exact ⟨state, rfl, running⟩
  next ask signal =>
  obtain ⟨empty, from_, window, allowed, quoted, band⟩ := entrySignal_eq_some signal
  have flat : replay.Flat state := running.resolve_right fun held => by omega
  obtain ⟨⟨spend, limited⟩, spends, ran⟩ := Except.bind_eq_ok.mp ran
  dsimp only at ran
  split at ran
  · obtain rfl := Except.pure_eq_ok.mp ran
    exact ⟨state, rfl, running⟩
  next legal =>
  obtain ⟨attempt, attemptRan, ran⟩ := Except.bind_eq_ok.mp ran
  obtain ⟨parent, attempts⟩ :=
    attemptEntry_spec inRange window flat.entryCashDebited legal spends attemptRan
  split at ran
  · next filled =>
    obtain ⟨opened, openedRan, ran⟩ := Except.bind_eq_ok.mp ran
    obtain rfl := Except.pure_eq_ok.mp ran
    have attempted : replay.IsAttempt cash state.sent parent :=
      ⟨state, row, ask, spend, limited, attempt, rfl, attemptRan, attempts.sent⟩
    obtain ⟨position, entered⟩ := flat.openPosition attempts attempted
      ⟨⟨row, member, rfl, rfl, quoted⟩, ⟨flat.window.trans from_, window⟩, allowed, band⟩ openedRan
    refine ⟨opened, rfl, .inr ⟨?_, _, _, _, _, _, _, entered⟩⟩
    rw [position]
    exact of_decide_eq_true filled
  · next unfilled =>
    obtain rfl := Except.pure_eq_ok.mp ran
    exact ⟨attempt.state, rfl, .inl (flat.attempt attempts from_ (by simpa using unfilled))⟩

/-! ## Exiting -/

theorem Entered.exit {state after : RunState} {row : TapeRow} {exit : SentOrder}
    {tokenIndex : TokenIndex} {signalNs ask : ℤ} {before parent sold : List SentOrder}
    (entered : replay.Entered cash tokenIndex signalNs ask before parent sold state)
    (exits : replay.Exits state after row exit) (own : row.tokenIndex = tokenIndex) :
    replay.Entered cash tokenIndex signalNs ask before parent (sold ++ [exit]) after := by
  have shares : totalShares (outcomesOf (sold ++ [exit])) =
      totalShares (outcomesOf sold) + exit.outcome.filledSharesScaled := by
    simp [outcomesOf, totalShares]
  have notional : totalNotional (outcomesOf (sold ++ [exit])) =
      totalNotional (outcomesOf sold) + exit.outcome.notionalScaled := by
    simp [outcomesOf, totalNotional]
  have fees : totalFees (outcomesOf (sold ++ [exit])) =
      totalFees (outcomesOf sold) + exit.outcome.feesScaled := by
    simp [outcomesOf, totalFees]
  refine ⟨?_, entered.idle, entered.attempt, entered.signals, entered.bounded, ?_, ?_, ?_, ?_, ?_, ?_,
    ?_, ?_, ?_, ?_, ?_, ?_⟩
  · rw [exits.sent, entered.sent, List.append_assoc]
  · intro other member
    rcases List.mem_append.mp member with earlier | last
    · exact entered.exits other earlier
    · obtain rfl := List.mem_singleton.mp last
      exact ⟨exits.kind, exits.token.trans own, exits.side, exits.balanced⟩
  · intro past other future split
    rcases List.concat_eq_append_cons_iff.mp split with ⟨_, rfl, rfl⟩ | ⟨middle, _, before⟩
    · rw [← entered.positionShares]
      exact exits.within
    · exact entered.sold past other middle before
  · rw [exits.positionShares, entered.positionShares, shares]
    ring
  · rw [exits.positionCost, entered.positionCost]
  · rw [exits.exitShares, entered.exitShares, shares]
  · rw [exits.exitNotional, entered.exitNotional, notional]
  · rw [exits.entryCashDebited, entered.entryCashDebited]
  · rw [exits.positionToken, entered.positionToken]
  · rw [exits.entered, entered.entered]
  · rw [exits.outcomeToken, entered.outcomeToken]
  · rw [exits.fees, entered.fees, fees]
    ring
  · rw [exits.entry.1, exits.entry.2]
    exact entered.entry

theorem exitStep_running (inRange : replay.params.InRange) {state : RunState} {row : TapeRow}
    {flow : Flow RunState} (running : replay.Running cash state)
    (watched : watchesExit state row = true) (ran : replay.exitStep state row = .ok flow) :
    replay.Ended cash flow.state ∧ ∀ after, flow = .next after → replay.Running cash after := by
  simp only [watchesExit, Bool.and_eq_true, decide_eq_true_eq] at watched
  obtain ⟨⟨held, token⟩, _⟩ := watched
  obtain ⟨_, tokenIndex, signalNs, ask, before, parent, sold, entered⟩ :=
    running.resolve_left fun flat => by rw [flat.positionShares] at held; omega
  have own : row.tokenIndex = tokenIndex :=
    Option.some.inj (token.symm.trans entered.positionToken)
  rcases exitStep_spec inRange held ran with ⟨context, peak, rfl⟩ | ⟨exit, exits, runs⟩
  · have kept : replay.Entered cash tokenIndex signalNs ask before parent sold
        { state with context := context, peakAdverse := peak } :=
      ⟨entered.sent, entered.idle, entered.attempt, entered.signals, entered.bounded, entered.exits,
        entered.sold, entered.positionShares, entered.positionCost, entered.exitShares,
        entered.exitNotional, entered.entryCashDebited, entered.positionToken, entered.entered,
        entered.outcomeToken, entered.fees, entered.entry⟩
    refine ⟨.inr ⟨held.le, _, _, _, _, _, _, kept⟩, fun after running => ?_⟩
    cases running
    exact .inr ⟨held, _, _, _, _, _, _, kept⟩
  · have next := entered.exit exits own
    refine ⟨.inr ⟨?_, _, _, _, _, _, _, next⟩, ?_⟩
    · rw [exits.positionShares]
      have := exits.within
      omega
    · rintro after rfl
      exact .inr ⟨runs after rfl, _, _, _, _, _, _, next⟩

/-! ## The run -/

/-- A loop that goes on is still running. -/
theorem step_running (inRange : replay.params.InRange) {state after : RunState} {row : TapeRow}
    (member : row ∈ replay.tape.rows) (running : replay.Running cash state)
    (ran : replay.step cash state row = .ok (.next after)) : replay.Running cash after := by
  unfold step at ran
  split at ran
  · cases ran
  split at ran
  · next watched => exact (exitStep_running inRange running watched ran).2 after rfl
  · obtain ⟨next, same, kept⟩ := entryStep_spec inRange member running ran
    cases same
    exact kept

/-- Every completed replay ends flat, or entered once and only sold after that. -/
theorem trace_ended (inRange : replay.params.InRange) {final : RunState}
    (ran : replay.trace cash = .ok final) : replay.Ended cash final := by
  refine forLoop_ends (replay.Running cash) (replay.Ended cash) (.inl (.initialState replay))
    (fun _ _ _ => step_running inRange) ?_ (fun _ running => running.ended) ran
  intro state row after member running stepped
  unfold step at stepped
  split at stepped
  · cases stepped
    exact running.ended
  split at stepped
  · next watched => exact (exitStep_running inRange running watched stepped).1
  · obtain ⟨next, same, _⟩ := entryStep_spec inRange member running stepped
    cases same

end Replay

end PolymarketBt
