import PolymarketBt.Soundness.EpisodeLedger

/-! # The envelope of an entry

The limit, the window, the side, the deadline, the budget and the cash of an entry are enforced by
different functions at different instants. Every filled entry order of a completed run nevertheless
satisfies all of them at once, whatever books appear between its signal and its arrival.
-/

namespace PolymarketBt

namespace Replay

/-- The entry orders among the orders of a run. -/
def entriesOf (sent : List SentOrder) : List ExecutionOutcome :=
  outcomesOf (sent.filter fun order => order.kind = .entry)

/-- What a filled entry order kept to. -/
structure EntryWithin (replay : Replay) (order : SentOrder) : Prop where
  limit : ∀ slice ∈ order.outcome.slices, slice.priceScaled ≤ replay.params.entryLimitPriceScaled
  window : replay.entryFromNs ≤ order.outcome.decisionUtcNs ∧
    order.outcome.decisionUtcNs ≤ replay.entryToNs
  allowed : replay.allowed order.tokenIndex = true
  /-- A row of its token signalled the parent with an ask between the trigger and the limit. -/
  signal : ∃ row ∈ replay.tape.rows, ∃ ask, row.tokenIndex = order.tokenIndex ∧
    row.receivedUtcNs = order.signalNs ∧ row.bestAskScaled = some ask ∧
    order.triggerPriceScaled = some ask ∧ replay.params.entryTriggerPriceScaled ≤ ask ∧
    ask ≤ replay.params.entryLimitPriceScaled
  open_market : order.outcome.arrivalUtcNs < replay.tape.episode.endUtcNs
  deadline : replay.params.entryExecutionPolicy ≠ .immediate →
    order.outcome.arrivalUtcNs ≤ replay.executionDeadlineNs order.signalNs replay.entryToNs ∧
      replay.executionDeadlineNs order.signalNs replay.entryToNs ≤ replay.entryToNs
  /-- A part of the request is filled only up to the slice the dollar budget cannot pay. -/
  whole : replay.params.entryExecutionPolicy = .immediate → replay.params.allowPartialEntry = false →
    order.outcome.filledSharesScaled = order.outcome.requestedSharesScaled ∨
      ∃ notional ∈ replay.params.orderNotionalScaled, ∃ spend, spend ≤ notional ∧
        order.outcome.bindingConstraint = some .cashBudget ∧
        replay.executor.CutBySpend (max 0 spend) order.outcome.slices

/-- What the entry orders of a run kept to, each by itself and all together. -/
structure EntryEnvelope (replay : Replay) (cash : CashAvailability) (sent : List SentOrder) :
    Prop where
  each : ∀ order ∈ sent, order.kind = .entry → order.outcome.filled = true →
    replay.EntryWithin order
  budget : ∀ notional ∈ replay.params.orderNotionalScaled, totalCost (entriesOf sent) ≤ notional
  affordable : Affordable cash (entriesOf sent)

variable {replay : Replay} {cash : CashAvailability}

theorem entriesOf_own {sent : List SentOrder} (own : ∀ order ∈ sent, order.kind = .entry) :
    entriesOf sent = outcomesOf sent := by
  rw [entriesOf, List.filter_eq_self.mpr fun order member => decide_eq_true (own order member)]

theorem entriesOf_other {sent : List SentOrder} (other : ∀ order ∈ sent, order.kind ≠ .entry) :
    entriesOf sent = [] := by
  rw [entriesOf, List.filter_eq_nil_iff.mpr fun order member => by simpa using other order member]
  rfl

@[simp] theorem entriesOf_append (first second : List SentOrder) :
    entriesOf (first ++ second) = entriesOf first ++ entriesOf second := by
  simp [entriesOf]

theorem Idle.totalCost {sent : List SentOrder} (idle : ∀ order ∈ sent, replay.Idle order) :
    totalCost (outcomesOf sent) = 0 := by
  obtain ⟨_, notional, fees⟩ := Idle.totals idle
  rw [totalCost_eq, notional, fees, add_zero]

/-- Orders without fills before a parent do not count against its cash. -/
theorem Affordable.after_idle {idle : List SentOrder} {outcomes : List ExecutionOutcome}
    (unfilled : ∀ order ∈ idle, replay.Idle order) (affordable : Affordable cash outcomes) :
    Affordable cash (outcomesOf idle ++ outcomes) := by
  intro past outcome future split filled
  rcases List.append_eq_append_iff.mp split with ⟨early, rfl, same⟩ | ⟨late, same, rest⟩
  · rw [totalCost_append, Idle.totalCost unfilled, zero_add]
    exact affordable early outcome future same filled
  · cases late with
    | nil =>
      rw [List.append_nil] at same
      rw [← same, Idle.totalCost unfilled]
      exact affordable [] outcome future rest.symm filled
    | cons first late =>
      obtain ⟨rfl, _⟩ := List.cons.inj rest
      have inIdle : outcome ∈ outcomesOf idle := by simp [same]
      obtain ⟨order, member, rfl⟩ := List.mem_map.mp inIdle
      rw [(unfilled order member).unfilled] at filled
      cases filled

theorem Flat.envelope (inRange : replay.params.InRange) {state : RunState}
    (flat : replay.Flat state) : replay.EntryEnvelope cash state.sent := by
  have own := entriesOf_own fun order member => (flat.idle order member).kind
  refine ⟨fun order member _ filled => ?_, fun notional configured => ?_, ?_⟩
  · rw [(flat.idle order member).unfilled] at filled
    cases filled
  · rw [own, Idle.totalCost flat.idle]
    exact (inRange.notional_pos notional configured).le
  · rw [own, ← List.append_nil (outcomesOf state.sent)]
    refine Affordable.after_idle flat.idle fun past outcome future split => ?_
    simp at split

theorem Entered.envelope {tokenIndex : TokenIndex} {signalNs ask : ℤ}
    {before parent after : List SentOrder} {state : RunState}
    (entered : replay.Entered cash tokenIndex signalNs ask before parent after state) :
    replay.EntryEnvelope cash state.sent := by
  have entries : entriesOf state.sent = outcomesOf before ++ outcomesOf parent := by
    rw [entered.sent, entriesOf_append, entriesOf_append,
      entriesOf_own fun order member => (entered.idle order member).kind,
      entriesOf_own fun order member => (entered.bounded.marks order member).1,
      entriesOf_other fun order member => (entered.exits order member).1, List.append_nil]
  refine ⟨?_, fun notional configured => ?_, ?_⟩
  · intro order member kind filled
    rw [entered.sent] at member
    rcases List.mem_append.mp member with opening | exit
    swap
    · exact absurd kind (entered.exits order exit).1
    rcases List.mem_append.mp opening with idle | own
    · rw [(entered.idle order idle).unfilled] at filled
      cases filled
    obtain ⟨_, rfl, rfl, trigger⟩ := entered.bounded.marks order own
    obtain ⟨row, inTape, token, instant, quoted⟩ := entered.signals.quoted
    have entry := entered.bounded.orders order own
    exact
      { limit := entry.inside
        window := ⟨entered.signals.window.1.trans entry.decided.1, entry.decided.2⟩
        allowed := entered.signals.allowed
        signal := ⟨row, inTape, ask, token, instant, quoted, trigger, entered.signals.band⟩
        open_market := entry.open_market filled
        deadline := fun sequential => ⟨entered.bounded.deadline sequential order own filled,
          executionDeadlineNs_le _ _⟩
        whole := fun immediate atomic => entered.bounded.full immediate atomic order own filled }
  · rw [entries, totalCost_append, Idle.totalCost entered.idle, zero_add]
    exact entered.bounded.budget notional configured
  · rw [entries]
    exact Affordable.after_idle entered.idle entered.bounded.affordable

theorem trace_envelope (inRange : replay.params.InRange) {final : RunState}
    (ran : replay.trace cash = .ok final) : replay.EntryEnvelope cash final.sent := by
  rcases trace_ended inRange ran with flat | ⟨_, tokenIndex, signalNs, ask, before, parent, after, entered⟩
  · exact flat.envelope inRange
  · exact entered.envelope

end Replay

namespace ThresholdHoldSimulator

variable {simulator : ThresholdHoldSimulator} {tape : EpisodeTape} {cash : CashAvailability}
  {result : EpisodeResult}

/-- The entries of every completed run keep to their envelope. -/
theorem run_entry_envelope (valid : simulator.params.Valid) (eligible : tape.episode.eligible = true)
    (ran : simulator.run tape cash = .ok result) :
    ∃ replay state, simulator.replayOf tape = .ok replay ∧ replay.trace cash = .ok state ∧
      replay.settle state = result ∧ replay.EntryEnvelope cash state.sent := by
  obtain ⟨replay, state, replayed, traced, settled⟩ := run_eq_ok eligible ran
  refine ⟨replay, state, replayed, traced, settled, ?_⟩
  have inRange := valid.inRange
  rw [← (replayOf_fields replayed).1] at inRange
  exact Replay.trace_envelope inRange traced

/-- Four children of one parent share a dollar of cash and end short of their two shares. -/
theorem run_entry_envelope_twap :
    ∃ result replay state, (exampleSimulator .twap).replayOf exampleTape = .ok replay ∧
      replay.trace (some fun _ => .ok 1000000) = .ok state ∧ replay.settle state = result ∧
      replay.EntryEnvelope (some fun _ => .ok 1000000) state.sent ∧
      result.entrySharesScaled = 1232717 := by
  have shares : ((exampleSimulator .twap).run exampleTape (some fun _ => .ok 1000000)).toOption.map
      EpisodeResult.entrySharesScaled = some 1232717 := by decide +kernel
  cases ran : (exampleSimulator .twap).run exampleTape (some fun _ => .ok 1000000) with
  | error e =>
    rw [ran] at shares
    cases shares
  | ok result =>
    rw [ran] at shares
    obtain ⟨replay, state, replayed, traced, settled, envelope⟩ :=
      run_entry_envelope (exampleParams_valid .twap) (by decide) ran
    exact ⟨result, replay, state, replayed, traced, settled, envelope, Option.some.inj shares⟩

end ThresholdHoldSimulator

end PolymarketBt
