import PolymarketBt.Proofs.FastSim.Phases
import PolymarketBt.Soundness.TapeRefinement

/-! # The accounts of one episode

Whatever path a run takes through rejected, pending, immediate and sequential entries and through
stops, profits and flattening, the reported order list is the ledger of the reported result: it opens
one position, sells at most what it holds, and every reported amount is a sum over it.
-/

namespace PolymarketBt

/-- The sum of a field over the orders of one side. -/
def sumOver (side : Side) (field : SimulatedOrder → ℤ) (orders : List SimulatedOrder) : ℤ :=
  ((orders.filter fun order => order.side = side).map field).sum

/-- The position held after a list of orders. -/
def heldAfter (orders : List SimulatedOrder) : ℤ :=
  sumOver .buy SimulatedOrder.filledSharesScaled orders -
    sumOver .sell SimulatedOrder.filledSharesScaled orders

@[simp] theorem sumOver_append (side : Side) (field : SimulatedOrder → ℤ)
    (first second : List SimulatedOrder) :
    sumOver side field (first ++ second) = sumOver side field first + sumOver side field second := by
  simp [sumOver]

/-- Orders of the side count in full. -/
theorem sumOver_own {side : Side} {field : SimulatedOrder → ℤ} {orders : List SimulatedOrder}
    (own : ∀ order ∈ orders, order.side = side) : sumOver side field orders = (orders.map field).sum := by
  rw [sumOver, List.filter_eq_self.mpr fun order member => decide_eq_true (own order member)]

/-- Orders of the other side do not count. -/
theorem sumOver_other {side : Side} {field : SimulatedOrder → ℤ} {orders : List SimulatedOrder}
    (other : ∀ order ∈ orders, order.side ≠ side) : sumOver side field orders = 0 := by
  rw [sumOver, List.filter_eq_nil_iff.mpr fun order member => by simpa using other order member]
  rfl

theorem heldAfter_append (first second : List SimulatedOrder) :
    heldAfter (first ++ second) = heldAfter first + heldAfter second := by
  simp only [heldAfter, sumOver_append]
  ring

/-- No prefix of the orders holds less than nothing, and no sell more than it holds. -/
def NeverShort (orders : List SimulatedOrder) : Prop :=
  0 ≤ heldAfter orders ∧ ∀ past order future, orders = past ++ order :: future →
    0 ≤ heldAfter past ∧ (order.side = .sell → order.filledSharesScaled ≤ heldAfter past)

theorem NeverShort.nil : NeverShort [] :=
  ⟨le_rfl, fun past order future split => by simp at split⟩

theorem NeverShort.concat {orders : List SimulatedOrder} (earlier : NeverShort orders)
    {order : SimulatedOrder} (nonneg : 0 ≤ order.filledSharesScaled)
    (covered : order.side = .sell → order.filledSharesScaled ≤ heldAfter orders) :
    NeverShort (orders ++ [order]) := by
  refine ⟨?_, fun past other future split => ?_⟩
  · rw [heldAfter_append]
    have held := earlier.1
    cases side : order.side with
    | buy =>
      have own : heldAfter [order] = order.filledSharesScaled := by simp [heldAfter, sumOver, side]
      omega
    | sell =>
      have own : heldAfter [order] = -order.filledSharesScaled := by simp [heldAfter, sumOver, side]
      have := covered side
      omega
  · rcases List.concat_eq_append_cons_iff.mp split with ⟨_, rfl, rfl⟩ | ⟨middle, _, before⟩
    · exact ⟨earlier.1, covered⟩
    · exact earlier.2 past other middle before

theorem NeverShort.buys {orders bought : List SimulatedOrder} (earlier : NeverShort orders)
    (buys : ∀ order ∈ bought, order.side = .buy ∧ 0 ≤ order.filledSharesScaled) :
    NeverShort (orders ++ bought) := by
  induction bought using List.reverseRecOn with
  | nil => simpa using earlier
  | append_singleton past order ih =>
    rw [← List.append_assoc]
    obtain ⟨side, nonneg⟩ := buys order (by simp)
    refine (ih fun other member => buys other (List.mem_append_left _ member)).concat nonneg ?_
    intro sell
    rw [side] at sell
    cases sell

theorem NeverShort.sells {orders sold : List SimulatedOrder} (earlier : NeverShort orders)
    (sells : ∀ order ∈ sold, order.side = .sell ∧ 0 ≤ order.filledSharesScaled)
    (covered : ∀ past order future, sold = past ++ order :: future → order.filledSharesScaled ≤
      heldAfter orders - (past.map SimulatedOrder.filledSharesScaled).sum) :
    NeverShort (orders ++ sold) := by
  induction sold using List.reverseRecOn with
  | nil => simpa using earlier
  | append_singleton past order ih =>
    have sellsPast : ∀ other ∈ past, other.side = .sell :=
      fun other member => (sells other (List.mem_append_left _ member)).1
    have held : heldAfter (orders ++ past) =
        heldAfter orders - (past.map SimulatedOrder.filledSharesScaled).sum := by
      have bought : sumOver .buy SimulatedOrder.filledSharesScaled past = 0 :=
        sumOver_other fun other member => by simp [sellsPast other member]
      rw [heldAfter_append, ← sumOver_own sellsPast]
      simp only [heldAfter, bought]
      ring
    rw [← List.append_assoc]
    refine (ih (fun other member => sells other (List.mem_append_left _ member)) ?_).concat
      (sells order (by simp)).2 fun _ => ?_
    · intro past' other future split
      exact covered past' other (future ++ [order]) (by rw [split]; simp)
    · rw [held]
      exact covered past order [] rfl

namespace SentOrder

variable {episode : Episode} {sent : List SentOrder}

theorem map_toOrder_shares : ((sent.map (toOrder episode)).map SimulatedOrder.filledSharesScaled).sum =
    totalShares (outcomesOf sent) := by
  simp only [List.map_map, totalShares, outcomesOf]
  rfl

theorem map_toOrder_notional : ((sent.map (toOrder episode)).map SimulatedOrder.notionalScaled).sum =
    totalNotional (outcomesOf sent) := by
  simp only [List.map_map, totalNotional, outcomesOf]
  rfl

theorem map_toOrder_fees : ((sent.map (toOrder episode)).map SimulatedOrder.feesScaled).sum =
    totalFees (outcomesOf sent) := by
  simp only [List.map_map, totalFees, outcomesOf]
  rfl

end SentOrder

/-- The reported orders are the ledger of the reported result. -/
structure EpisodeAccounts (replay : Replay) (cash : CashAvailability) (sent : List SentOrder)
    (result : EpisodeResult) : Prop where
  orders : result.orders = sent.map (SentOrder.toOrder replay.tape.episode)
  sides : ∀ order ∈ sent, order.outcome.side = .buy ↔ order.kind = .entry
  /-- All filled entry orders were sent by one attempt. -/
  one_parent : (∃ order ∈ sent, order.kind = .entry ∧ order.outcome.filled = true) →
    ∃ before parent after, sent = before ++ parent ++ after ∧ replay.IsAttempt cash before parent ∧
      ∀ order ∈ before ++ after, order.kind = .entry → order.outcome.filled = false
  held_token : ∀ order ∈ sent, order.outcome.filled = true →
    result.outcomeToken = some (replay.tape.tokenIdOf order.tokenIndex)
  bought : sumOver .buy SimulatedOrder.filledSharesScaled result.orders = result.entrySharesScaled
  sold : sumOver .sell SimulatedOrder.filledSharesScaled result.orders = result.exitSharesScaled
  split : result.entrySharesScaled = result.exitSharesScaled + result.settledSharesScaled
  never_short : NeverShort result.orders
  fees : result.feesScaled = (result.orders.map SimulatedOrder.feesScaled).sum
  entry_notional : result.entryNotionalScaled =
    sumOver .buy SimulatedOrder.notionalScaled result.orders
  exit_notional : result.exitNotionalScaled =
    sumOver .sell SimulatedOrder.notionalScaled result.orders
  payout : result.settlementPayoutScaled =
    if result.outcomeToken = replay.tape.episode.winnerTokenId then result.settledSharesScaled else 0
  net : result.netPnlScaled = sumOver .sell SimulatedOrder.notionalScaled result.orders +
    result.settlementPayoutScaled - sumOver .buy SimulatedOrder.notionalScaled result.orders -
      (result.orders.map SimulatedOrder.feesScaled).sum

namespace Replay

variable {replay : Replay} {cash : CashAvailability}

/-- A run that never entered reports a ledger of nothing. -/
theorem Flat.accounts {state : RunState} (flat : replay.Flat state) :
    EpisodeAccounts replay cash state.sent (replay.settle state) := by
  obtain ⟨shares, notional, fees⟩ := Idle.totals flat.idle
  have buys : ∀ order ∈ state.sent.map (SentOrder.toOrder replay.tape.episode), order.side = .buy := by
    intro order member
    obtain ⟨sent, inSent, rfl⟩ := List.mem_map.mp member
    exact (flat.idle sent inSent).side
  have settled : replay.settle state =
      { state.result with
        exitReason := .noEntry
        orders := state.sent.map (SentOrder.toOrder replay.tape.episode) } := by
    simp [settle, flat.entered]
  have noSells : ∀ field, sumOver .sell field
      (state.sent.map (SentOrder.toOrder replay.tape.episode)) = 0 :=
    fun field => sumOver_other fun order member => by simp [buys order member]
  rw [settled]
  refine ⟨rfl, ?_, ?_, ?_, ?_, ?_, ?_, ?_, ?_, ?_, ?_, ?_, ?_⟩
  · intro order member
    simp [(flat.idle order member).side, (flat.idle order member).kind]
  · rintro ⟨order, member, _, filled⟩
    rw [(flat.idle order member).unfilled] at filled
    cases filled
  · intro order member filled
    rw [(flat.idle order member).unfilled] at filled
    cases filled
  · rw [sumOver_own buys, SentOrder.map_toOrder_shares, shares]
    exact flat.entry.1.symm
  · rw [noSells]
    exact flat.exit.1.symm
  · rw [flat.entry.1, flat.exit.1, flat.settlement.1]
    rfl
  · refine NeverShort.nil.buys fun order member => ⟨buys order member, ?_⟩
    obtain ⟨sent, inSent, rfl⟩ := List.mem_map.mp member
    exact (flat.idle sent inSent).balanced.filled_nonneg
  · rw [SentOrder.map_toOrder_fees, fees]
    exact flat.fees
  · rw [sumOver_own buys, SentOrder.map_toOrder_notional, notional]
    exact flat.entry.2
  · rw [noSells]
    exact flat.exit.2
  · rw [flat.settlement.1, flat.settlement.2, ite_self]
  · rw [sumOver_own buys, noSells, SentOrder.map_toOrder_notional, SentOrder.map_toOrder_fees,
      notional, fees, flat.net, flat.settlement.2]
    rfl

section Entered

variable {tokenIndex : TokenIndex} {signalNs ask : ℤ} {before parent after : List SentOrder}
  {state : RunState}

/-- The orders up to the opening of the position only buy. -/
theorem Entered.buys (entered : replay.Entered cash tokenIndex signalNs ask before parent after state) :
    ∀ order ∈ (before ++ parent).map (SentOrder.toOrder replay.tape.episode),
      order.side = .buy ∧ 0 ≤ order.filledSharesScaled := by
  intro order member
  obtain ⟨sent, inSent, rfl⟩ := List.mem_map.mp member
  rcases List.mem_append.mp inSent with idle | own
  · exact ⟨(entered.idle sent idle).side, (entered.idle sent idle).balanced.filled_nonneg⟩
  · have order := entered.bounded.orders sent own
    exact ⟨order.side, order.balanced.filled_nonneg⟩

/-- The orders after it only sell. -/
theorem Entered.sells
    (entered : replay.Entered cash tokenIndex signalNs ask before parent after state) :
    ∀ order ∈ after.map (SentOrder.toOrder replay.tape.episode),
      order.side = .sell ∧ 0 ≤ order.filledSharesScaled := by
  intro order member
  obtain ⟨sent, inSent, rfl⟩ := List.mem_map.mp member
  obtain ⟨_, _, side, balanced⟩ := entered.exits sent inSent
  exact ⟨side, balanced.filled_nonneg⟩

/-- A sum over the buys is a sum over the parent, and a sum over the sells one over the exits. -/
theorem Entered.sumOver_eq
    (entered : replay.Entered cash tokenIndex signalNs ask before parent after state)
    (field : SimulatedOrder → ℤ) :
    sumOver .buy field (state.sent.map (SentOrder.toOrder replay.tape.episode)) =
        (((before ++ parent).map (SentOrder.toOrder replay.tape.episode)).map field).sum ∧
      sumOver .sell field (state.sent.map (SentOrder.toOrder replay.tape.episode)) =
        ((after.map (SentOrder.toOrder replay.tape.episode)).map field).sum := by
  rw [entered.sent, List.map_append, sumOver_append, sumOver_append,
    sumOver_own fun order member => (entered.buys order member).1,
    sumOver_own fun order member => (entered.sells order member).1,
    sumOver_other fun order member => by simp [(entered.sells order member).1],
    sumOver_other fun order member => by simp [(entered.buys order member).1]]
  exact ⟨add_zero _, zero_add _⟩

theorem Entered.neverShort
    (entered : replay.Entered cash tokenIndex signalNs ask before parent after state) :
    NeverShort (state.sent.map (SentOrder.toOrder replay.tape.episode)) := by
  rw [entered.sent, List.map_append]
  refine (NeverShort.nil.buys entered.buys).sells entered.sells ?_
  intro past order future split
  obtain ⟨front, rest, rfl, rfl, same⟩ := List.map_eq_append_iff.mp split
  obtain ⟨exit, back, rfl, rfl, rfl⟩ := List.map_eq_cons_iff.mp same
  have opening : heldAfter ([] ++ (before ++ parent).map (SentOrder.toOrder replay.tape.episode)) =
      totalShares (outcomesOf parent) := by
    rw [List.nil_append, heldAfter, sumOver_own fun order member => (entered.buys order member).1,
      sumOver_other fun order member => by simp [(entered.buys order member).1],
      SentOrder.map_toOrder_shares, outcomesOf_append, totalShares_append,
      (Idle.totals entered.idle).1]
    ring
  rw [opening, SentOrder.map_toOrder_shares]
  exact entered.sold front exit back rfl

/-- A run that entered reports its ledger. -/
theorem Entered.accounts (held : 0 ≤ state.positionShares)
    (entered : replay.Entered cash tokenIndex signalNs ask before parent after state) :
    EpisodeAccounts replay cash state.sent (replay.settle state) := by
  obtain ⟨idleShares, idleNotional, idleFees⟩ := Idle.totals entered.idle
  have shares := entered.sumOver_eq SimulatedOrder.filledSharesScaled
  have notional := entered.sumOver_eq SimulatedOrder.notionalScaled
  rw [SentOrder.map_toOrder_shares, SentOrder.map_toOrder_shares, outcomesOf_append,
    totalShares_append, idleShares, zero_add] at shares
  rw [SentOrder.map_toOrder_notional, SentOrder.map_toOrder_notional, outcomesOf_append,
    totalNotional_append, idleNotional, zero_add] at notional
  have fees : state.result.feesScaled = ((state.sent.map
      (SentOrder.toOrder replay.tape.episode)).map SimulatedOrder.feesScaled).sum := by
    rw [SentOrder.map_toOrder_fees, entered.fees, entered.sent]
    simp [idleFees]
  have settles : (replay.settle state).settledSharesScaled = state.positionShares ∧
      (replay.settle state).settlementPayoutScaled =
        (if state.result.outcomeToken = replay.tape.episode.winnerTokenId then
          state.positionShares else 0) := by
    have pays : state.positionShares * usdcScale / shareSizeScale = state.positionShares :=
      Int.mul_ediv_cancel _ (by decide)
    simp only [settle, entered.entered, Bool.not_true, Bool.false_eq_true, if_false, pays]
    constructor
    · split <;> omega
    · by_cases some : 0 < state.positionShares
      · simp [some]
      · have none : state.positionShares = 0 := by omega
        simp [none]
  have reports : (replay.settle state).orders =
        state.sent.map (SentOrder.toOrder replay.tape.episode) ∧
      (replay.settle state).outcomeToken = state.result.outcomeToken ∧
      (replay.settle state).entrySharesScaled = state.result.entrySharesScaled ∧
      (replay.settle state).entryNotionalScaled = state.result.entryNotionalScaled ∧
      (replay.settle state).exitSharesScaled = state.exitShares ∧
      (replay.settle state).exitNotionalScaled = state.exitNotional ∧
      (replay.settle state).feesScaled = state.result.feesScaled ∧
      (replay.settle state).netPnlScaled = state.exitNotional +
        (replay.settle state).settlementPayoutScaled - state.positionCost -
          state.result.feesScaled := by
    simp [settle, entered.entered]
  obtain ⟨orders, token, entryShares, entryNotional, exitShares, exitNotional, totalFees, net⟩ := reports
  refine ⟨orders, ?_, fun _ => ⟨before, parent, after, entered.sent, entered.attempt, ?_⟩, ?_, ?_, ?_,
    ?_, ?_, ?_, ?_, ?_, ?_, ?_⟩
  · rw [entered.sent]
    intro order member
    rcases List.mem_append.mp member with opening | exit
    · rcases List.mem_append.mp opening with idle | own
      · simp [(entered.idle order idle).side, (entered.idle order idle).kind]
      · simp [(entered.bounded.orders order own).side, (entered.bounded.marks order own).1]
    · obtain ⟨kind, _, side, _⟩ := entered.exits order exit
      simp [kind, side]
  · intro order member kind
    rcases List.mem_append.mp member with idle | exit
    · exact (entered.idle order idle).unfilled
    · exact absurd kind (entered.exits order exit).1
  · rw [token, entered.outcomeToken, entered.sent]
    intro order member filled
    rcases List.mem_append.mp member with opening | exit
    · rcases List.mem_append.mp opening with idle | own
      · rw [(entered.idle order idle).unfilled] at filled
        cases filled
      · rw [(entered.bounded.marks order own).2.1]
    · rw [(entered.exits order exit).2.1]
  · rw [orders, shares.1, entryShares, entered.entry.1]
  · rw [orders, shares.2, exitShares, entered.exitShares]
  · rw [entryShares, exitShares, settles.1, entered.entry.1, entered.exitShares,
      entered.positionShares]
    ring
  · rw [orders]
    exact entered.neverShort
  · rw [totalFees, orders, fees]
  · rw [orders, notional.1, entryNotional, entered.entry.2]
  · rw [orders, notional.2, exitNotional, entered.exitNotional]
  · rw [settles.1, settles.2, token]
  · rw [net, orders, notional.1, notional.2, entered.exitNotional, entered.positionCost, fees]

end Entered

/-- A completed replay settles with its accounts. -/
theorem trace_accounts (inRange : replay.params.InRange) {state : RunState}
    (ran : replay.trace cash = .ok state) :
    EpisodeAccounts replay cash state.sent (replay.settle state) := by
  rcases trace_ended inRange ran with
    flat | ⟨held, tokenIndex, signalNs, ask, before, parent, after, entered⟩
  · exact flat.accounts
  · exact entered.accounts held

end Replay

namespace ThresholdHoldSimulator

variable {simulator : ThresholdHoldSimulator} {tape : EpisodeTape} {cash : CashAvailability}
  {result : EpisodeResult}

/-- A completed run of an eligible episode settles the state its replay ended in. -/
theorem run_eq_ok (eligible : tape.episode.eligible = true)
    (ran : simulator.run tape cash = .ok result) :
    ∃ replay state, simulator.replayOf tape = .ok replay ∧ replay.trace cash = .ok state ∧
      replay.settle state = result := by
  rw [run, if_pos eligible] at ran
  obtain ⟨replay, replayed, ran⟩ := Except.bind_eq_ok.mp ran
  obtain ⟨state, traced, ran⟩ := Except.bind_eq_ok.mp ran
  exact ⟨replay, state, replayed, traced, Except.pure_eq_ok.mp ran⟩

theorem replayOf_fields {replay : Replay} (replayed : simulator.replayOf tape = .ok replay) :
    replay.params = simulator.params ∧ replay.tape = tape ∧ 0 ≤ replay.takerDelayNs := by
  obtain ⟨feeModel, _, replayed⟩ := Except.bind_eq_ok.mp replayed
  obtain rfl := Except.pure_eq_ok.mp replayed
  exact ⟨rfl, rfl, by positivity⟩

/-- The accounts of every completed episode. -/
theorem run_accounts (inRange : simulator.params.InRange) (eligible : tape.episode.eligible = true)
    (ran : simulator.run tape cash = .ok result) :
    ∃ replay sent, simulator.replayOf tape = .ok replay ∧
      EpisodeAccounts replay cash sent result := by
  obtain ⟨replay, state, replayed, traced, rfl⟩ := run_eq_ok eligible ran
  refine ⟨replay, state.sent, replayed, ?_⟩
  rw [← (replayOf_fields replayed).1] at inRange
  exact Replay.trace_accounts inRange traced

/-- Buy two shares of a favoured token from 0.79 up to 0.81, and stop out at 0.70. -/
def exampleParams (policy : EntryExecutionPolicy) : ThresholdHoldParams where
  entryFromNs := 5
  entryToNs := 600000000000
  entryTriggerPriceScaled := 790000
  entryLimitPriceScaled := 810000
  sideSelection := .favoured
  orderSharesScaled := some 2000000
  orderNotionalScaled := none
  allowPartialEntry := true
  maxEntriesPerEpisode := 1
  reentryCooldownNs := 0
  entryExecutionPolicy := policy
  executionHorizonNs := 1000000000
  executionSlices := 2
  executionParticipationPpm := 100000
  stopLossPriceScaled := some 700000
  stopLossFromNs := none
  stopLossFractionPpm := 1000000
  takeProfitPriceScaled := none
  takeProfitFractionPpm := 1000000
  stopRetryLimit := 0
  stopRetryIntervalMs := 250
  flattenBeforeEndNs := none

/-- No latency, no haircut and the default taker fee curve. -/
def exampleRealism : ExecutionRealism where
  latency := .disabled
  displayedDepthHaircutPpm := 0
  maxLevelParticipationPpm := 1000000
  maxLevelsSwept := none
  volumeParticipationPpm := none
  staleBookMaxAgeMs := none
  requireValidBook := true
  maxTicksThroughTouch := none
  maxPriceThroughTouchScaled := none
  fee := ⟨.taker, .sharesRatePOneMinusP, 7 / 100, 1, 0, .halfUp⟩
  haircut_range := no_haircut_range
  participation_range := full_participation_range
  levels_pos := unset_levels_pos
  volume_pos := unset_pos
  age_pos := unset_pos
  ticks_nonneg := unset_nonneg
  through_nonneg := unset_nonneg

def exampleSimulator (policy : EntryExecutionPolicy) : ThresholdHoldSimulator :=
  ⟨exampleParams policy, exampleRealism, fun _ => ⟨fun _ => 0, fun _ => 0⟩⟩

/-- The book of the example falls below the stop after ten seconds. -/
def fallenRow : TapeRow where
  receivedUtcNs := 10000000000
  tokenIndex := .up
  eventKind := .snapshot
  eventSide := none
  eventPriceScaled := 0
  bookValid := true
  bestBidColumn := 690000
  bestAskColumn := 720000
  bids := .store none [(690000, 1500000)]
  asks := .store none [(720000, 7000000)]

def exampleTape : EpisodeTape :=
  ⟨TapeBuilder.exampleEpisode, none, [TapeBuilder.exampleRow none 780000 800000, fallenRow], [], []⟩

theorem exampleParams_inRange (policy : EntryExecutionPolicy) : (exampleParams policy).InRange := by
  constructor <;> simp [exampleParams, polymarketPriceScale, ppm]

theorem exampleParams_valid (policy : EntryExecutionPolicy) : (exampleParams policy).Valid := by
  refine ⟨exampleParams_inRange policy, ?_⟩
  constructor <;> simp [exampleParams]

/-- Two shares are bought, one and a half are stopped out, and half a share settles as the winner. -/
theorem run_accounts_stopped_out :
    ∃ result replay sent, (exampleSimulator .immediate).replayOf exampleTape = .ok replay ∧
      EpisodeAccounts replay none sent result ∧ result.netPnlScaled = -109860 := by
  have net : ((exampleSimulator .immediate).run exampleTape none).toOption.map
      EpisodeResult.netPnlScaled = some (-109860) := by decide +kernel
  cases ran : (exampleSimulator .immediate).run exampleTape none with
  | error e =>
    rw [ran] at net
    cases net
  | ok result =>
    rw [ran] at net
    obtain ⟨replay, sent, replayed, accounts⟩ :=
      run_accounts (exampleParams_inRange .immediate) (by decide) ran
    exact ⟨result, replay, sent, replayed, accounts, Option.some.inj net⟩

end ThresholdHoldSimulator

end PolymarketBt
