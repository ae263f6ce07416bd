import PolymarketBt.Model.CompoundReplay
import PolymarketBt.Proofs.FastSim.CashAgreement
import PolymarketBt.Proofs.FastSim.Exits
import PolymarketBt.Soundness.EntryEnvelope
import PolymarketBt.ToMathlib.DatedFlows

/-! # The cash flows of one episode

The filled buys of a completed run are dated purchases, and its filled sells and its payout dated
credits. Each purchase falls into the market, is paid by the cash of its arrival together with those
before it, and credits less purchases are the net profit.
-/

namespace PolymarketBt

open DatedFlows

namespace SimulatedOrder

/-- The cash a buy takes at its arrival. -/
def purchase (order : SimulatedOrder) : ℤ × ℤ :=
  (order.arrivalUtcNs, order.notionalScaled + order.feesScaled)

/-- The cash a sell brings at its arrival. -/
def sale (order : SimulatedOrder) : ℤ × ℤ :=
  (order.arrivalUtcNs, order.notionalScaled - order.feesScaled)

end SimulatedOrder

/-- The orders of a side that moved cash. -/
def filledOf (side : Side) (orders : List SimulatedOrder) : List SimulatedOrder :=
  orders.filter fun order => order.side = side ∧ order.filledSharesScaled ≠ 0

theorem mem_filledOf {side : Side} {orders : List SimulatedOrder} {order : SimulatedOrder} :
    order ∈ filledOf side orders ↔
      order ∈ orders ∧ order.side = side ∧ order.filledSharesScaled ≠ 0 := by
  simp [filledOf]

/-- Amounts that unfilled orders do not have are summed over the filled ones. -/
theorem sum_filledOf {side : Side} {amount : SimulatedOrder → ℤ} {orders : List SimulatedOrder}
    (none : ∀ order ∈ orders, order.filledSharesScaled = 0 → amount order = 0) :
    ((filledOf side orders).map amount).sum = sumOver side amount orders := by
  have split : filledOf side orders = (orders.filter fun order => order.side = side).filter
      fun order => order.filledSharesScaled ≠ 0 := by
    rw [List.filter_filter, filledOf]
    exact List.filter_congr fun order _ => by simp [Bool.and_comm]
  rw [split, sumOver]
  refine List.sum_filter_of_zero fun order member unfilled => ?_
  exact none order (List.mem_of_mem_filter member) (by simpa using unfilled)

theorem sumOver_add_sub (side : Side) (field other : SimulatedOrder → ℤ) (orders : List SimulatedOrder) :
    sumOver side (fun order => field order + other order) orders =
        sumOver side field orders + sumOver side other orders ∧
      sumOver side (fun order => field order - other order) orders =
        sumOver side field orders - sumOver side other orders := by
  simp only [sumOver]
  refine ⟨List.sum_map_add, ?_⟩
  induction orders.filter fun order => order.side = side with
  | nil => rfl
  | cons order rest ih =>
    simp only [List.map_cons, List.sum_cons, ih]
    ring

/-- Every order is on one of the two sides. -/
theorem sum_eq_sides (field : SimulatedOrder → ℤ) (orders : List SimulatedOrder) :
    (orders.map field).sum = sumOver .buy field orders + sumOver .sell field orders := by
  have sides : ∀ order ∈ orders, ((decide (order.side = .buy) = true ∨
      decide (order.side = .sell) = true) ↔ true = true) ∧
        ¬ (decide (order.side = .buy) = true ∧ decide (order.side = .sell) = true) :=
    fun order _ => by cases order.side <;> simp
  have all := List.sum_filter_add field _ _ (fun _ => true) sides
  rw [List.filter_true] at all
  exact all.symm

namespace EpisodeResult

def purchases (result : EpisodeResult) : List (ℤ × ℤ) :=
  (filledOf .buy result.orders).map SimulatedOrder.purchase

def sales (result : EpisodeResult) : List (ℤ × ℤ) :=
  (filledOf .sell result.orders).map SimulatedOrder.sale

/-- The payout of what was held to the end. -/
def settlement (episode : ResolvedEpisode) (result : EpisodeResult) : List (ℤ × ℤ) :=
  if result.settledSharesScaled = 0 then []
  else [(episode.payoutNs, result.settlementPayoutScaled)]

def credits (episode : ResolvedEpisode) (result : EpisodeResult) : List (ℤ × ℤ) :=
  result.sales ++ result.settlement episode

end EpisodeResult

/-- What the wallet relies on when it books the result of a market. -/
structure Bookable (episode : ResolvedEpisode) (cash : ℤ → ℤ) (result : EpisodeResult) : Prop where
  bought : ∀ purchase ∈ result.purchases,
    episode.startUtcNs ≤ purchase.1 ∧ purchase.1 < episode.endUtcNs ∧ 0 ≤ purchase.2
  paid : Paid cash result.purchases
  sold : ∀ sale ∈ result.sales, episode.startUtcNs ≤ sale.1
  settles : result.settledSharesScaled ≠ 0 → episode.startUtcNs ≤ episode.endUtcNs
  payout : 0 ≤ result.settlementPayoutScaled
  net : result.netPnlScaled = total (result.credits episode) - total result.purchases

namespace Replay

variable {replay : Replay} {cash : CashAvailability}

/-- The cash an outcome takes at its arrival. -/
def flow (outcome : ExecutionOutcome) : ℤ × ℤ := (outcome.arrivalUtcNs, outcome.cost)

/-- The filled ones among affordable outcomes are paid. -/
theorem Affordable.paid {executor : TakerExecutor} {balance : ℤ → ℤ} {outcomes : List ExecutionOutcome}
    (affordable : Affordable (some fun instant => .ok (balance instant)) outcomes)
    (balanced : ∀ outcome ∈ outcomes, outcome.Balanced executor)
    (solvent : ∀ instant, 0 ≤ balance instant) :
    Paid balance ((outcomes.filter ExecutionOutcome.filled).map flow) := by
  have spent : ∀ items, (∀ outcome ∈ items, outcome ∈ outcomes) →
      total ((items.filter ExecutionOutcome.filled).map flow) = totalCost items := by
    intro items among
    rw [total, List.map_map]
    refine List.sum_filter_of_zero fun outcome member unfilled => ?_
    obtain ⟨_, _, notional, fees⟩ := (balanced outcome (among outcome member)).of_unfilled unfilled
    simp [flow, ExecutionOutcome.cost, notional, fees]
  intro past purchase future split
  obtain ⟨early, late, parted, rfl, rest⟩ := List.map_eq_append_iff.mp split
  obtain ⟨outcome, after, rfl, rfl, rfl⟩ := List.map_eq_cons_iff.mp rest
  obtain ⟨first, second, same, rfl, tail⟩ := List.filter_eq_append_iff.mp parted
  obtain ⟨skipped, later, rfl, unfilled, filled, _⟩ := List.filter_eq_cons_iff.mp tail
  obtain ⟨available, asked, fits⟩ :=
    affordable (first ++ skipped) outcome later (by rw [same, List.append_assoc]) filled
  have cash : cashAt (some fun instant => .ok (balance instant)) outcome.arrivalUtcNs =
      .ok (some (balance outcome.arrivalUtcNs)) := by
    rw [← max_eq_right (solvent outcome.arrivalUtcNs)]
    rfl
  obtain rfl := Except.ok.inj (cash.symm.trans asked)
  have none : skipped.filter ExecutionOutcome.filled = [] := List.filter_eq_nil_iff.mpr unfilled
  have before : total ((first.filter ExecutionOutcome.filled).map flow) = totalCost (first ++ skipped) := by
    rw [← spent (first ++ skipped) fun other member => ?_, List.filter_append, none, List.append_nil]
    rw [same, ← List.append_assoc]
    exact List.mem_append_left _ member
  rw [before]
  exact fits _ rfl

/-- Every order of a completed replay balances, arrives after its decision and costs nothing negative. -/
theorem trace_booked (venue : 0 ≤ replay.takerDelayNs)
    (priced : ∀ row ∈ replay.tape.rows, ∀ side, PricedLadder (row.ladder side)) {final : RunState}
    (ran : replay.trace cash = .ok final) :
    ∀ order ∈ final.sent, order.outcome.Balanced replay.executor ∧
      order.outcome.decisionUtcNs ≤ order.outcome.arrivalUtcNs ∧ 0 ≤ order.outcome.cost := by
  intro order member
  obtain ⟨decisionNs, sent⟩ := trace_sends ran order member
  have cost := sent.priced priced
  obtain ⟨request, context, after, _, sendRan⟩ := sent
  have sends := send_spec sendRan
  exact ⟨sends.balanced, sends.decided ▸ sends.arrived venue, sends.balanced.cost_nonneg cost⟩

/-- The exits of a run that bought anything come after the start of the market. -/
theorem trace_exits_after (inRange : replay.params.InRange) (venue : 0 ≤ replay.takerDelayNs)
    (priced : ∀ row ∈ replay.tape.rows, ∀ side, PricedLadder (row.ladder side)) {final : RunState}
    (ran : replay.trace cash = .ok final) {entry exit : SentOrder} (bought : entry ∈ final.sent)
    (opens : entry.kind = .entry) (filled : entry.outcome.filled = true) (sold : exit ∈ final.sent)
    (closes : exit.kind ≠ .entry) :
    replay.tape.episode.startUtcNs ≤ exit.outcome.arrivalUtcNs := by
  have booked := trace_booked venue priced ran
  obtain ⟨opening, exits, exited⟩ := trace_exited inRange ran
  rw [exited.sent] at bought sold
  have entered : entry ∈ opening :=
    (List.mem_append.mp bought).resolve_right fun other => exited.schedule.sells entry other opens
  have left : exit ∈ exits :=
    (List.mem_append.mp sold).resolve_left fun other => closes (exited.schedule.opens exit other)
  rw [← exited.sent] at bought sold
  have within := (trace_envelope inRange ran).each entry bought opens filled
  have effective := exited.schedule.afterEntry entry entered filled exit left
  -- The position exists no sooner than the arrival that filled it.
  have arrived : entry.outcome.arrivalUtcNs ≤ replay.effectiveNs entry := by
    unfold effectiveNs
    split
    · exact le_rfl
    · next sequential => exact (within.deadline sequential).1
  have offset := inRange.entryFrom_nonneg
  have opened := within.window.1
  unfold entryFromNs at opened
  have entryArrives := (booked entry bought).2.1
  have exitArrives := (booked exit sold).2.1
  omega

section Accounts

variable {result : EpisodeResult} {sent : List SentOrder}

/-- An order that reports no fill moves no cash. -/
theorem unfilled_order (balanced : ∀ order ∈ sent, order.outcome.Balanced replay.executor)
    (accounts : EpisodeAccounts replay cash sent result) :
    ∀ order ∈ result.orders, 0 ≤ order.filledSharesScaled ∧
      (order.filledSharesScaled = 0 → order.notionalScaled = 0 ∧ order.feesScaled = 0) := by
  rw [accounts.orders]
  intro order member
  obtain ⟨own, inSent, rfl⟩ := List.mem_map.mp member
  refine ⟨(balanced own inSent).filled_nonneg, fun none => ?_⟩
  have unfilled : own.outcome.filled = false := decide_eq_false (not_lt.mpr none.le)
  obtain ⟨_, _, notional, fees⟩ := (balanced own inSent).of_unfilled unfilled
  exact ⟨notional, fees⟩

/-- What is settled is what the orders left, and pays no more than that. -/
theorem settled_nonneg (accounts : EpisodeAccounts replay cash sent result) :
    0 ≤ result.settledSharesScaled ∧ 0 ≤ result.settlementPayoutScaled ∧
      (result.settledSharesScaled = 0 → result.settlementPayoutScaled = 0) := by
  have held := accounts.never_short.1
  rw [heldAfter, accounts.bought, accounts.sold] at held
  have split := accounts.split
  rw [accounts.payout]
  split <;> omega

/-- Credits less purchases are the net profit. -/
theorem net_flows (balanced : ∀ order ∈ sent, order.outcome.Balanced replay.executor)
    (accounts : EpisodeAccounts replay cash sent result) (episode : ResolvedEpisode) :
    result.netPnlScaled = total (result.credits episode) - total result.purchases := by
  have none := unfilled_order balanced accounts
  have purchases : total result.purchases = sumOver .buy SimulatedOrder.notionalScaled result.orders +
      sumOver .buy SimulatedOrder.feesScaled result.orders := by
    rw [← (sumOver_add_sub _ _ _ _).1, ← sum_filledOf fun order member unfilled => by
      rw [((none order member).2 unfilled).1, ((none order member).2 unfilled).2, add_zero],
      EpisodeResult.purchases, total, List.map_map]
    rfl
  have sales : total result.sales = sumOver .sell SimulatedOrder.notionalScaled result.orders -
      sumOver .sell SimulatedOrder.feesScaled result.orders := by
    rw [← (sumOver_add_sub _ _ _ _).2, ← sum_filledOf fun order member unfilled => by
      rw [((none order member).2 unfilled).1, ((none order member).2 unfilled).2, sub_zero],
      EpisodeResult.sales, total, List.map_map]
    rfl
  have settlement : total (result.settlement episode) = result.settlementPayoutScaled := by
    unfold EpisodeResult.settlement
    split
    · next held => exact ((settled_nonneg accounts).2.2 held).symm
    · exact total_singleton _
  rw [EpisodeResult.credits, total_append, purchases, sales, settlement, accounts.net,
    sum_eq_sides SimulatedOrder.feesScaled]
  ring

/-- Nothing is sold or settled that was not bought. -/
theorem exists_entry (balanced : ∀ order ∈ sent, order.outcome.Balanced replay.executor)
    (accounts : EpisodeAccounts replay cash sent result)
    (moved : result.settledSharesScaled ≠ 0 ∨ ∃ order, order ∈ filledOf .sell result.orders) :
    ∃ entry ∈ sent, entry.kind = .entry ∧ entry.outcome.filled = true := by
  have nonneg := fun order member => (unfilled_order balanced accounts order member).1
  by_contra none
  have bought : sumOver .buy SimulatedOrder.filledSharesScaled result.orders = 0 := by
    rw [sumOver, accounts.orders]
    refine List.sum_eq_zero fun shares member => ?_
    obtain ⟨order, buys, rfl⟩ := List.mem_map.mp member
    obtain ⟨inOrders, side⟩ := List.mem_filter.mp buys
    obtain ⟨entry, inSent, rfl⟩ := List.mem_map.mp inOrders
    have kind := (accounts.sides entry inSent).mp (of_decide_eq_true side)
    have unfilled : entry.outcome.filled = false :=
      Bool.eq_false_iff.mpr fun filled => none ⟨entry, inSent, kind, filled⟩
    exact ((balanced entry inSent).of_unfilled unfilled).1
  have settled := (settled_nonneg accounts).1
  have split := accounts.split
  rw [← accounts.bought, bought, ← accounts.sold] at split
  have amounts : ∀ shares ∈ (result.orders.filter fun order => order.side = .sell).map
      SimulatedOrder.filledSharesScaled, 0 ≤ shares := by
    intro shares member
    obtain ⟨order, inSide, rfl⟩ := List.mem_map.mp member
    exact nonneg order (List.mem_of_mem_filter inSide)
  have sold := List.sum_nonneg amounts
  rw [← sumOver] at sold
  rcases moved with held | ⟨order, member⟩
  · omega
  obtain ⟨inOrders, side, filled⟩ := mem_filledOf.mp member
  have least := List.single_le_sum amounts order.filledSharesScaled
    (List.mem_map_of_mem (List.mem_filter.mpr ⟨inOrders, decide_eq_true side⟩))
  rw [← sumOver] at least
  have := nonneg order inOrders
  omega

/-- The purchases of a result are the flows of its filled entry orders. -/
theorem purchases_eq (accounts : EpisodeAccounts replay cash sent result)
    (balanced : ∀ order ∈ sent, order.outcome.Balanced replay.executor) :
    result.purchases = ((entriesOf sent).filter ExecutionOutcome.filled).map flow := by
  have kept : ∀ order ∈ sent, decide ((order.toOrder replay.tape.episode).side = .buy ∧
      (order.toOrder replay.tape.episode).filledSharesScaled ≠ 0) =
        (order.outcome.filled && decide (order.kind = .entry)) := by
    intro order member
    have side : (order.toOrder replay.tape.episode).side = .buy ↔ order.kind = .entry :=
      accounts.sides order member
    have moved : (order.toOrder replay.tape.episode).filledSharesScaled ≠ 0 ↔
        order.outcome.filled = true := by
      have nonneg := (balanced order member).filled_nonneg
      change order.outcome.filledSharesScaled ≠ 0 ↔ decide (0 < order.outcome.filledSharesScaled) = true
      rw [decide_eq_true_iff]
      omega
    rw [Bool.eq_iff_iff, decide_eq_true_iff, Bool.and_eq_true, decide_eq_true_iff, side, moved, and_comm]
  rw [EpisodeResult.purchases, filledOf, accounts.orders, List.filter_map, List.map_map, entriesOf,
    outcomesOf, List.filter_map, List.filter_filter, List.map_map]
  exact congrArg _ (List.filter_congr kept)

end Accounts

/-- A completed replay leaves a result the wallet can book, its sells aside. -/
theorem settle_bookable {episode : ResolvedEpisode} {balance : ℤ → ℤ} {state : RunState}
    (market : replay.tape.episode = episode.toEpisode) (inRange : replay.params.InRange)
    (venue : 0 ≤ replay.takerDelayNs)
    (priced : ∀ row ∈ replay.tape.rows, ∀ side, PricedLadder (row.ladder side))
    (solvent : ∀ instant, 0 ≤ balance instant)
    (ran : replay.trace (some fun instant => .ok (balance instant)) = .ok state) :
    Bookable episode balance (replay.settle state) := by
  have accounts := trace_accounts inRange ran
  have booked := trace_booked venue priced ran
  have balanced := fun order member => (booked order member).1
  have envelope := trace_envelope inRange ran
  have window : ∀ entry ∈ state.sent, entry.kind = .entry → entry.outcome.filled = true →
      episode.startUtcNs ≤ entry.outcome.arrivalUtcNs ∧
        entry.outcome.arrivalUtcNs < episode.endUtcNs := by
    intro entry member opens filled
    have within := envelope.each entry member opens filled
    have arrives := (booked entry member).2.1
    have offset := inRange.entryFrom_nonneg
    have opened := within.window.1
    have open_ := within.open_market
    unfold entryFromNs at opened
    rw [market] at opened open_
    omega
  have bought := purchases_eq accounts balanced
  refine ⟨?_, ?_, ?_, fun settled => ?_, (settled_nonneg accounts).2.1,
    net_flows balanced accounts episode⟩
  · rw [bought]
    intro purchase member
    obtain ⟨outcome, inFilled, rfl⟩ := List.mem_map.mp member
    obtain ⟨inEntries, filled⟩ := List.mem_filter.mp inFilled
    obtain ⟨entry, inKind, rfl⟩ := List.mem_map.mp inEntries
    obtain ⟨inSent, kind⟩ := List.mem_filter.mp inKind
    obtain ⟨opened, open_⟩ := window entry inSent (of_decide_eq_true kind) filled
    exact ⟨opened, open_, (booked entry inSent).2.2⟩
  · have entries : ∀ outcome ∈ entriesOf state.sent, outcome.Balanced replay.executor := by
      intro outcome member
      obtain ⟨entry, inKind, rfl⟩ := List.mem_map.mp member
      exact balanced entry (List.mem_of_mem_filter inKind)
    rw [bought]
    exact envelope.affordable.paid entries solvent
  · intro sale member
    obtain ⟨order, sold, rfl⟩ := List.mem_map.mp member
    obtain ⟨entry, inSent, opens, filled⟩ := exists_entry balanced accounts (.inr ⟨order, sold⟩)
    obtain ⟨inOrders, side, _⟩ := mem_filledOf.mp sold
    rw [accounts.orders] at inOrders
    obtain ⟨exit, exitSent, rfl⟩ := List.mem_map.mp inOrders
    have closes : exit.kind ≠ .entry := by
      intro kind
      have buys := (accounts.sides exit exitSent).mpr kind
      rw [show exit.outcome.side = .sell from side] at buys
      cases buys
    have after := trace_exits_after inRange venue priced ran inSent opens filled exitSent closes
    rwa [market] at after
  · obtain ⟨entry, inSent, opens, filled⟩ := exists_entry balanced accounts (.inl settled)
    have within := window entry inSent opens filled
    omega

end Replay

namespace ThresholdHoldSimulator

variable {simulator : ThresholdHoldSimulator} {tape : EpisodeTape} {left right : ℤ → Except PyError ℤ}

/-- Sources of cash that agree from the start of the market to its end give the same run. -/
theorem run_congr (inRange : simulator.params.InRange)
    (agree : ∀ instant, tape.episode.startUtcNs ≤ instant → instant ≤ tape.episode.endUtcNs →
      left instant = right instant) :
    simulator.run tape (some left) = simulator.run tape (some right) := by
  unfold run
  split
  swap
  · rfl
  refine Except.bind_congr_ok fun replay replayed => ?_
  obtain ⟨params, same, venue⟩ := replayOf_fields replayed
  rw [← params] at inRange
  rw [← same] at agree
  rw [Replay.trace_congr inRange venue agree]

/-- Every completed run of an eligible market can be booked, its sells aside. -/
theorem run_bookable {episode : ResolvedEpisode} {balance : ℤ → ℤ} {result : EpisodeResult}
    (inRange : simulator.params.InRange) (market : tape.episode = episode.toEpisode)
    (eligible : tape.episode.eligible = true)
    (priced : ∀ row ∈ tape.rows, ∀ side, PricedLadder (row.ladder side))
    (solvent : ∀ instant, 0 ≤ balance instant)
    (ran : simulator.run tape (some fun instant => .ok (balance instant)) = .ok result) :
    Bookable episode balance result := by
  obtain ⟨replay, state, replayed, traced, rfl⟩ := run_eq_ok eligible ran
  obtain ⟨params, same, venue⟩ := replayOf_fields replayed
  rw [← params] at inRange
  rw [← same] at market priced
  exact Replay.settle_bookable market inRange venue priced solvent traced

end ThresholdHoldSimulator

end PolymarketBt
