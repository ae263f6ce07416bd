import PolymarketBt.Soundness.ExitMachine

/-! # Shares that were offered and not sold

A report calls whatever is left after a run with exits unfilled. That is right when the last exit
asked for the whole position. A last exit for a fraction of it leaves the rest on purpose, and the
report counts that part too, unless earlier exits had already failed to sell as much.
-/

namespace PolymarketBt

open Replay

/-- What a list of orders has bought and not sold. -/
def heldShares (orders : List SimulatedOrder) : ℤ :=
  ((orders.filter fun order => order.kind = .entry).map SimulatedOrder.filledSharesScaled).sum -
    ((orders.filter fun order => order.kind ≠ .entry).map SimulatedOrder.filledSharesScaled).sum

/-- What the exits of a list of orders asked to sell and did not. -/
def exitShortfall (orders : List SimulatedOrder) : ℤ :=
  ((orders.filter fun order => order.kind ≠ .entry).map fun order =>
    order.requestedSharesScaled - order.filledSharesScaled).sum

/-- The reported unfilled shares are shares that exits failed to sell. -/
structure UnfilledAccounted (result : EpisodeResult) : Prop where
  covered : result.unfilledExitSharesScaled ≤ exitShortfall result.orders
  complete : (∀ order ∈ result.orders, order.kind ≠ .entry →
      order.filledSharesScaled = order.requestedSharesScaled) →
    result.unfilledExitSharesScaled = 0 ∧ result.exitReason ≠ .stopUnfilledHeldToSettlement

/-- The last exit leaves no more out than the earlier ones failed to sell. -/
def LeavesNothing (orders : List SimulatedOrder) : Prop :=
  ∀ past last, orders = past ++ [last] → last.kind ≠ .entry →
    heldShares past - last.requestedSharesScaled ≤ exitShortfall past

theorem exitShortfall_append (first second : List SimulatedOrder) :
    exitShortfall (first ++ second) = exitShortfall first + exitShortfall second := by
  simp [exitShortfall]

@[simp] theorem SentOrder.toOrder_kind (episode : Episode) (sent : SentOrder) :
    (sent.toOrder episode).kind = sent.kind := rfl

section Opened

variable {episode : Episode} {opening exits : List SentOrder}

/-- The exits among the orders of a run. -/
theorem filter_exits (opens : ∀ order ∈ opening, order.kind = .entry)
    (sells : ∀ order ∈ exits, order.kind ≠ .entry) :
    ((opening ++ exits).map (SentOrder.toOrder episode)).filter (fun order => order.kind ≠ .entry) =
      exits.map (SentOrder.toOrder episode) := by
  rw [List.map_append, List.filter_append, List.filter_eq_nil_iff.mpr, List.filter_eq_self.mpr]
  · rfl
  · intro order member
    obtain ⟨sent, inside, rfl⟩ := List.mem_map.mp member
    exact decide_eq_true (sells sent inside)
  · intro order member
    obtain ⟨sent, inside, rfl⟩ := List.mem_map.mp member
    exact fun kept => of_decide_eq_true kept (opens sent inside)

theorem filter_entries (opens : ∀ order ∈ opening, order.kind = .entry)
    (sells : ∀ order ∈ exits, order.kind ≠ .entry) :
    ((opening ++ exits).map (SentOrder.toOrder episode)).filter (fun order => order.kind = .entry) =
      opening.map (SentOrder.toOrder episode) := by
  rw [List.map_append, List.filter_append, List.filter_eq_self.mpr, List.filter_eq_nil_iff.mpr]
  · exact List.append_nil _
  · intro order member
    obtain ⟨sent, inside, rfl⟩ := List.mem_map.mp member
    exact fun kept => sells sent inside (of_decide_eq_true kept)
  · intro order member
    obtain ⟨sent, inside, rfl⟩ := List.mem_map.mp member
    exact decide_eq_true (opens sent inside)

theorem heldShares_eq (episode : Episode) (opens : ∀ order ∈ opening, order.kind = .entry)
    (sells : ∀ order ∈ exits, order.kind ≠ .entry) :
    heldShares ((opening ++ exits).map (SentOrder.toOrder episode)) =
      heldAfterExits opening exits := by
  rw [heldShares, filter_entries opens sells, filter_exits opens sells,
    SentOrder.map_toOrder_shares, SentOrder.map_toOrder_shares]
  rfl

/-- Exits that fill no more than they ask for fall short by nothing or more. -/
theorem exitShortfall_nonneg (episode : Episode) (opens : ∀ order ∈ opening, order.kind = .entry)
    (sells : ∀ order ∈ exits, order.kind ≠ .entry)
    (filled : ∀ exit ∈ exits, exit.outcome.filledSharesScaled ≤ exit.outcome.requestedSharesScaled) :
    0 ≤ exitShortfall ((opening ++ exits).map (SentOrder.toOrder episode)) := by
  rw [exitShortfall, filter_exits opens sells]
  refine List.sum_nonneg fun amount member => ?_
  obtain ⟨order, inOrders, rfl⟩ := List.mem_map.mp member
  obtain ⟨sent, inside, rfl⟩ := List.mem_map.mp inOrders
  have := filled sent inside
  change 0 ≤ sent.outcome.requestedSharesScaled - sent.outcome.filledSharesScaled
  omega

end Opened

namespace Replay

variable {replay : Replay} {cash : CashAvailability} {opening exits : List SentOrder}
  {state : RunState}

/-- A replay without exits reports nothing unfilled. -/
theorem Exited.settle_nil (exited : replay.Exited opening [] state) :
    (replay.settle state).unfilledExitSharesScaled = 0 ∧
      (replay.settle state).exitReason ≠ .stopUnfilledHeldToSettlement := by
  have reason := exited.deliberate rfl
  unfold settle
  dsimp only
  split
  · exact ⟨exited.unreported, by simp⟩
  · rcases reason with same | same <;> simp [same, exited.unreported]

/-- After an exit, whatever is held is reported as unfilled. -/
theorem Exited.settle_concat {exit : SentOrder} (exited : replay.Exited opening (exits ++ [exit]) state)
    (entered : state.result.entered = true) :
    (replay.settle state).unfilledExitSharesScaled = state.positionShares ∧
      ((replay.settle state).exitReason = .stopUnfilledHeldToSettlement → 0 < state.positionShares) := by
  have reason := exited.reason exit (by simp)
  have nonneg := exited.nonneg
  have attempted : state.exitReason = .stopLoss ∨ state.exitReason = .takeProfit ∨
      state.exitReason = .flattenBeforeEnd := by
    rw [reason]
    cases exit.kind <;> simp [exitReasonOf]
  have other : state.exitReason ≠ .stopUnfilledHeldToSettlement := by
    rcases attempted with same | same | same <;> simp [same]
  unfold settle
  simp only [entered, Bool.not_true, Bool.false_eq_true, if_false, attempted, and_true,
    exited.unreported]
  constructor
  · split <;> omega
  · intro stopped
    by_contra none
    rw [if_neg fun held => none held.1] at stopped
    exact other stopped

/-- A loop that has sold something has entered. -/
theorem Exited.entered {exit : SentOrder} (exited : replay.Exited opening exits state)
    (ended : replay.Ended cash state) (member : exit ∈ exits) : state.result.entered = true := by
  rcases ended with flat | ⟨_, _, _, _, _, _, _, entered⟩
  · have idle := flat.idle exit (by
      rw [exited.sent]
      exact List.mem_append_right _ member)
    exact absurd idle.kind (exited.schedule.sells exit member)
  · exact entered.entered

/-- The report accounts for its unfilled shares exactly when the last exit leaves nothing out. -/
theorem Exited.accounted_iff (exited : replay.Exited opening exits state)
    (ended : replay.Ended cash state) :
    UnfilledAccounted (replay.settle state) ↔ LeavesNothing (replay.settle state).orders := by
  have schedule := exited.schedule
  have orders : (replay.settle state).orders =
      (opening ++ exits).map (SentOrder.toOrder replay.tape.episode) := by
    rw [Replay.settle_orders, exited.sent]
  have shortfall := exitShortfall_nonneg replay.tape.episode schedule.opens
    schedule.sells exited.filled
  rcases List.eq_nil_or_concat exits with rfl | ⟨past, exit, rfl⟩
  · obtain ⟨none, reason⟩ := exited.settle_nil
    rw [← orders] at shortfall
    refine iff_of_true ⟨none.trans_le shortfall, fun _ => ⟨none, reason⟩⟩ fun before last split sells => ?_
    rw [orders, List.append_nil] at split
    obtain ⟨opened, member, same⟩ := List.mem_map.mp
      (show last ∈ opening.map (SentOrder.toOrder replay.tape.episode) by
        rw [split]
        exact List.mem_append_right _ List.mem_cons_self)
    rw [← same] at sells
    exact absurd (schedule.opens opened member) sells
  rw [List.concat_eq_append] at exited schedule orders shortfall
  have sellsPast : ∀ order ∈ past, order.kind ≠ .entry :=
    fun order member => schedule.sells order (List.mem_append_left _ member)
  have sells : exit.kind ≠ .entry := schedule.sells exit (by simp)
  have entered : state.result.entered = true :=
    exited.entered ended (List.mem_append_right _ (List.mem_singleton_self exit))
  obtain ⟨unfilled, stopped⟩ := exited.settle_concat entered
  have position := exited.position
  rw [heldAfterExits_concat, ← heldShares_eq replay.tape.episode schedule.opens
    sellsPast] at position
  have split : (replay.settle state).orders =
      (opening ++ past).map (SentOrder.toOrder replay.tape.episode) ++
        [exit.toOrder replay.tape.episode] := by
    rw [orders]
    simp
  have last : exitShortfall [exit.toOrder replay.tape.episode] =
      exit.outcome.requestedSharesScaled - exit.outcome.filledSharesScaled := by
    have own : [exit.toOrder replay.tape.episode].filter (fun order => order.kind ≠ .entry) =
        [exit.toOrder replay.tape.episode] :=
      List.filter_eq_self.mpr fun order member => by
        rw [List.mem_singleton.mp member]
        exact decide_eq_true sells
    rw [exitShortfall, own]
    exact List.sum_singleton
  constructor
  · intro accounted before order same _
    obtain ⟨rfl, final⟩ := List.append_inj' (same.symm.trans split) rfl
    obtain rfl := (List.cons.inj final).1
    have covered := accounted.covered
    rw [unfilled, split, exitShortfall_append, last] at covered
    change heldShares _ - exit.outcome.requestedSharesScaled ≤ _
    omega
  · intro leaves
    have left := leaves _ _ split sells
    change heldShares _ - exit.outcome.requestedSharesScaled ≤ _ at left
    have covered : (replay.settle state).unfilledExitSharesScaled ≤
        exitShortfall (replay.settle state).orders := by
      rw [unfilled, split, exitShortfall_append, last]
      omega
    refine ⟨covered, fun complete => ?_⟩
    have none : exitShortfall (replay.settle state).orders = 0 := by
      refine List.sum_eq_zero fun amount member => ?_
      obtain ⟨order, inside, rfl⟩ := List.mem_map.mp member
      obtain ⟨member, kind⟩ := List.mem_filter.mp inside
      rw [complete order member (of_decide_eq_true kind), sub_self]
    have nonneg := exited.nonneg
    rw [unfilled, none] at covered
    refine ⟨by omega, fun same => ?_⟩
    have := stopped same
    omega

/-- Exits for the whole position leave nothing out. -/
theorem Exited.leavesNothing (exited : replay.Exited opening exits state)
    (whole : WholeExits replay.params) : LeavesNothing (replay.settle state).orders := by
  have schedule := exited.schedule
  intro before last split sells
  rw [Replay.settle_orders, exited.sent] at split
  rcases List.eq_nil_or_concat exits with rfl | ⟨past, exit, rfl⟩
  · rw [List.append_nil] at split
    obtain ⟨opened, member, same⟩ := List.mem_map.mp
      (show last ∈ opening.map (SentOrder.toOrder replay.tape.episode) by
        rw [split]
        exact List.mem_append_right _ List.mem_cons_self)
    rw [← same] at sells
    exact absurd (schedule.opens opened member) sells
  rw [List.concat_eq_append] at exited schedule split
  rw [← List.append_assoc, List.map_append] at split
  obtain ⟨rfl, final⟩ := List.append_inj' split rfl
  obtain rfl := (List.cons.inj final).1
  have sellsPast : ∀ order ∈ past, order.kind ≠ .entry :=
    fun order member => schedule.sells order (List.mem_append_left _ member)
  have asked := exited.asks whole past exit [] rfl
  have shortfall := exitShortfall_nonneg replay.tape.episode schedule.opens sellsPast
    fun order member => exited.filled order (List.mem_append_left _ member)
  rw [heldShares_eq _ schedule.opens sellsPast]
  change _ - exit.outcome.requestedSharesScaled ≤ _
  omega

end Replay

namespace ThresholdHoldSimulator

variable {simulator : ThresholdHoldSimulator} {tape : EpisodeTape} {cash : CashAvailability}
  {result : EpisodeResult}

/-- Stop out half of the position, once. -/
def halfStopSimulator : ThresholdHoldSimulator :=
  ⟨{ exampleParams .immediate with stopLossFractionPpm := 500000 }, exampleRealism,
    fun _ => ⟨fun _ => 0, fun _ => 0⟩⟩

end ThresholdHoldSimulator

end PolymarketBt
