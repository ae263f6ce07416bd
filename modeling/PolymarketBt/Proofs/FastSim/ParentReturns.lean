import PolymarketBt.Proofs.FastSim.AlignedEntry
import PolymarketBt.Proofs.FastSim.SendReturns

/-! # When a parent returns

The session raises on a state that breaks its account, on ladders out of order and on outcomes that
do not answer its pending child. Between two decisions of a parent none of this can happen: the
session is settled, its stamps lie behind the next decision, and the child it sends is answered with
no more shares than it asked for and no more cost than it can pay.
-/

namespace PolymarketBt

open Machine

/-! ## Ladders -/

/-- The first price is strictly better than the second on a resting side. -/
def Side.Better : Side → ℤ → ℤ → Prop
  | .buy, first, second => second < first
  | .sell, first, second => first < second

def StrictLadder (side : Side) (ladder : List (ℤ × ℤ)) : Prop :=
  ladder.Pairwise fun first second => side.Better first.1 second.1

theorem validateLadder_returns {side : Side} {name : String} {previous : Option ℤ}
    {ladder : List (ℤ × ℤ)} (positive : ∀ level ∈ ladder, 0 < level.1 ∧ 0 < level.2)
    (strict : StrictLadder side ladder)
    (behind : ∀ price ∈ previous, ∀ level ∈ ladder, side.Better price level.1) :
    ExecutionState.validateLadder side name previous ladder = .ok () := by
  induction ladder generalizing previous with
  | nil => rfl
  | cons level rest ih =>
    obtain ⟨price, size⟩ := level
    obtain ⟨first, later⟩ := List.pairwise_cons.mp strict
    have sized : 0 < price ∧ 0 < size := positive (price, size) (List.mem_cons_self ..)
    have next : ExecutionState.validateLadder side name (some price) rest = .ok () := by
      refine ih (fun other member => positive other (List.mem_cons_of_mem _ member)) later ?_
      rintro _ ⟨⟩ other member
      exact first other member
    refine Except.bind_eq_ok.mpr ⟨(), require_eq_ok.mpr sized, Except.bind_eq_ok.mpr
      ⟨(), require_eq_ok.mpr ?_, next⟩⟩
    cases previous with
    | none => rfl
    | some earlier =>
      have apart := behind earlier rfl (price, size) (List.mem_cons_self ..)
      cases side <;> simpa [Side.Better] using apart

theorem seenLadder_positive (tokenIndex : TokenIndex) (row : TapeRow) (context : SimContext)
    (bookSide : Side) : ∀ level ∈ seenLadder tokenIndex row context bookSide, 0 < level.2 := by
  intro level member
  obtain ⟨original, _, kept⟩ := List.mem_filterMap.mp member
  split at kept
  · next left =>
    obtain rfl := Option.some.inj kept
    exact left
  · cases kept

theorem seenLadder_strict {row : TapeRow} {bookSide : Side} (tokenIndex : TokenIndex)
    (context : SimContext) (strict : StrictLadder bookSide (row.ladder bookSide)) :
    StrictLadder bookSide (seenLadder tokenIndex row context bookSide) := by
  refine List.Pairwise.filterMap _ ?_ strict
  intro first second better left kept right kept'
  split at kept <;> cases kept
  split at kept' <;> cases kept'
  exact better

/-- A policy never slices more than its parent has left. -/
theorem SequentialExecutionPolicy.decide_requested {policy : SequentialExecutionPolicy}
    {state : ExecutionState} (slice : (policy.decide state).kind = .takerSlice) :
    (policy.decide state).requestedSharesScaled ≤ state.remainingSharesScaled := by
  obtain ⟨_, requested, reason, child, _⟩ := decide_cases slice
  rw [child] at slice ⊢
  exact (PolicyLimits.childAction_slice slice).2.2.remaining

/-! ## The session -/

theorem CausalVolumeCursor.advance_exists {trades : List TradePrint} (tokenIndex : TokenIndex)
    {cursor : CausalVolumeCursor} {nowUtcNs : ℤ} (sizes : ∀ trade ∈ trades, 0 ≤ trade.sizeScaled)
    (volume : 0 ≤ cursor.volumeScaled) (behind : cursor.lastUtcNs ≤ nowUtcNs) :
    ∃ after, cursor.advance trades tokenIndex nowUtcNs = .ok after ∧ 0 ≤ after.volumeScaled ∧
      after.lastUtcNs = nowUtcNs := by
  refine ⟨_, Except.bind_eq_ok.mpr ⟨(), require_eq_ok.mpr behind, rfl⟩, ?_, rfl⟩
  refine add_nonneg volume (List.sum_nonneg fun size member => ?_)
  obtain ⟨trade, fresh, rfl⟩ := List.mem_map.mp member
  exact sizes trade (List.mem_of_mem_take (List.mem_of_mem_drop (List.mem_of_mem_filter fresh)))

namespace SequentialExecutionSession

variable {parent : ParentOrder} {session : SequentialExecutionSession} {lastNs nowUtcNs : ℤ}

/-- A session between two decisions, with every stamp it keeps at or before an instant. -/
structure Settled (parent : ParentOrder) (lastNs : ℤ) (session : SequentialExecutionSession) :
    Prop where
  idle : session.pending = none
  filled : 0 ≤ session.filledSharesScaled ∧
    session.filledSharesScaled ≤ parent.plan.targetSharesScaled
  inventory : 0 ≤ session.inventorySharesScaled
  cash : 0 ≤ session.cashScaled
  volume : 0 ≤ session.volume.volumeScaled
  watched : session.volume.lastUtcNs ≤ lastNs
  decided : ∀ stamp ∈ session.lastDecisionUtcNs, stamp ≤ lastNs
  acted : ∀ stamp ∈ session.lastActionUtcNs, stamp ≤ lastNs
  fills : (session.fills.map ExecutionFill.sharesScaled).sum = session.filledSharesScaled
  timely : ∀ fill ∈ session.fills, fill.timestampUtcNs ≤ parent.plan.deadlineUtcNs ∧
    0 ≤ fill.sharesScaled ∧ Tradable fill.priceScaled

/-- A session with a child outstanding, of at most the size its parent has left. -/
structure Waits (parent : ParentOrder) (nowUtcNs : ℤ) (action : ExecutionAction)
    (session : SequentialExecutionSession) : Prop where
  pending : session.pending = some (action, nowUtcNs)
  settled : Settled parent nowUtcNs { session with pending := none }
  sized : 0 < action.requestedSharesScaled ∧
    action.requestedSharesScaled ≤ session.remainingSharesScaled parent

/-- The state a settled session shows its policy passes every check. -/
theorem Settled.check (settled : Settled parent nowUtcNs session) {bids asks : List (ℤ × ℤ)}
    (positiveBids : ∀ level ∈ bids, 0 < level.1 ∧ 0 < level.2)
    (positiveAsks : ∀ level ∈ asks, 0 < level.1 ∧ 0 < level.2)
    (strictBids : StrictLadder .buy bids) (strictAsks : StrictLadder .sell asks) {minimum : ℤ}
    (nonneg : 0 ≤ minimum) {reference : Option ℤ} (positive : ∀ price ∈ reference, 0 < price) :
    (session.stateAt parent nowUtcNs bids asks minimum reference).check = .ok () := by
  have acted : session.lastActionUtcNs.all (· ≤ nowUtcNs) = true := by
    rw [Option.all_eq_true]
    exact fun stamp member => decide_eq_true (settled.acted stamp member)
  have quoted : reference.all (0 < ·) = true := by
    rw [Option.all_eq_true]
    exact fun price member => decide_eq_true (positive price member)
  unfold ExecutionState.check
  refine Except.bind_eq_ok.mpr ⟨(), require_ok settled.filled _, ?_⟩
  refine Except.bind_eq_ok.mpr ⟨(), require_ok settled.inventory _, ?_⟩
  refine Except.bind_eq_ok.mpr ⟨(), require_ok settled.cash _, ?_⟩
  refine Except.bind_eq_ok.mpr ⟨(), require_ok settled.volume _, ?_⟩
  refine Except.bind_eq_ok.mpr ⟨(), require_ok nonneg _, ?_⟩
  refine Except.bind_eq_ok.mpr ⟨(), require_ok acted _, ?_⟩
  refine Except.bind_eq_ok.mpr ⟨(), require_ok quoted _, ?_⟩
  refine Except.bind_eq_ok.mpr ⟨(), validateLadder_returns positiveBids strictBids (by simp), ?_⟩
  exact validateLadder_returns positiveAsks strictAsks (by simp)

/-- A settled session decides at every later instant, whatever well-formed book it is shown. -/
theorem decide_exists (settled : Settled parent lastNs session) (later : lastNs ≤ nowUtcNs)
    (sizes : ∀ trade ∈ parent.trades, 0 ≤ trade.sizeScaled) {bids asks : List (ℤ × ℤ)}
    (positiveBids : ∀ level ∈ bids, 0 < level.1 ∧ 0 < level.2)
    (positiveAsks : ∀ level ∈ asks, 0 < level.1 ∧ 0 < level.2)
    (strictBids : StrictLadder .buy bids) (strictAsks : StrictLadder .sell asks) {minimum : ℤ}
    (nonneg : 0 ≤ minimum) {reference : Option ℤ} (positive : ∀ price ∈ reference, 0 < price) :
    ∃ after action, session.decide parent nowUtcNs bids asks minimum reference =
        .ok (after, action) ∧
      (action.kind = .wait → Settled parent nowUtcNs after) ∧
      (action.kind = .takerSlice → Waits parent nowUtcNs action after) := by
  obtain ⟨volume, advanced, counted, watched⟩ :=
    CausalVolumeCursor.advance_exists parent.tokenIndex sizes settled.volume
      (settled.watched.trans later)
  have chronological : session.lastDecisionUtcNs.all (· ≤ nowUtcNs) = true := by
    rw [Option.all_eq_true]
    exact fun stamp member => decide_eq_true ((settled.decided stamp member).trans later)
  have observed : Settled parent nowUtcNs
      { session with volume := volume, lastDecisionUtcNs := some nowUtcNs } := by
    refine ⟨settled.idle, settled.filled, settled.inventory, settled.cash, counted, watched.le, ?_,
      fun stamp member => (settled.acted stamp member).trans later, settled.fills, settled.timely⟩
    rintro stamp ⟨⟩
    exact le_rfl
  unfold decide
  rw [require_ok chronological, Except.ok_bind, advanced, Except.ok_bind]
  dsimp only
  rw [if_neg (by simp [settled.idle])]
  split
  · exact ⟨_, _, rfl, fun _ => observed, nofun⟩
  rw [observed.check positiveBids positiveAsks strictBids strictAsks nonneg positive, Except.ok_bind]
  split
  · next waits =>
    refine ⟨_, _, rfl, fun _ => observed, fun slices => ?_⟩
    rw [waits] at slices
    cases slices
  · next slices =>
    refine ⟨_, _, rfl, fun waits => ?_, fun _ => ?_⟩
    · rw [slices] at waits
      cases waits
    refine ⟨rfl, ⟨rfl, observed.filled, observed.inventory, observed.cash, observed.volume,
      observed.watched, observed.decided, ?_, observed.fills, observed.timely⟩, ?_, ?_⟩
    · rintro stamp ⟨⟩
      exact le_rfl
    · exact (ExecutionAction.sized _).2 slices
    · exact SequentialExecutionPolicy.decide_requested slices

/-- What an outcome must be for the session to account for it. -/
structure Answered (parent : ParentOrder) (session : SequentialExecutionSession) (nowUtcNs : ℤ)
    (action : ExecutionAction) (outcome : ExecutionOutcome) : Prop where
  requested : outcome.requestedSharesScaled = action.requestedSharesScaled
  decided : outcome.decisionUtcNs = nowUtcNs
  arrived : nowUtcNs ≤ outcome.arrivalUtcNs
  timely : outcome.filled = true → outcome.arrivalUtcNs ≤ parent.plan.deadlineUtcNs
  shares : outcome.filledSharesScaled = sliceShares outcome.slices
  notional : outcome.notionalScaled = sliceNotional outcome.slices
  fees : outcome.feesScaled = sliceFees outcome.slices
  sized : ∀ slice ∈ outcome.slices, 0 < slice.sizeScaled ∧ Tradable slice.priceScaled ∧
    0 ≤ slice.feeScaled
  within : outcome.filledSharesScaled ≤ action.requestedSharesScaled
  affordable : outcome.cost ≤ session.cashScaled

/-- A buy that answers the outstanding child is accounted for and settles the session. -/
theorem recordOutcome_exists {action : ExecutionAction} {outcome : ExecutionOutcome}
    (waits : Waits parent nowUtcNs action session) (buys : parent.plan.side = .buy)
    (answered : Answered parent session nowUtcNs action outcome) :
    ∃ after, session.recordOutcome parent outcome = .ok after ∧ Settled parent nowUtcNs after ∧
      after.filledSharesScaled = session.filledSharesScaled + outcome.filledSharesScaled := by
  have settled := waits.settled
  have fillShares : ((outcome.slices.map fun slice => ExecutionFill.mk outcome.arrivalUtcNs
      slice.sizeScaled slice.priceScaled slice.feeScaled).map ExecutionFill.sharesScaled).sum =
        outcome.filledSharesScaled := by
    rw [answered.shares, List.map_map]
    rfl
  have nonneg : 0 ≤ outcome.filledSharesScaled := by
    rw [answered.shares]
    exact (sliceShares_pos fun slice member => (answered.sized slice member).1).1
  have timely : outcome.arrivalUtcNs ≤ parent.plan.deadlineUtcNs ∨ outcome.filled = false := by
    cases filled : outcome.filled with
    | false => exact .inr rfl
    | true => exact .inl (answered.timely filled)
  have remaining := waits.sized.2
  unfold remainingSharesScaled at remaining
  unfold recordOutcome
  rw [waits.pending]
  dsimp only
  rw [require_ok answered.requested, Except.ok_bind, require_ok answered.decided, Except.ok_bind,
    require_ok answered.arrived, Except.ok_bind, require_ok timely, Except.ok_bind,
    require_ok answered.shares.symm, Except.ok_bind, require_ok answered.notional.symm,
    Except.ok_bind, require_ok answered.fees.symm, Except.ok_bind]
  have checked : (outcome.slices.map fun slice => ExecutionFill.mk outcome.arrivalUtcNs
      slice.sizeScaled slice.priceScaled slice.feeScaled).forM ExecutionFill.check = .ok () := by
    refine Except.forM_eq_ok fun fill member => ?_
    obtain ⟨slice, inSlices, rfl⟩ := List.mem_map.mp member
    obtain ⟨size, priced, fee⟩ := answered.sized slice inSlices
    exact Except.bind_eq_ok.mpr ⟨(), require_ok ⟨size, priced.1⟩ _, require_ok fee _⟩
  rw [checked, Except.ok_bind]
  have applied : ∃ after, session.applyFills parent action (outcome.slices.map fun slice =>
      ExecutionFill.mk outcome.arrivalUtcNs slice.sizeScaled slice.priceScaled slice.feeScaled)
        outcome.notionalScaled outcome.feesScaled = .ok after ∧
      after = { session with
        cashScaled := session.cashScaled - outcome.cost
        inventorySharesScaled := session.inventorySharesScaled + outcome.filledSharesScaled
        filledSharesScaled := session.filledSharesScaled + outcome.filledSharesScaled
        fills := session.fills ++ outcome.slices.map fun slice => ExecutionFill.mk
          outcome.arrivalUtcNs slice.sizeScaled slice.priceScaled slice.feeScaled } := by
    have rest : outcome.filledSharesScaled ≤ session.remainingSharesScaled parent :=
      answered.within.trans waits.sized.2
    have solvent : outcome.notionalScaled + outcome.feesScaled ≤ session.cashScaled :=
      answered.affordable
    unfold applyFills
    dsimp only
    rw [fillShares, require_ok answered.within, Except.ok_bind, require_ok rest, Except.ok_bind, buys]
    dsimp only
    rw [require_ok solvent, Except.ok_bind]
    exact ⟨_, rfl, rfl⟩
  obtain ⟨after, appliedRan, rfl⟩ := applied
  rw [appliedRan, Except.ok_bind]
  refine ⟨_, rfl, ⟨rfl, ?_, ?_, ?_, settled.volume, settled.watched, settled.decided, settled.acted,
    ?_, ?_⟩, rfl⟩
  · have lower := settled.filled.1
    have within := answered.within
    dsimp only at lower ⊢
    omega
  · exact add_nonneg settled.inventory nonneg
  · exact sub_nonneg.mpr answered.affordable
  · rw [List.map_append, List.sum_append, fillShares]
    exact congrArg (· + outcome.filledSharesScaled) settled.fills
  · intro fill member
    rcases List.mem_append.mp member with earlier | new
    · exact settled.timely fill earlier
    · obtain ⟨slice, inSlices, rfl⟩ := List.mem_map.mp new
      obtain ⟨size, priced, _⟩ := answered.sized slice inSlices
      refine ⟨timely.resolve_right fun unfilled => ?_, size.le, priced⟩
      have most := size_le_sliceShares (fun other member => (answered.sized other member).1)
        slice inSlices
      rw [← answered.shares] at most
      have none := of_decide_eq_false unfilled
      omega

end SequentialExecutionSession

end PolymarketBt
