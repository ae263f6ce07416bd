import PolymarketBt.Proofs.ExecutionReturns
import PolymarketBt.Proofs.TapeNavigation

/-! # When an order returns

A replay serves orders when its fee schedule charges every quantity, its latency has a sample to draw
and the ladders of its tape quote prices of the venue. An order of a bounded quantity and a bounded
spend then returns whatever the book, the clock and the cash are at its arrival.
-/

namespace PolymarketBt

open Machine

/-! ## What slices come from -/

theorem DrawnFrom.priced {ladder : List (ℤ × ℤ)} {slices : List FillSlice}
    (drawn : DrawnFrom ladder slices) (priced : PricedLadder ladder) :
    ∀ slice ∈ slices, Tradable slice.priceScaled := by
  obtain ⟨levels, inside, taken⟩ := drawn
  intro slice member
  have known : slice.priceScaled ∈ levels.map Prod.fst := by
    rw [← DrawnFrom.prices_eq taken]
    exact List.mem_map_of_mem member
  obtain ⟨level, inLevels, same⟩ := List.mem_map.mp known
  rw [← same]
  exact priced level (inside.subset inLevels)

theorem size_le_sliceShares {slices : List FillSlice}
    (positive : ∀ slice ∈ slices, 0 < slice.sizeScaled) :
    ∀ slice ∈ slices, slice.sizeScaled ≤ sliceShares slices := by
  induction slices with
  | nil => simp
  | cons first rest ih =>
    have later := fun other member => positive other (List.mem_cons_of_mem first member)
    have nonneg := (sliceShares_pos later).1
    have own := positive first (List.mem_cons_self ..)
    intro slice member
    rw [sliceShares_cons]
    rcases List.mem_cons.mp member with rfl | inRest
    · omega
    · have := ih later slice inRest
      omega

theorem seenLadder_priced {row : TapeRow} {bookSide : Side} (tokenIndex : TokenIndex)
    (context : SimContext) (priced : PricedLadder (row.ladder bookSide)) :
    PricedLadder (seenLadder tokenIndex row context bookSide) := by
  intro level member
  obtain ⟨original, inLadder, kept⟩ := List.mem_filterMap.mp member
  split at kept
  · obtain rfl := Option.some.inj kept
    exact priced original inLadder
  · cases kept

theorem mem_rows_of_rowAt {tape : EpisodeTape} {tokenIndex : TokenIndex} {timestampNs : ℤ}
    {entry : TapeRow × ℕ} (met : rowAt (tokenRows tape tokenIndex) timestampNs = some entry) :
    entry.1 ∈ tape.rows := by
  unfold rowAt at met
  split at met
  · cases met
  · have member := List.mem_of_mem_filter (List.mem_of_getElem? met)
    exact (List.mem_zipIdx' member).2 ▸ List.getElem_mem _

namespace Replay

variable {replay : Replay}

/-- A replay whose every order can be priced. -/
structure Serves (replay : Replay) : Prop where
  chargeable : replay.executor.feeModel.config.Chargeable
  sampled : replay.executor.realism.latency ≠ .empirical []
  priced : ∀ row ∈ replay.tape.rows, ∀ side, PricedLadder (row.ladder side)

/-- A request of a bounded size, with cash that can be asked for at any time. -/
structure Askable (request : OrderRequest) : Prop where
  shares : request.sharesScaled ≤ quotable
  spend : ∀ spend ∈ request.maxSpendScaled, spend ≤ 2 ^ 63
  cash : ∀ timestampNs, (cashAt request.cash timestampNs).Returns

/-- The bounds on what a request is answered with. -/
structure Answers (request : OrderRequest) (outcome : ExecutionOutcome) : Prop where
  small : outcome.requestedSharesScaled ≤ quotable
  requested : request.maxSpendScaled = none →
    outcome.requestedSharesScaled = request.sharesScaled
  priced : ∀ slice ∈ outcome.slices, Tradable slice.priceScaled

theorem Askable.refuseAt {request : OrderRequest} (askable : Askable request) (arrivalNs : ℤ)
    (reason : ExecutionReason) : Answers request (refuseAt request arrivalNs reason) where
  small := askable.shares
  requested := fun _ => rfl
  priced := by simp [Replay.refuseAt, ExecutionOutcome.rejected]

theorem requestedShares_exists (serves : replay.Serves) {request : OrderRequest}
    (askable : Askable request) {ladder : List (ℤ × ℤ)} (priced : PricedLadder ladder) :
    ∃ shares, replay.requestedShares request ladder = .ok shares ∧ shares ≤ quotable ∧
      (request.maxSpendScaled = none → shares = request.sharesScaled) := by
  unfold requestedShares
  split
  · next spend touch size rest side limited =>
    obtain ⟨shares, ran, _, small⟩ := TakerExecutor.maxAffordableShares_exists
      serves.chargeable spend none (priced (touch, size) (List.mem_cons_self ..)) (by simp)
      fun _ => askable.spend spend limited
    refine ⟨shares, ran, small, fun unlimited => ?_⟩
    rw [limited] at unlimited
    cases unlimited
  · exact ⟨_, rfl, askable.shares, fun _ => rfl⟩

theorem capToSpend_exists (serves : replay.Serves) (request : OrderRequest) (cash : Option ℤ)
    {executed : ExecutionOutcome} (balanced : executed.Balanced replay.executor)
    (priced : ∀ slice ∈ executed.slices, Tradable slice.priceScaled)
    (small : executed.filledSharesScaled ≤ quotable) :
    ∃ capped bound, replay.capToSpend request cash executed = .ok (capped, bound) ∧
      capped.requestedSharesScaled = executed.requestedSharesScaled := by
  unfold capToSpend
  split
  · split
    · have sizes : ∀ slice ∈ executed.slices, Tradable slice.priceScaled ∧ 0 ≤ slice.sizeScaled ∧
          slice.sizeScaled ≤ quotable := by
        intro slice member
        have positive := fun other inSlices => (balanced.priced other inSlices).size_pos
        refine ⟨priced slice member, (positive slice member).le, ?_⟩
        have within := size_le_sliceShares positive slice member
        rw [← balanced.shares] at within
        exact within.trans small
      obtain ⟨⟨kept, cut⟩, ran⟩ := TakerExecutor.capSlices_returns serves.chargeable sizes
      rw [TakerExecutor.capBuyToSpend, ran]
      exact ⟨_, _, rfl, rfl⟩
    · exact ⟨_, _, rfl, rfl⟩
  · exact ⟨_, _, rfl, rfl⟩

@[simp] theorem enforceFullFill_requested (request : OrderRequest) (outcome : ExecutionOutcome)
    (bound : Bool) : (enforceFullFill request outcome bound).requestedSharesScaled =
      outcome.requestedSharesScaled := by
  unfold enforceFullFill
  dsimp only
  split <;> rfl

theorem matchAt_exists (serves : replay.Serves) {request : OrderRequest} (askable : Askable request)
    (arrivalNs : ℤ) (cash : Option ℤ) {entry : TapeRow × ℕ} (member : entry.1 ∈ replay.tape.rows)
    (context : SimContext) :
    ∃ outcome after, replay.matchAt request arrivalNs cash entry context = .ok (outcome, after) ∧
      Answers request outcome := by
  have priced := seenLadder_priced request.tokenIndex
    (reconcileSelfImpact (replay.rowsOf request.tokenIndex) request.tokenIndex entry.2 context)
    (serves.priced entry.1 member request.side.taken)
  obtain ⟨requested, requestedRan, small, asked⟩ := requestedShares_exists serves askable priced
  have spends : ∀ (order : TakerOrder) (executed : ExecutionOutcome),
      order.requestedSharesScaled = requested →
      PricedLadder order.ladder → replay.executor.execute order = .ok executed →
        ∃ capped bound, replay.capToSpend request cash executed = .ok (capped, bound) ∧
          capped.requestedSharesScaled = requested := by
    intro order executed size ladder executedRan
    have spec := TakerExecutor.execute_spec executedRan
    have filled : executed.filledSharesScaled ≤ quotable :=
      spec.within.trans (max_le (by norm_num [quotable]) (size ▸ small))
    obtain ⟨capped, bound, cappedRan, same⟩ :=
      capToSpend_exists serves request cash spec.balanced (spec.drawn.priced ladder) filled
    exact ⟨capped, bound, cappedRan, same.trans (spec.requested.trans size)⟩
  have returned : ∃ result, replay.matchAt request arrivalNs cash entry context = .ok result ∧
      result.1.requestedSharesScaled = requested := by
    unfold matchAt
    dsimp only
    rw [requestedRan, Except.ok_bind]
    refine Except.exists_bind (TakerExecutor.execute_returns serves.chargeable small priced) ?_
    intro executed executedRan
    obtain ⟨capped, bound, cappedRan, same⟩ := spends _ executed rfl priced executedRan
    rw [cappedRan, Except.ok_bind]
    exact ⟨_, rfl, by rw [enforceFullFill_requested, same]⟩
  obtain ⟨⟨outcome, after⟩, ran, same⟩ := returned
  refine ⟨outcome, after, ran, same ▸ small, fun unlimited => same.trans (asked unlimited), ?_⟩
  exact (matchAt_spec ran).1.drawn.priced priced

/-- An order of a bounded size returns at every arrival. -/
theorem sendAt_exists (serves : replay.Serves) {request : OrderRequest} (askable : Askable request)
    (arrivalNs : ℤ) (context : SimContext) :
    ∃ outcome after, replay.sendAt request arrivalNs context = .ok (outcome, after) ∧
      Answers request outcome := by
  unfold sendAt
  split
  · exact ⟨_, _, rfl, askable.refuseAt _ _⟩
  split
  · exact ⟨_, _, rfl, askable.refuseAt _ _⟩
  obtain ⟨cash, cashRan⟩ := askable.cash arrivalNs
  rw [cashRan, Except.ok_bind]
  split
  · exact ⟨_, _, rfl, askable.refuseAt _ _⟩
  split
  · exact ⟨_, _, rfl, askable.refuseAt _ _⟩
  next entry met =>
  split
  · exact ⟨_, _, rfl, askable.refuseAt _ _⟩
  · exact matchAt_exists serves askable arrivalNs cash (mem_rows_of_rowAt met) context

theorem sampleNs_returns {config : LatencyConfig} (sampled : config ≠ .empirical []) (draws : Draws)
    (draw : ℕ) : (config.sampleNs draws draw).Returns := by
  cases config with
  | disabled => exact ⟨_, rfl⟩
  | constant constantMs => exact ⟨_, rfl⟩
  | empirical samplesMs =>
    cases samplesMs with
    | nil => exact absurd rfl sampled
    | cons first rest => exact ⟨_, rfl⟩
  | lognormal => exact ⟨_, rfl⟩

theorem send_exists (serves : replay.Serves) {request : OrderRequest} (askable : Askable request)
    (context : SimContext) :
    ∃ outcome after, replay.send request context = .ok (outcome, after) ∧
      Answers request outcome := by
  obtain ⟨latency, ran⟩ :=
    sampleNs_returns serves.sampled replay.executor.draws context.draw
  obtain ⟨outcome, after, sent, answers⟩ := sendAt_exists serves askable
    (request.decisionNs + latency + replay.takerDelayNs) { context with draw := context.draw + 1 }
  refine ⟨outcome, after, ?_, answers⟩
  rw [send, arrive, ran]
  exact sent

end Replay

end PolymarketBt
