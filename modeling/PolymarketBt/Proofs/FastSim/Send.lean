import PolymarketBt.Model.FastSim.Send
import PolymarketBt.Proofs.Execution

/-! # What one order can leave behind

An order is refused or matched. A match takes priced slices within the limit from the levels it
sees; the spend cap keeps a prefix of them and trims one more; a demand for a full fill undoes what
stays short for any other reason than the spend.
-/

namespace PolymarketBt

namespace TakerExecutor

variable {executor : TakerExecutor}

/-! ## The affordable quantity -/

theorem costOf_eq_ok {price shares cost : ℤ} :
    executor.costOf price shares = .ok cost ↔ ∃ notional fee,
      notionalScaled shares price = .ok notional ∧
        executor.feeModel.calculate shares price = .ok fee ∧ notional + fee = cost := by
  simp only [costOf, Except.bind_eq_ok, Except.pure_eq_ok]
  constructor
  · rintro ⟨notional, first, fee, second, rfl⟩
    exact ⟨notional, fee, first, second, rfl⟩
  · rintro ⟨notional, fee, first, second, rfl⟩
    exact ⟨notional, first, fee, second, rfl⟩

/-- The search stays between its bounds and moves the lower one only to what fits the spend. -/
theorem affordableSearch_spec {spend price : ℤ} {fuel : ℕ} {low high size : ℤ}
    (ran : executor.affordableSearch spend price fuel low high = .ok size) :
    (size = low ∨ ∃ cost, executor.costOf price size = .ok cost ∧ cost ≤ spend) ∧
      (low ≤ high → size ≤ high) := by
  induction fuel generalizing low high with
  | zero =>
    cases ran
    exact ⟨.inl rfl, id⟩
  | succ fuel ih =>
    unfold affordableSearch at ran
    split at ran
    swap
    · cases ran
      exact ⟨.inl rfl, id⟩
    next wide =>
    obtain ⟨cost, costRan, ran⟩ := Except.bind_eq_ok.mp ran
    split at ran
    · next fits =>
      obtain ⟨found, bound⟩ := ih ran
      refine ⟨.inr ?_, fun _ => bound (by omega)⟩
      rcases found with rfl | found
      · exact ⟨cost, costRan, fits⟩
      · exact found
    · obtain ⟨found, bound⟩ := ih ran
      refine ⟨found, fun _ => ?_⟩
      have := bound (by omega)
      omega

/-- A positive affordable quantity fits the spend. -/
theorem maxAffordableShares_spec {spend price : ℤ} {upper : Option ℤ} {size : ℤ}
    (ran : executor.maxAffordableShares spend price upper = .ok size) (positive : 0 < size) :
    (∃ cost, executor.costOf price size = .ok cost ∧ cost ≤ spend) ∧
      ∀ bound ∈ upper, size ≤ max 0 bound := by
  unfold maxAffordableShares at ran
  split at ran
  · cases ran
    omega
  dsimp only at ran
  obtain ⟨found, bound⟩ := affordableSearch_spec ran
  refine ⟨found.resolve_left (by omega), ?_⟩
  rintro limit rfl
  simp only [Option.getD_some] at bound
  by_cases room : 0 ≤ limit
  · exact (bound room).trans (le_max_right _ _)
  · have none : limit.toNat = 0 := by omega
    rw [Option.getD_some, none] at ran
    cases ran
    omega

/-! ## The spend cap -/

def cost (slices : List FillSlice) : ℤ := sliceNotional slices + sliceFees slices

@[simp] theorem cost_nil : cost [] = 0 := rfl

@[simp] theorem cost_cons (slice : FillSlice) (rest : List FillSlice) :
    cost (slice :: rest) = slice.notionalScaled + slice.feeScaled + cost rest := by
  simp only [cost, sliceNotional_cons, sliceFees_cons]
  ring

@[simp] theorem cost_append (first second : List FillSlice) :
    cost (first ++ second) = cost first + cost second := by
  simp only [cost, sliceNotional_append, sliceFees_append]
  ring

/-- The slices end where the next one would have exceeded the spend. -/
def CutBySpend (executor : TakerExecutor) (spend : ℤ) (slices : List FillSlice) : Prop :=
  ∃ (first trimmed : List FillSlice) (next : FillSlice), slices = first ++ trimmed ∧
    (∀ slice ∈ trimmed, slice.priceScaled = next.priceScaled ∧
      slice.sizeScaled ≤ next.sizeScaled) ∧
    executor.Prices next ∧ spend < cost (first ++ [next])

theorem CutBySpend.cons {spend : ℤ} {slice : FillSlice} {slices : List FillSlice}
    (cut : executor.CutBySpend (spend - (slice.notionalScaled + slice.feeScaled)) slices) :
    executor.CutBySpend spend (slice :: slices) := by
  obtain ⟨first, trimmed, next, rfl, smaller, priced, above⟩ := cut
  refine ⟨slice :: first, trimmed, next, rfl, smaller, priced, ?_⟩
  rw [List.cons_append, cost_cons]
  omega

/-- What capping priced slices keeps of them. -/
structure Capped (executor : TakerExecutor) (spend : ℤ) (slices kept : List FillSlice)
    (bound : Bool) : Prop where
  priced : ∀ slice ∈ kept, executor.Prices slice
  prices : ∀ slice ∈ kept, ∃ original ∈ slices, original.priceScaled = slice.priceScaled
  drawn : ∀ levels, List.Forall₂ FillSlice.FromLevel slices levels → DrawnFrom levels kept
  shares : sliceShares kept ≤ sliceShares slices
  fits : 0 ≤ spend → cost kept ≤ spend
  cut : bound = true → executor.CutBySpend spend kept

theorem capSlices_spec {spend : ℤ} {slices kept : List FillSlice} {bound : Bool}
    (priced : ∀ slice ∈ slices, executor.Prices slice)
    (ran : executor.capSlices spend slices = .ok (kept, bound)) :
    executor.Capped spend slices kept bound := by
  induction slices generalizing spend kept bound with
  | nil =>
    cases ran
    exact ⟨by simp, by simp, fun _ _ => .nil _, le_rfl, fun nonneg => by simpa using nonneg,
      by simp⟩
  | cons slice rest ih =>
    have first := priced slice (List.mem_cons_self ..)
    have later : ∀ other ∈ rest, executor.Prices other :=
      fun other member => priced other (List.mem_cons_of_mem _ member)
    have restShares := (sliceShares_pos fun other member => (later other member).size_pos).1
    unfold capSlices at ran
    split at ran
    · next fits =>
      obtain ⟨⟨keptRest, boundRest⟩, restRan, ran⟩ := Except.bind_eq_ok.mp ran
      obtain ⟨rfl, rfl⟩ := Prod.mk.inj (Except.pure_eq_ok.mp ran)
      have capped := ih later restRan
      refine ⟨?_, ?_, ?_, ?_, ?_, ?_⟩
      · intro other member
        rcases List.mem_cons.mp member with rfl | inRest
        · exact first
        · exact capped.priced other inRest
      · intro other member
        rcases List.mem_cons.mp member with rfl | inRest
        · exact ⟨other, List.mem_cons_self .., rfl⟩
        · obtain ⟨original, inOriginal, same⟩ := capped.prices other inRest
          exact ⟨original, List.mem_cons_of_mem _ inOriginal, same⟩
      · intro levels taken
        cases taken with
        | @cons _ level _ levels own others =>
          obtain ⟨drawn, inside, kept⟩ := capped.drawn levels others
          exact ⟨level :: drawn, inside.cons_cons level, .cons own kept⟩
      · rw [sliceShares_cons, sliceShares_cons]
        exact add_le_add_right capped.shares _
      · intro nonneg
        have := capped.fits (by omega)
        rw [cost_cons]
        omega
      · exact fun some => (capped.cut some).cons
    next above =>
    obtain ⟨size, sizeRan, ran⟩ := Except.bind_eq_ok.mp ran
    split at ran
    · next positive =>
      obtain ⟨notional, notionalRan, ran⟩ := Except.bind_eq_ok.mp ran
      obtain ⟨fee, feeRan, ran⟩ := Except.bind_eq_ok.mp ran
      obtain ⟨rfl, rfl⟩ := Prod.mk.inj (Except.pure_eq_ok.mp ran)
      obtain ⟨⟨total, totalRan, affordable⟩, smaller⟩ := maxAffordableShares_spec sizeRan positive
      have smaller := smaller _ rfl
      rw [max_eq_right first.size_pos.le] at smaller
      obtain ⟨notional', fee', same, same', sum⟩ := costOf_eq_ok.mp totalRan
      obtain rfl := Except.ok.inj (notionalRan.symm.trans same)
      obtain rfl := Except.ok.inj (feeRan.symm.trans same')
      refine ⟨?_, ?_, ?_, ?_, ?_, fun _ => ?_⟩
      · intro other member
        obtain rfl := List.mem_singleton.mp member
        exact ⟨positive, notionalRan, feeRan⟩
      · intro other member
        obtain rfl := List.mem_singleton.mp member
        exact ⟨slice, List.mem_cons_self .., rfl⟩
      · intro levels taken
        cases taken with
        | @cons _ level _ levels own others =>
          exact ⟨[level], (List.nil_sublist levels).cons_cons level,
            .cons ⟨own.1, smaller.trans own.2⟩ .nil⟩
      · rw [sliceShares_cons, sliceShares_cons, sliceShares_nil]
        dsimp only
        omega
      · intro _
        simpa [sum] using affordable
      · refine ⟨[], _, slice, rfl, ?_, first, by simpa using not_le.mp above⟩
        intro other member
        obtain rfl := List.mem_singleton.mp member
        exact ⟨rfl, smaller⟩
    · obtain ⟨rfl, rfl⟩ := Prod.mk.inj (Except.pure_eq_ok.mp ran)
      refine ⟨by simp, by simp, fun _ _ => .nil _, ?_, fun nonneg => by simpa using nonneg,
        fun _ => ⟨[], [], slice, rfl, by simp, first, by simpa using not_le.mp above⟩⟩
      rw [sliceShares_cons, sliceShares_nil]
      have := first.size_pos
      omega

end TakerExecutor

/-- Notional plus fees of an outcome. -/
def ExecutionOutcome.cost (outcome : ExecutionOutcome) : ℤ :=
  outcome.notionalScaled + outcome.feesScaled

namespace Replay

variable {replay : Replay}

/-- What matching a request leaves, before it is known when and where it was matched. -/
structure Matches (replay : Replay) (request : OrderRequest) (ladder : List (ℤ × ℤ))
    (outcome : ExecutionOutcome) : Prop where
  balanced : outcome.Balanced replay.executor
  inside : ∀ slice ∈ outcome.slices,
    request.side.beyond request.limitPriceScaled slice.priceScaled = false
  drawn : DrawnFrom ladder outcome.slices
  within : outcome.filledSharesScaled ≤ max 0 outcome.requestedSharesScaled
  sold : request.side = .sell → outcome.requestedSharesScaled = request.sharesScaled
  side : outcome.side = request.side
  decided : outcome.decisionUtcNs = request.decisionNs

theorem matches_capBuyToSpend {request : OrderRequest} {ladder : List (ℤ × ℤ)}
    {executed capped : ExecutionOutcome} {spend : ℤ} {bound : Bool}
    (matched : replay.Matches request ladder executed)
    (ran : replay.executor.capBuyToSpend executed spend = .ok (capped, bound)) :
    replay.Matches request ladder capped ∧ capped.cost ≤ max 0 spend ∧
      capped.arrivalUtcNs = executed.arrivalUtcNs ∧
      (bound = true → capped.bindingConstraint = some .cashBudget ∧
        replay.executor.CutBySpend (max 0 spend) capped.slices) := by
  obtain ⟨⟨kept, cut⟩, keptRan, ran⟩ := Except.bind_eq_ok.mp ran
  obtain ⟨rfl, rfl⟩ := Prod.mk.inj (Except.pure_eq_ok.mp ran)
  have spec := TakerExecutor.capSlices_spec matched.balanced.priced keptRan
  refine ⟨⟨⟨rfl, rfl, rfl, spec.priced⟩, ?_, ?_, ?_, matched.sold, matched.side, matched.decided⟩,
    spec.fits (le_max_left _ _), rfl, ?_⟩
  · intro slice member
    obtain ⟨original, inExecuted, same⟩ := spec.prices slice member
    rw [← same]
    exact matched.inside original inExecuted
  · obtain ⟨levels, sublist, taken⟩ := matched.drawn
    exact (spec.drawn levels taken).mono sublist
  · have shares := spec.shares
    rw [← matched.balanced.shares] at shares
    exact shares.trans matched.within
  · rintro rfl
    exact ⟨rfl, spec.cut rfl⟩

/-- Either nothing was undone, or the order filled nothing. -/
theorem enforceFullFill_cases (request : OrderRequest) (outcome : ExecutionOutcome) (bound : Bool) :
    (enforceFullFill request outcome bound = outcome ∧
      (request.requireFullFill = true → outcome.filled = true →
        outcome.filledSharesScaled = outcome.requestedSharesScaled ∨
          (request.side = .buy ∧ request.maxSpendScaled.isSome ∧ bound = true))) ∨
    ((enforceFullFill request outcome bound).filled = false ∧
      (enforceFullFill request outcome bound).slices = [] ∧
      (enforceFullFill request outcome bound).arrivalUtcNs = outcome.arrivalUtcNs ∧
      ∀ (replay : Replay) (ladder : List (ℤ × ℤ)), replay.Matches request ladder outcome →
        replay.Matches request ladder (enforceFullFill request outcome bound)) := by
  unfold enforceFullFill
  dsimp only
  split
  · right
    refine ⟨rfl, rfl, rfl, fun replay ladder matched => ?_⟩
    exact ⟨⟨rfl, rfl, rfl, by simp⟩, by simp, .nil _, le_max_left _ _, matched.sold, matched.side,
      matched.decided⟩
  · next kept =>
    left
    refine ⟨rfl, fun demanded filled => ?_⟩
    by_contra short
    exact kept ⟨demanded, filled, short⟩

/-- What a match reports, and what it takes from the shared overlay. -/
structure MatchesAt (replay : Replay) (request : OrderRequest) (arrivalNs : ℤ) (cash : Option ℤ)
    (ladder : List (ℤ × ℤ)) (outcome : ExecutionOutcome) : Prop extends
    replay.Matches request ladder outcome where
  arrived : outcome.arrivalUtcNs = arrivalNs
  spend : outcome.filled = true → ∀ spend ∈ spendCap request cash, outcome.cost ≤ max 0 spend
  full : request.requireFullFill = true → outcome.filled = true →
    outcome.filledSharesScaled = outcome.requestedSharesScaled ∨
      ∃ spend, request.side = .buy ∧ request.maxSpendScaled = some spend ∧
        outcome.bindingConstraint = some .cashBudget ∧
        replay.executor.CutBySpend (max 0 spend) outcome.slices

theorem spendCap_of_maxSpend {request : OrderRequest} {spend : ℤ} (side : request.side = .buy)
    (limited : request.maxSpendScaled = some spend) (cash : Option ℤ) :
    spendCap request cash = some spend := by
  simp [spendCap, side, limited]

theorem capToSpend_spec {request : OrderRequest} {ladder : List (ℤ × ℤ)} {cash : Option ℤ}
    {executed capped : ExecutionOutcome} {bound : Bool}
    (matched : replay.Matches request ladder executed)
    (ran : replay.capToSpend request cash executed = .ok (capped, bound)) :
    replay.Matches request ladder capped ∧ capped.arrivalUtcNs = executed.arrivalUtcNs ∧
      (capped.filled = true → ∀ spend ∈ spendCap request cash, capped.cost ≤ max 0 spend) ∧
      (bound = true → ∀ spend ∈ spendCap request cash,
        capped.bindingConstraint = some .cashBudget ∧
          replay.executor.CutBySpend (max 0 spend) capped.slices) := by
  unfold capToSpend at ran
  split at ran
  · next spend limited =>
    split at ran
    · obtain ⟨matchedCapped, fits, arrived, cut⟩ := matches_capBuyToSpend matched ran
      refine ⟨matchedCapped, arrived, fun _ other same => ?_, fun some other same => ?_⟩
      · obtain rfl := Option.some.inj (limited.symm.trans same)
        exact fits
      · obtain rfl := Option.some.inj (limited.symm.trans same)
        exact cut some
    · next unfilled =>
      obtain ⟨rfl, rfl⟩ := Prod.mk.inj (Except.ok.inj ran)
      exact ⟨matched, rfl, fun filled => absurd filled unfilled, fun bound => by cases bound⟩
  · next unlimited =>
    obtain ⟨rfl, rfl⟩ := Prod.mk.inj (Except.ok.inj ran)
    refine ⟨matched, rfl, fun _ spend same => ?_, fun bound => by cases bound⟩
    rw [unlimited] at same
    cases same

theorem matchAt_spec {request : OrderRequest} {arrivalNs : ℤ} {cash : Option ℤ}
    {entry : TapeRow × ℕ} {context after : SimContext} {outcome : ExecutionOutcome}
    (ran : replay.matchAt request arrivalNs cash entry context = .ok (outcome, after)) :
    let reconciled :=
      reconcileSelfImpact (replay.rowsOf request.tokenIndex) request.tokenIndex entry.2 context
    replay.MatchesAt request arrivalNs cash
        (seenLadder request.tokenIndex entry.1 reconciled request.side.taken) outcome ∧
      after = if outcome.filled then
        takeDepth request.tokenIndex request.side.taken reconciled outcome.slices else reconciled := by
  intro reconciled
  unfold matchAt at ran
  dsimp only at ran
  obtain ⟨requested, requestedRan, ran⟩ := Except.bind_eq_ok.mp ran
  obtain ⟨executed, executedRan, ran⟩ := Except.bind_eq_ok.mp ran
  have spec := TakerExecutor.execute_spec executedRan
  have matched : replay.Matches request
      (seenLadder request.tokenIndex entry.1 reconciled request.side.taken) executed := by
    refine ⟨spec.balanced, spec.inside, spec.drawn, ?_, fun sell => ?_, spec.side, spec.decided⟩
    · rw [spec.requested]
      exact spec.within
    · rw [spec.requested]
      simp only [requestedShares, sell] at requestedRan
      exact (Except.ok.inj requestedRan).symm
  obtain ⟨⟨capped, bound⟩, cappedRan, ran⟩ := Except.bind_eq_ok.mp ran
  dsimp only at ran
  obtain ⟨outcomeIs, afterIs⟩ := Prod.mk.inj (Except.pure_eq_ok.mp ran)
  obtain ⟨cappedMatches, arrived, fits, cut⟩ := capToSpend_spec matched cappedRan
  subst outcomeIs
  refine ⟨?_, afterIs.symm⟩
  rcases enforceFullFill_cases request capped bound with
    ⟨same, full⟩ | ⟨unfilled, _, sameArrival, kept⟩
  · rw [same]
    refine ⟨cappedMatches, arrived.trans spec.arrived, fits, fun demanded filled => (full demanded filled).imp id ?_⟩
    rintro ⟨buy, limited, bounded⟩
    obtain ⟨spend, limited⟩ := Option.isSome_iff_exists.mp limited
    exact ⟨spend, buy, limited, cut bounded spend (spendCap_of_maxSpend buy limited cash)⟩
  · refine ⟨kept replay _ cappedMatches, sameArrival.trans (arrived.trans spec.arrived), ?_, ?_⟩
    · intro filled
      rw [unfilled] at filled
      cases filled
    · intro _ filled
      rw [unfilled] at filled
      cases filled

/-- What one sent order leaves behind. -/
structure Sends (replay : Replay) (request : OrderRequest) (outcome : ExecutionOutcome) : Prop where
  balanced : outcome.Balanced replay.executor
  inside : ∀ slice ∈ outcome.slices,
    request.side.beyond request.limitPriceScaled slice.priceScaled = false
  within : outcome.filledSharesScaled ≤ max 0 outcome.requestedSharesScaled
  sold : request.side = .sell → outcome.requestedSharesScaled = request.sharesScaled
  side : outcome.side = request.side
  decided : outcome.decisionUtcNs = request.decisionNs
  arrived : 0 ≤ replay.takerDelayNs → request.decisionNs ≤ outcome.arrivalUtcNs
  open_market : outcome.filled = true → outcome.arrivalUtcNs < replay.tape.episode.endUtcNs
  deadline : outcome.filled = true → ∀ deadline ∈ request.deadlineNs,
    outcome.arrivalUtcNs ≤ deadline
  spend : request.side = .buy → outcome.filled = true → ∀ spend ∈ request.maxSpendScaled,
    outcome.cost ≤ max 0 spend
  cash : request.side = .buy → outcome.filled = true →
    ∃ available, cashAt request.cash outcome.arrivalUtcNs = .ok available ∧
      ∀ cash ∈ available, 0 < cash ∧ outcome.cost ≤ cash
  full : request.requireFullFill = true → outcome.filled = true →
    outcome.filledSharesScaled = outcome.requestedSharesScaled ∨
      ∃ spend, request.side = .buy ∧ request.maxSpendScaled = some spend ∧
        outcome.bindingConstraint = some .cashBudget ∧
        replay.executor.CutBySpend (max 0 spend) outcome.slices

theorem Sends.refuseAt (replay : Replay) {request : OrderRequest} {arrivalNs : ℤ}
    (later : 0 ≤ replay.takerDelayNs → request.decisionNs ≤ arrivalNs) (reason : ExecutionReason) :
    replay.Sends request (refuseAt request arrivalNs reason) where
  balanced := .rejected ..
  inside := by simp [Replay.refuseAt, ExecutionOutcome.rejected]
  within := le_max_left _ _
  sold := fun _ => rfl
  side := rfl
  decided := rfl
  arrived := later
  open_market := fun filled => by cases filled
  deadline := fun filled => by cases filled
  spend := fun _ filled => by cases filled
  cash := fun _ filled => by cases filled
  full := fun _ filled => by cases filled

theorem sendAt_spec {request : OrderRequest} {arrivalNs : ℤ} {context after : SimContext}
    {outcome : ExecutionOutcome}
    (later : 0 ≤ replay.takerDelayNs → request.decisionNs ≤ arrivalNs)
    (ran : replay.sendAt request arrivalNs context = .ok (outcome, after)) :
    replay.Sends request outcome ∧ outcome.arrivalUtcNs = arrivalNs := by
  unfold sendAt at ran
  split at ran
  · cases ran
    exact ⟨.refuseAt replay later _, rfl⟩
  next beforeDeadline =>
  split at ran
  · cases ran
    exact ⟨.refuseAt replay later _, rfl⟩
  next beforeEnd =>
  obtain ⟨available, cashRan, ran⟩ := Except.bind_eq_ok.mp ran
  split at ran
  · obtain ⟨rfl, rfl⟩ := Prod.mk.inj (Except.pure_eq_ok.mp ran)
    exact ⟨.refuseAt replay later _, rfl⟩
  next funded =>
  split at ran
  · obtain ⟨rfl, rfl⟩ := Prod.mk.inj (Except.pure_eq_ok.mp ran)
    exact ⟨.refuseAt replay later _, rfl⟩
  next entry _ =>
  split at ran
  · obtain ⟨rfl, rfl⟩ := Prod.mk.inj (Except.pure_eq_ok.mp ran)
    exact ⟨.refuseAt replay later _, rfl⟩
  obtain ⟨matched, _⟩ := matchAt_spec ran
  have spend : request.side = .buy → outcome.filled = true → ∀ spend ∈ request.maxSpendScaled,
      outcome.cost ≤ max 0 spend := by
    intro buy filled spend limited
    exact matched.spend filled spend (spendCap_of_maxSpend buy limited available)
  refine ⟨⟨matched.balanced, matched.inside, matched.within, matched.sold, matched.side,
    matched.decided, ?_, ?_, ?_, spend, ?_, matched.full⟩, matched.arrived⟩
  · rw [matched.arrived]
    exact later
  · rw [matched.arrived]
    exact fun _ => not_le.mp beforeEnd
  · rw [matched.arrived]
    rintro _ deadline same
    rw [Option.mem_def.mp same] at beforeDeadline
    simpa using beforeDeadline
  · intro buy filled
    refine ⟨available, by rw [matched.arrived]; exact cashRan, fun cash same => ?_⟩
    simp only [cashRefused, buy, Option.mem_def.mp same, decide_true, Bool.true_and,
      Option.any_some, Bool.or_eq_true, decide_eq_true_eq, not_or, not_le] at funded
    refine ⟨funded.1, ?_⟩
    cases limited : request.maxSpendScaled with
    | some limit =>
      rw [limited] at funded
      have affordable : limit ≤ cash := by simpa using funded.2
      exact (spend buy filled limit limited).trans (max_le funded.1.le affordable)
    | none =>
      have capped : spendCap request available = some cash := by
        rw [Option.mem_def.mp same]
        simp [spendCap, buy, limited]
      exact (matched.spend filled cash capped).trans (max_le funded.1.le le_rfl)

theorem sampleNs_nonneg {config : LatencyConfig} {draws : Draws} {draw : ℕ} {latency : ℤ}
    (ran : config.sampleNs draws draw = .ok latency) : 0 ≤ latency := by
  cases config with
  | disabled =>
    cases ran
    exact le_rfl
  | constant constantMs =>
    cases ran
    exact le_max_left _ _
  | empirical samplesMs =>
    cases samplesMs with
    | nil => cases ran
    | cons first rest =>
      cases ran
      exact le_max_left _ _
  | lognormal =>
    cases ran
    exact le_max_left _ _

/-- What a completed order reports. -/
theorem send_spec {request : OrderRequest} {context after : SimContext} {outcome : ExecutionOutcome}
    (ran : replay.send request context = .ok (outcome, after)) : replay.Sends request outcome := by
  obtain ⟨⟨arrivalNs, drawn⟩, arrived, ran⟩ := Except.bind_eq_ok.mp ran
  obtain ⟨latency, sampled, arrived⟩ := Except.bind_eq_ok.mp arrived
  obtain ⟨rfl, rfl⟩ := Prod.mk.inj (Except.pure_eq_ok.mp arrived)
  have nonneg := sampleNs_nonneg sampled
  exact (sendAt_spec (fun delay => by omega) ran).1

end Replay

end PolymarketBt
