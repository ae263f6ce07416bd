import PolymarketBt.Model.Realism

/-! # What the executor takes from a ladder

A completed execution reports the sums of its slices; every slice is priced by the fee model, lies
within the limit of the order, and comes from a level of its own, of which it takes at most what is
displayed.
-/

namespace PolymarketBt

open Machine

/-! ## Charges -/

/-- The fee is never negative. -/
theorem FeeModel.calculate_nonneg {model : FeeModel} {shares price fee : ℤ}
    (ran : model.calculate shares price = .ok fee) : 0 ≤ fee := by
  unfold calculate at ran
  split at ran
  · cases ran
    exact le_rfl
  split at ran
  · cases ran
  · next raw _ =>
    split at ran
    · cases ran
    · next rounded quantized =>
      cases ran
      split
      · next positive =>
        exact le_max_of_le_left (Decimal.quantize_nonneg positive.le quantized)
      · exact le_rfl

theorem notionalScaled_nonneg {size price notional : ℤ} (sized : 0 ≤ size) (priced : 0 ≤ price)
    (ran : notionalScaled size price = .ok notional) : 0 ≤ notional := by
  unfold notionalScaled decimalResult at ran
  split at ran
  · cases ran
  · next value quantized =>
    cases ran
    refine Decimal.quantize_nonneg (Decimal.div_nonneg (Decimal.mul_nonneg ?_ ?_) ?_) quantized
    · exact_mod_cast sized
    · exact_mod_cast priced
    · norm_num [polymarketPriceScale]

/-! ## Slices -/

/-- A slice of positive size whose notional and fee are what the venue charges for it. -/
structure TakerExecutor.Prices (executor : TakerExecutor) (slice : FillSlice) : Prop where
  size_pos : 0 < slice.sizeScaled
  notional : PolymarketBt.notionalScaled slice.sizeScaled slice.priceScaled =
    .ok slice.notionalScaled
  fee : executor.feeModel.calculate slice.sizeScaled slice.priceScaled = .ok slice.feeScaled

def FillSlice.FromLevel (slice : FillSlice) (level : ℤ × ℤ) : Prop :=
  slice.priceScaled = level.1 ∧ slice.sizeScaled ≤ level.2

/-- The slices come from different levels of the ladder, in its order. -/
def DrawnFrom (ladder : List (ℤ × ℤ)) (slices : List FillSlice) : Prop :=
  ∃ drawn : List (ℤ × ℤ), drawn.Sublist ladder ∧ List.Forall₂ FillSlice.FromLevel slices drawn

namespace DrawnFrom

theorem nil (ladder : List (ℤ × ℤ)) : DrawnFrom ladder [] :=
  ⟨[], List.nil_sublist _, List.Forall₂.nil⟩

theorem mono {small large : List (ℤ × ℤ)} {slices : List FillSlice} (drawn : DrawnFrom small slices)
    (sublist : small.Sublist large) : DrawnFrom large slices := by
  obtain ⟨levels, inside, taken⟩ := drawn
  exact ⟨levels, inside.trans sublist, taken⟩

theorem concat {past : List (ℤ × ℤ)} {slices : List FillSlice} (drawn : DrawnFrom past slices)
    {slice : FillSlice} {level : ℤ × ℤ} (taken : slice.FromLevel level) :
    DrawnFrom (past ++ [level]) (slices ++ [slice]) := by
  obtain ⟨levels, inside, earlier⟩ := drawn
  exact ⟨levels ++ [level], inside.append (List.Sublist.refl _),
    List.rel_append earlier (List.Forall₂.cons taken List.Forall₂.nil)⟩

theorem prices_eq {levels : List (ℤ × ℤ)} {slices : List FillSlice}
    (taken : List.Forall₂ FillSlice.FromLevel slices levels) :
    slices.map FillSlice.priceScaled = levels.map Prod.fst := by
  induction taken with
  | nil => rfl
  | cons first _ ih => rw [List.map_cons, List.map_cons, first.1, ih]

/-- Slices of one price come from one level when the ladder names every price once. -/
theorem sum_le {ladder : List (ℤ × ℤ)} {slices : List FillSlice} (drawn : DrawnFrom ladder slices)
    (distinct : (ladder.map Prod.fst).Nodup) (price : ℤ) :
    ((slices.filter fun slice => slice.priceScaled = price).map FillSlice.sizeScaled).sum = 0 ∨
      ∃ level ∈ ladder, level.1 = price ∧
        ((slices.filter fun slice => slice.priceScaled = price).map FillSlice.sizeScaled).sum ≤
          level.2 := by
  obtain ⟨levels, inside, taken⟩ := drawn
  have distinctLevels := distinct.sublist (inside.map Prod.fst)
  suffices general : ((slices.filter fun slice => slice.priceScaled = price).map
      FillSlice.sizeScaled).sum = 0 ∨ ∃ level ∈ levels, level.1 = price ∧
        ((slices.filter fun slice => slice.priceScaled = price).map FillSlice.sizeScaled).sum ≤
          level.2 by
    exact general.imp id fun ⟨level, member, rest⟩ => ⟨level, inside.subset member, rest⟩
  clear inside distinct
  induction taken with
  | nil => exact .inl rfl
  | @cons slice level slices levels first rest ih =>
    rw [List.map_cons, List.nodup_cons] at distinctLevels
    obtain ⟨fresh, others⟩ := distinctLevels
    by_cases same : slice.priceScaled = price
    · right
      refine ⟨level, List.mem_cons_self .., first.1.symm.trans same, ?_⟩
      have alone : slices.filter (fun slice => slice.priceScaled = price) = [] := by
        rw [List.filter_eq_nil_iff]
        intro other member equal
        refine fresh ?_
        rw [← prices_eq rest, ← first.1, same, ← of_decide_eq_true equal]
        exact List.mem_map_of_mem member
      simp [same, alone, first.2]
    · simp only [List.filter_cons, same, decide_false, Bool.false_eq_true, if_false]
      exact (ih others).imp id fun ⟨level, member, rest⟩ =>
        ⟨level, List.mem_cons_of_mem _ member, rest⟩

end DrawnFrom

@[simp] theorem sliceShares_nil : sliceShares [] = 0 := rfl
@[simp] theorem sliceNotional_nil : sliceNotional [] = 0 := rfl
@[simp] theorem sliceFees_nil : sliceFees [] = 0 := rfl

@[simp] theorem sliceShares_append (first second : List FillSlice) :
    sliceShares (first ++ second) = sliceShares first + sliceShares second := by
  simp [sliceShares]

@[simp] theorem sliceNotional_append (first second : List FillSlice) :
    sliceNotional (first ++ second) = sliceNotional first + sliceNotional second := by
  simp [sliceNotional]

@[simp] theorem sliceFees_append (first second : List FillSlice) :
    sliceFees (first ++ second) = sliceFees first + sliceFees second := by
  simp [sliceFees]

@[simp] theorem sliceShares_cons (slice : FillSlice) (rest : List FillSlice) :
    sliceShares (slice :: rest) = slice.sizeScaled + sliceShares rest := by
  simp [sliceShares]

@[simp] theorem sliceNotional_cons (slice : FillSlice) (rest : List FillSlice) :
    sliceNotional (slice :: rest) = slice.notionalScaled + sliceNotional rest := by
  simp [sliceNotional]

@[simp] theorem sliceFees_cons (slice : FillSlice) (rest : List FillSlice) :
    sliceFees (slice :: rest) = slice.feeScaled + sliceFees rest := by
  simp [sliceFees]

/-- Slices of positive size sum to something, unless there are none. -/
theorem sliceShares_pos {slices : List FillSlice} (positive : ∀ slice ∈ slices, 0 < slice.sizeScaled) :
    0 ≤ sliceShares slices ∧ (sliceShares slices = 0 → slices = []) := by
  induction slices with
  | nil => simp
  | cons slice rest ih =>
    have first := positive slice (List.mem_cons_self ..)
    obtain ⟨later, _⟩ := ih fun other member => positive other (List.mem_cons_of_mem _ member)
    rw [sliceShares_cons]
    exact ⟨by omega, fun none => by omega⟩

/-! ## Outcomes -/

/-- An outcome reports the sums of its slices, and the venue priced each of them. -/
structure ExecutionOutcome.Balanced (executor : TakerExecutor) (outcome : ExecutionOutcome) : Prop where
  shares : outcome.filledSharesScaled = sliceShares outcome.slices
  notional : outcome.notionalScaled = sliceNotional outcome.slices
  fees : outcome.feesScaled = sliceFees outcome.slices
  priced : ∀ slice ∈ outcome.slices, executor.Prices slice

namespace ExecutionOutcome.Balanced

variable {executor : TakerExecutor} {outcome : ExecutionOutcome}

theorem rejected (executor : TakerExecutor) (shares : ℤ) (reason : Option ExecutionReason)
    (decisionNs arrivalNs : ℤ) (reference : Option ℤ) (side : Side) :
    (ExecutionOutcome.rejected shares reason decisionNs arrivalNs reference side).Balanced
      executor :=
  ⟨rfl, rfl, rfl, by simp [ExecutionOutcome.rejected]⟩

theorem filled_nonneg (balanced : outcome.Balanced executor) : 0 ≤ outcome.filledSharesScaled := by
  rw [balanced.shares]
  exact (sliceShares_pos fun slice member => (balanced.priced slice member).size_pos).1

/-- An outcome filled nothing when it has no slices. -/
theorem unfilled_iff (balanced : outcome.Balanced executor) :
    sliceShares outcome.slices = 0 ↔ outcome.slices = [] := by
  refine ⟨(sliceShares_pos fun slice member => (balanced.priced slice member).size_pos).2, ?_⟩
  intro none
  rw [none, sliceShares_nil]

/-- An outcome that filled nothing costs nothing. -/
theorem of_unfilled (balanced : outcome.Balanced executor) (unfilled : outcome.filled = false) :
    outcome.filledSharesScaled = 0 ∧ outcome.slices = [] ∧ outcome.notionalScaled = 0 ∧
      outcome.feesScaled = 0 := by
  have none : outcome.filledSharesScaled = 0 :=
    le_antisymm (not_lt.mp (of_decide_eq_false unfilled)) balanced.filled_nonneg
  have slices : outcome.slices = [] :=
    (sliceShares_pos fun slice member => (balanced.priced slice member).size_pos).2
      (balanced.shares ▸ none)
  refine ⟨none, slices, ?_, ?_⟩
  · rw [balanced.notional, slices, sliceNotional_nil]
  · rw [balanced.fees, slices, sliceFees_nil]

end ExecutionOutcome.Balanced

namespace TakerExecutor

variable {executor : TakerExecutor}

/-- A completed execution of an order. -/
structure Executed (executor : TakerExecutor) (order : TakerOrder) (outcome : ExecutionOutcome) :
    Prop where
  balanced : outcome.Balanced executor
  inside : ∀ slice ∈ outcome.slices, order.side.beyond order.limitPriceScaled slice.priceScaled = false
  drawn : DrawnFrom order.ladder outcome.slices
  within : outcome.filledSharesScaled ≤ max 0 order.requestedSharesScaled
  requested : outcome.requestedSharesScaled = order.requestedSharesScaled
  decided : outcome.decisionUtcNs = order.decisionUtcNs
  arrived : outcome.arrivalUtcNs = order.arrivalUtcNs
  side : outcome.side = order.side

theorem Executed.refuse (executor : TakerExecutor) (order : TakerOrder) (reason : ExecutionReason) :
    executor.Executed order (refuse order reason) where
  balanced := .rejected ..
  inside := by simp [TakerExecutor.refuse, ExecutionOutcome.rejected]
  drawn := DrawnFrom.nil _
  within := le_max_left _ _
  requested := rfl
  decided := rfl
  arrived := rfl
  side := rfl

/-- The tolerance through the touch only tightens the limit of the order. -/
theorem effectiveLimit_tighter {side : Side} {touch tick price : ℤ} {limit : Option ℤ}
    (inside : side.beyond (executor.effectiveLimit side touch limit tick).1 price = false) :
    side.beyond limit price = false := by
  unfold effectiveLimit at inside
  dsimp only at inside
  split at inside
  · exact inside
  · cases limit with
    | none => cases side <;> rfl
    | some limit =>
      cases side with
      | buy =>
        simp only [Side.beyond, decide_eq_false_iff_not, not_lt] at inside ⊢
        exact inside.trans (min_le_left _ _)
      | sell =>
        simp only [Side.beyond, decide_eq_false_iff_not, not_lt] at inside ⊢
        exact (le_max_left _ _).trans inside

/-- An order may take no more of a level than is displayed. -/
theorem allowed_le {displayed : ℤ} (positive : 0 < executor.allowed displayed) :
    executor.allowed displayed ≤ displayed := by
  have range := executor.realism.participation_range
  have bound : executor.allowed displayed ≤
      displayed * executor.realism.maxLevelParticipationPpm / ppm := min_le_right _ _
  have million : (0 : ℤ) < ppm := by decide
  have some : 0 < displayed := by
    by_contra none
    have nothing : displayed * executor.realism.maxLevelParticipationPpm ≤ 0 :=
      mul_nonpos_of_nonpos_of_nonneg (not_lt.mp none) range.1.le
    have := Int.ediv_le_ediv million nothing
    rw [Int.zero_ediv] at this
    omega
  refine bound.trans ?_
  have scaled : displayed * executor.realism.maxLevelParticipationPpm ≤ displayed * ppm :=
    Int.mul_le_mul_of_nonneg_left range.2 some.le
  exact (Int.ediv_le_ediv million scaled).trans_eq (Int.mul_ediv_cancel _ (by decide))

/-- How far a sweep over the first levels of a ladder has come. -/
structure Swept (executor : TakerExecutor) (order : TakerOrder) (limit : Option ℤ)
    (past : List ((ℤ × ℤ) × ℕ)) (sweep : Sweep) : Prop where
  priced : ∀ slice ∈ sweep.slices, executor.Prices slice
  inside : ∀ slice ∈ sweep.slices, order.side.beyond limit slice.priceScaled = false
  drawn : DrawnFrom (past.map Prod.fst) sweep.slices
  consumed : sweep.remaining + sliceShares sweep.slices = order.requestedSharesScaled
  remaining : 0 ≤ sweep.remaining

theorem Swept.skip {order : TakerOrder} {limit : Option ℤ} {past : List ((ℤ × ℤ) × ℕ)}
    {sweep : Sweep} (swept : executor.Swept order limit past sweep) (ranked : (ℤ × ℤ) × ℕ)
    {after : Sweep} (slices : after.slices = sweep.slices)
    (remaining : after.remaining = sweep.remaining) :
    executor.Swept order limit (past ++ [ranked]) after where
  priced := slices ▸ swept.priced
  inside := slices ▸ swept.inside
  drawn := by
    rw [slices, List.map_append]
    exact swept.drawn.mono (List.sublist_append_left _ _)
  consumed := by rw [slices, remaining]; exact swept.consumed
  remaining := remaining ▸ swept.remaining

theorem Swept.level {order : TakerOrder} {limit cap : Option ℤ} {past : List ((ℤ × ℤ) × ℕ)}
    {sweep : Sweep} (swept : executor.Swept order limit past sweep) {ranked : (ℤ × ℤ) × ℕ}
    {flow : Flow Sweep} (ran : executor.sweepLevel order.side limit cap sweep ranked = .ok flow) :
    executor.Swept order limit (past ++ [ranked]) flow.state := by
  obtain ⟨⟨price, displayed⟩, rank⟩ := ranked
  unfold sweepLevel at ran
  dsimp only at ran
  split at ran
  · cases ran
    exact swept.skip _ rfl rfl
  next inside =>
  have bound : (executor.takeAt cap sweep displayed).1 ≤ sweep.remaining ∧
      (executor.takeAt cap sweep displayed).1 ≤ executor.allowed displayed := by
    unfold takeAt
    dsimp only
    split
    · exact ⟨min_le_left _ _, min_le_right _ _⟩
    · split <;> dsimp only <;> omega
  rcases taken : executor.takeAt cap sweep displayed with ⟨take, cutByVolume⟩
  rw [taken] at ran bound
  dsimp only at ran bound
  split at ran
  · cases ran
    split <;> exact swept.skip _ rfl rfl
  next positive =>
  obtain ⟨fee, feeRan, ran⟩ := Except.bind_eq_ok.mp ran
  obtain ⟨notional, notionalRan, ran⟩ := Except.bind_eq_ok.mp ran
  have after : flow.state.slices = sweep.slices ++ [⟨price, take, notional, fee, rank + 1⟩] ∧
      flow.state.remaining = sweep.remaining - take := by
    obtain rfl := Except.pure_eq_ok.mp ran
    split <;> exact ⟨rfl, rfl⟩
  have shown : executor.allowed displayed ≤ displayed := allowed_le (by omega)
  refine ⟨?_, ?_, ?_, ?_, ?_⟩
  · rw [after.1]
    intro slice member
    rcases List.mem_append.mp member with earlier | last
    · exact swept.priced slice earlier
    · obtain rfl := List.mem_singleton.mp last
      exact ⟨by dsimp only; omega, notionalRan, feeRan⟩
  · rw [after.1]
    intro slice member
    rcases List.mem_append.mp member with earlier | last
    · exact swept.inside slice earlier
    · obtain rfl := List.mem_singleton.mp last
      simpa using inside
  · rw [after.1, List.map_append]
    exact swept.drawn.concat ⟨rfl, by dsimp only; omega⟩
  · rw [after.1, after.2, sliceShares_append, sliceShares_cons, sliceShares_nil,
      ← swept.consumed]
    ring
  · rw [after.2]
    omega

/-- What a completed execution reports. -/
theorem execute_spec {order : TakerOrder} {outcome : ExecutionOutcome}
    (ran : executor.execute order = .ok outcome) : executor.Executed order outcome := by
  unfold execute at ran
  split at ran
  · cases ran
    exact .refuse ..
  next requested =>
  split at ran
  · cases ran
    exact .refuse ..
  next touch size rest ladder =>
  split at ran
  · cases ran
    exact .refuse ..
  split at ran
  · cases ran
    exact .refuse ..
  dsimp only at ran
  obtain ⟨sweep, looped, ran⟩ := Except.bind_eq_ok.mp ran
  have start : executor.Swept order
      (executor.effectiveLimit order.side touch order.limitPriceScaled order.tickSizeScaled).1 []
      ⟨order.requestedSharesScaled, [], 0, false, false, false⟩ :=
    ⟨by simp, by simp, DrawnFrom.nil _, by simp, by dsimp only; omega⟩
  obtain ⟨past, future, visible, swept⟩ := forLoop_history (executor.Swept order _) start
    (fun past item future state flow _ swept ran => swept.level ran) looped
  have ladderDrawn : DrawnFrom order.ladder sweep.slices := by
    refine swept.drawn.mono ?_
    have shown : past.map Prod.fst ++ future.map Prod.fst = executor.visibleLadder order.ladder := by
      rw [← List.map_append, ← visible]
      simp
    refine (List.sublist_append_left _ (future.map Prod.fst)).trans ?_
    rw [shown]
    unfold visibleLadder
    split
    · exact List.Sublist.refl _
    · exact List.take_sublist _ _
  split at ran
  · cases ran
    exact .refuse ..
  · obtain rfl := Except.pure_eq_ok.mp ran
    refine ⟨⟨rfl, rfl, rfl, swept.priced⟩, fun slice member => ?_, ladderDrawn, ?_, rfl, rfl, rfl, rfl⟩
    · exact effectiveLimit_tighter (swept.inside slice member)
    · have := swept.consumed
      have := swept.remaining
      change sliceShares sweep.slices ≤ _
      omega

end TakerExecutor

end PolymarketBt
