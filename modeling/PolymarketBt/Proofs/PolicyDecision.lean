import PolymarketBt.Model.OptimalExecution

/-! # What a policy decision says

A slice is decided under a clear preflight, and its size is the largest one under every cap of the
policy limits that does not exceed what the schedule of the policy asks for.
-/

namespace PolymarketBt

/-! ## Rates and rounding -/

theorem ppmOf_of_nonneg {value : ℤ} (nonneg : 0 ≤ value) (ratePpm : ℤ) :
    ppmOf value ratePpm = value * ratePpm / ppm := by
  rw [ppmOf, if_neg (not_lt.mpr nonneg), one_mul, abs_of_nonneg nonneg]

theorem ppmOf_nonneg {value ratePpm : ℤ} (nonneg : 0 ≤ value) (rate : 0 ≤ ratePpm) :
    0 ≤ ppmOf value ratePpm := by
  rw [ppmOf_of_nonneg nonneg]
  exact Int.ediv_nonneg (mul_nonneg nonneg rate) (by decide)

theorem ppmOf_le_self {value ratePpm : ℤ} (nonneg : 0 ≤ value) (rate : ratePpm ≤ ppm) :
    ppmOf value ratePpm ≤ value := by
  rw [ppmOf_of_nonneg nonneg]
  exact Int.ediv_le_of_le_mul (by decide) (mul_le_mul_of_nonneg_left rate nonneg)

theorem cast_ediv_le (numerator : ℤ) {denominator : ℤ} (positive : 0 < denominator) :
    ((numerator / denominator : ℤ) : ℚ) ≤ numerator / denominator := by
  rw [le_div_iff₀ (by exact_mod_cast positive)]
  exact_mod_cast Int.ediv_mul_le numerator positive.ne'

/-- Truncation never overstates a share of a quantity. -/
theorem ppmOf_le_share {value : ℤ} (nonneg : 0 ≤ value) (ratePpm : ℤ) :
    (ppmOf value ratePpm : ℚ) ≤ value * (ratePpm / ppm) := by
  rw [ppmOf_of_nonneg nonneg, ← mul_div_assoc]
  exact_mod_cast cast_ediv_le (value * ratePpm) (show (0 : ℤ) < ppm by decide)

theorem ceilDiv_eq_ceil (numerator : ℤ) {denominator : ℤ} (positive : 0 < denominator) :
    ceilDiv numerator denominator = ⌈(numerator : ℚ) / denominator⌉ := by
  lift denominator to ℕ using positive.le
  exact (Rat.ceil_intCast_div_natCast numerator denominator).symm

/-! ## The state -/

namespace ExecutionState

variable {state : ExecutionState}

theorem progressPpm_range : 0 ≤ state.progressPpm ∧ state.progressPpm ≤ ppm := by
  unfold progressPpm
  split
  · decide
  split
  · decide
  · next started opened =>
    have elapsed : 0 ≤ state.nowUtcNs - state.plan.startUtcNs := by omega
    have within : state.nowUtcNs - state.plan.startUtcNs ≤
        state.plan.deadlineUtcNs - state.plan.startUtcNs := by omega
    refine ⟨Int.ediv_nonneg (mul_nonneg elapsed (by decide)) (by omega),
      Int.ediv_le_of_le_mul (by omega) ?_⟩
    rw [mul_comm]
    exact mul_le_mul_of_nonneg_left within (by decide)

end ExecutionState

/-! ## The limits -/

namespace PolicyLimits

/-- What holds when no reason to wait applies. -/
structure Clear (limits : PolicyLimits) (state : ExecutionState) : Prop where
  started : state.plan.startUtcNs ≤ state.nowUtcNs
  opened : state.nowUtcNs ≤ state.plan.deadlineUtcNs
  unfilled : 0 < state.remainingSharesScaled
  quoted : state.takerLadder ≠ []
  stocked : state.plan.side = .sell → 0 < state.inventorySharesScaled
  spaced : state.nowUtcNs < state.plan.deadlineUtcNs → ∀ last ∈ state.lastActionUtcNs,
    limits.minimumActionIntervalNs ≤ state.nowUtcNs - last

/-- What every cap says of the size of a child. -/
structure Caps (limits : PolicyLimits) (state : ExecutionState) (requested size : ℤ) : Prop where
  requested : size ≤ requested
  remaining : size ≤ state.remainingSharesScaled
  child : ∀ bound ∈ limits.maxChildSharesScaled, size ≤ bound
  inventory : state.plan.side = .sell → size ≤ state.inventorySharesScaled
  depth : size ≤ ppmOf (executableDepth state) limits.maxL2ParticipationPpm
  cash : state.plan.side = .buy → size ≤ limits.cashAffordableShares state

variable {limits : PolicyLimits} {state : ExecutionState}

theorem preflight_eq_none (clear : limits.preflight state = none) : limits.Clear state := by
  unfold preflight at clear
  split at clear
  · cases clear
  next started =>
  split at clear
  · cases clear
  next opened =>
  split at clear
  · cases clear
  next unfilled =>
  split at clear
  · cases clear
  next quoted =>
  split at clear
  · cases clear
  next stocked =>
  split at clear
  · cases clear
  next spaced =>
  refine ⟨by omega, by omega, by omega, quoted, fun sell => ?_, fun early last acted => ?_⟩
  · exact not_le.mp fun empty => stocked ⟨sell, empty⟩
  · by_contra tooSoon
    refine spaced ⟨early, ?_⟩
    rw [Option.mem_def.mp acted]
    exact decide_eq_true (not_le.mp tooSoon)

/-- The size of a child is the largest one under every cap. -/
theorem le_childSize_iff {requested size : ℤ} :
    size ≤ limits.childSize state requested ↔ limits.Caps state requested size := by
  have capped : size ≤ limits.maxChildSharesScaled.elim (min requested state.remainingSharesScaled)
        (min (min requested state.remainingSharesScaled)) ↔
      size ≤ requested ∧ size ≤ state.remainingSharesScaled ∧
        ∀ bound ∈ limits.maxChildSharesScaled, size ≤ bound := by
    cases limits.maxChildSharesScaled with
    | none => simp
    | some bound => simp
  cases side : state.plan.side with
  | buy =>
    have sized : limits.childSize state requested =
        min (min (limits.maxChildSharesScaled.elim (min requested state.remainingSharesScaled)
          (min (min requested state.remainingSharesScaled)))
          (ppmOf (executableDepth state) limits.maxL2ParticipationPpm))
          (limits.cashAffordableShares state) := by
      simp only [childSize, side]
      cases limits.maxChildSharesScaled <;> rfl
    rw [sized, le_min_iff, le_min_iff, capped]
    constructor
    · rintro ⟨⟨⟨requested, remaining, child⟩, depth⟩, cash⟩
      exact ⟨requested, remaining, child, by simp [side], depth, fun _ => cash⟩
    · intro caps
      exact ⟨⟨⟨caps.requested, caps.remaining, caps.child⟩, caps.depth⟩, caps.cash side⟩
  | sell =>
    have sized : limits.childSize state requested =
        min (min (limits.maxChildSharesScaled.elim (min requested state.remainingSharesScaled)
          (min (min requested state.remainingSharesScaled))) state.inventorySharesScaled)
          (ppmOf (executableDepth state) limits.maxL2ParticipationPpm) := by
      simp only [childSize, side]
      cases limits.maxChildSharesScaled <;> rfl
    rw [sized, le_min_iff, le_min_iff, capped]
    constructor
    · rintro ⟨⟨⟨requested, remaining, child⟩, inventory⟩, depth⟩
      exact ⟨requested, remaining, child, fun _ => inventory, depth, by simp [side]⟩
    · intro caps
      exact ⟨⟨⟨caps.requested, caps.remaining, caps.child⟩, caps.inventory side⟩, caps.depth⟩

theorem childAction_slice {requested : ℤ} {reason : ActionReason}
    (slice : (limits.childAction state requested reason).kind = .takerSlice) :
    (limits.childAction state requested reason).limitPriceScaled = state.plan.limitPriceScaled ∧
      state.minimumOrderSizeScaled ≤
        (limits.childAction state requested reason).requestedSharesScaled ∧
      limits.Caps state requested
        (limits.childAction state requested reason).requestedSharesScaled := by
  unfold childAction at slice ⊢
  split at slice
  · split at slice
    · cases slice
    · next positive large =>
      rw [dif_pos positive, if_neg large]
      exact ⟨rfl, not_lt.mp large, le_childSize_iff.mp le_rfl⟩
  · cases slice

end PolicyLimits

/-! ## The schedules -/

/-- The shares a slot of the schedule asks for in total. -/
def TwapPolicy.scheduled (policy : TwapPolicy) (state : ExecutionState) : ℤ :=
  ceilDiv (state.plan.targetSharesScaled *
    min policy.slices (max 0 (state.nowUtcNs - state.plan.startUtcNs) * policy.slices /
      (state.plan.deadlineUtcNs - state.plan.startUtcNs) + 1)) policy.slices

namespace AdaptivePovPolicy

variable (policy : AdaptivePovPolicy) (state : ExecutionState)

/-- A fraction of the linear schedule, below which a silent tape does not hold the parent back. -/
def scheduleFloor : ℤ :=
  ppmOf (ppmOf state.plan.targetSharesScaled state.progressPpm) policy.twapFloorPpm

/-- The shares the observed volume and the floor ask for in total. -/
def desiredCumulative : ℤ :=
  min state.plan.targetSharesScaled
    (max (state.observedMarketVolumeScaled * policy.participationPpm /
      (ppm - policy.participationPpm)) (policy.scheduleFloor state))

end AdaptivePovPolicy

namespace SequentialExecutionPolicy

def limits : SequentialExecutionPolicy → PolicyLimits
  | twap policy => policy.limits
  | adaptivePov policy => policy.limits

/-- What the schedule of a policy asks of one child. -/
def Asks : SequentialExecutionPolicy → ExecutionState → ℤ → Prop
  | twap policy, state, requested => requested = policy.scheduled state - state.filledSharesScaled
  | adaptivePov policy, state, requested =>
    state.nowUtcNs < state.plan.deadlineUtcNs →
      0 < policy.desiredCumulative state - state.filledSharesScaled ∧
      requested = ppmOf (policy.desiredCumulative state - state.filledSharesScaled)
        (policy.adverseMultiplier state)

variable {policy : SequentialExecutionPolicy} {state : ExecutionState}

/-- A slice is the child of a clear preflight, of the size its schedule asks for. -/
theorem decide_cases (slice : (policy.decide state).kind = .takerSlice) :
    policy.limits.Clear state ∧ ∃ requested reason,
      policy.decide state = policy.limits.childAction state requested reason ∧
      policy.Asks state requested := by
  cases policy with
  | twap policy =>
    simp only [decide, TwapPolicy.decide] at slice ⊢
    cases clear : policy.limits.preflight state with
    | some reason =>
      rw [clear] at slice
      cases slice
    | none =>
      rw [clear] at slice
      refine ⟨PolicyLimits.preflight_eq_none clear, ?_⟩
      dsimp only at slice ⊢
      split at slice
      · cases slice
      · next due =>
        rw [if_neg due]
        exact ⟨_, _, rfl, rfl⟩
  | adaptivePov policy =>
    simp only [decide, AdaptivePovPolicy.decide] at slice ⊢
    cases clear : policy.limits.preflight state with
    | some reason =>
      rw [clear] at slice
      cases slice
    | none =>
      rw [clear] at slice
      refine ⟨PolicyLimits.preflight_eq_none clear, ?_⟩
      dsimp only at slice ⊢
      split at slice
      · next atDeadline =>
        rw [if_pos atDeadline]
        exact ⟨_, _, rfl, fun early => absurd atDeadline early.ne⟩
      next early =>
      split at slice
      · cases slice
      next due =>
      split at slice
      · cases slice
      · next adjusted =>
        rw [if_neg early, if_neg due, if_neg adjusted]
        exact ⟨_, _, rfl, fun _ => ⟨not_le.mp due, rfl⟩⟩

end SequentialExecutionPolicy

end PolymarketBt
