import PolymarketBt.Proofs.FastSim.ParentReturns
import PolymarketBt.Proofs.PolicyDecision

/-! # Child orders respect every bound of their policy

The bounds are stated on exact rationals. A size is an integer number of share units that passed a
schedule, a throttle and five caps, each rounded on its own; every rounding errs toward the smaller
child, so the size obeys the unrounded bounds together.
-/

namespace PolymarketBt

/-! ## The bounds -/

/-- A ladder price at or inside a limit of an order. -/
def Side.AtOrInside : Side → ℤ → ℤ → Prop
  | .buy, limit, price => price ≤ limit
  | .sell, limit, price => limit ≤ price

instance (side : Side) (limit price : ℤ) : Decidable (side.AtOrInside limit price) :=
  match side with
  | .buy => inferInstanceAs (Decidable (price ≤ limit))
  | .sell => inferInstanceAs (Decidable (limit ≤ price))

namespace ExecutionState

/-- The levels of the opposite ladder a child may take. -/
def levelsWithinLimit (state : ExecutionState) : List (ℤ × ℤ) :=
  state.takerLadder.filter fun level =>
    ∀ limit ∈ state.plan.limitPriceScaled, state.plan.side.AtOrInside limit level.1

def depthWithinLimit (state : ExecutionState) : ℤ := (state.levelsWithinLimit.map Prod.snd).sum

end ExecutionState

/-- A rate in parts per million as a fraction. -/
def rateOf (ratePpm : ℤ) : ℚ := ratePpm / ppm

/-- What the wallet, the book, the venue and the clock allow one child. -/
structure PolicyLimits.Bounded (limits : PolicyLimits) (state : ExecutionState) (size : ℤ) :
    Prop where
  positive : 0 < size
  remaining : size ≤ state.remainingSharesScaled
  child : ∀ bound ∈ limits.maxChildSharesScaled, size ≤ bound
  inventory : state.plan.side = .sell → size ≤ state.inventorySharesScaled
  participation : (size : ℚ) ≤ state.depthWithinLimit * rateOf limits.maxL2ParticipationPpm
  venue : state.minimumOrderSizeScaled ≤ size
  window : state.plan.startUtcNs ≤ state.nowUtcNs ∧ state.nowUtcNs ≤ state.plan.deadlineUtcNs
  spaced : state.nowUtcNs < state.plan.deadlineUtcNs → ∀ last ∈ state.lastActionUtcNs,
    limits.minimumActionIntervalNs ≤ state.nowUtcNs - last
  /-- The cost at the worst executable price, fee reserve included. -/
  affordable : state.plan.side = .buy → ∀ level ∈ state.levelsWithinLimit,
    (size : ℚ) * (level.1 / polymarketPriceScale) * (1 + rateOf limits.feeReservePpm) ≤
      state.availableCashScaled

/-- The slot of the schedule an instant falls in, counted from one. -/
def TwapPolicy.slot (policy : TwapPolicy) (state : ExecutionState) : ℤ :=
  min policy.slices (⌊((state.nowUtcNs - state.plan.startUtcNs) * policy.slices : ℚ) /
    (state.plan.deadlineUtcNs - state.plan.startUtcNs)⌋ + 1)

/-- What the schedule of a policy allows in total before the deadline. -/
def SequentialExecutionPolicy.ScheduleAllows :
    SequentialExecutionPolicy → ExecutionState → ℤ → Prop
  | twap policy, state, size =>
    state.filledSharesScaled + size ≤
      ⌈(state.plan.targetSharesScaled * policy.slot state : ℚ) / policy.slices⌉
  | adaptivePov policy, state, size =>
    (state.filledSharesScaled + size : ℚ) ≤ min (state.plan.targetSharesScaled : ℚ)
      (max (state.observedMarketVolumeScaled * rateOf policy.participationPpm /
        (1 - rateOf policy.participationPpm)) (policy.scheduleFloor state))

/-! ## What a checked state guarantees -/

theorem Side.Better.trans {side : Side} {first second third : ℤ} (near : side.Better first second)
    (far : side.Better second third) : side.Better first third := by
  cases side with
  | buy => exact lt_trans far near
  | sell => exact lt_trans near far

/-- A validated ladder holds positive levels, each strictly behind the one before. -/
theorem validateLadder_spec {side : Side} {name : String} {previous : Option ℤ}
    {ladder : List (ℤ × ℤ)}
    (valid : ExecutionState.validateLadder side name previous ladder = .ok ()) :
    (∀ level ∈ ladder, 0 < level.1 ∧ 0 < level.2) ∧ StrictLadder side ladder ∧
      ∀ price ∈ previous, ∀ level ∈ ladder, side.Better price level.1 := by
  induction ladder generalizing previous with
  | nil => exact ⟨by simp, List.Pairwise.nil, by simp⟩
  | cons level rest ih =>
    obtain ⟨price, size⟩ := level
    obtain ⟨_, positive, valid⟩ := Except.bind_eq_ok.mp valid
    obtain ⟨_, ordered, valid⟩ := Except.bind_eq_ok.mp valid
    obtain ⟨positives, strict, behind⟩ := ih valid
    have behind : ∀ level ∈ rest, side.Better price level.1 := behind price rfl
    refine ⟨List.forall_mem_cons.mpr ⟨require_eq_ok.mp positive, positives⟩,
      List.pairwise_cons.mpr ⟨behind, strict⟩, ?_⟩
    rintro earlier ⟨⟩
    have first : side.Better earlier price := by
      have ordered := require_eq_ok.mp ordered
      cases side <;> simpa [Side.Better] using ordered
    exact List.forall_mem_cons.mpr ⟨first, fun level member => first.trans (behind level member)⟩

namespace ExecutionState

/-- What the checks of a state leave of it. -/
structure Valid (state : ExecutionState) : Prop where
  filled : 0 ≤ state.filledSharesScaled ∧ state.filledSharesScaled ≤ state.plan.targetSharesScaled
  volume : 0 ≤ state.observedMarketVolumeScaled
  cash : 0 ≤ state.availableCashScaled
  positive : ∀ level ∈ state.takerLadder, 0 < level.1 ∧ 0 < level.2
  /-- The last level of the ladder is the most expensive one for a buy. -/
  ascending : state.plan.side = .buy → StrictLadder .sell state.takerLadder

variable {state : ExecutionState}

theorem check_spec (checked : state.check = .ok ()) : state.Valid := by
  obtain ⟨_, filled, checked⟩ := Except.bind_eq_ok.mp checked
  obtain ⟨_, _, checked⟩ := Except.bind_eq_ok.mp checked
  obtain ⟨_, cash, checked⟩ := Except.bind_eq_ok.mp checked
  obtain ⟨_, volume, checked⟩ := Except.bind_eq_ok.mp checked
  obtain ⟨_, _, checked⟩ := Except.bind_eq_ok.mp checked
  obtain ⟨_, _, checked⟩ := Except.bind_eq_ok.mp checked
  obtain ⟨_, _, checked⟩ := Except.bind_eq_ok.mp checked
  obtain ⟨_, bids, asks⟩ := Except.bind_eq_ok.mp checked
  obtain ⟨positiveBids, _, _⟩ := validateLadder_spec bids
  obtain ⟨positiveAsks, strictAsks, _⟩ := validateLadder_spec asks
  refine ⟨require_eq_ok.mp filled, require_eq_ok.mp volume, require_eq_ok.mp cash, ?_, ?_⟩
  · unfold takerLadder
    split
    · exact positiveAsks
    · exact positiveBids
  · intro buy
    rw [takerLadder, buy]
    exact strictAsks

end ExecutionState

/-! ## The caps on exact quantities -/

theorem executableLevels_eq (state : ExecutionState) :
    PolicyLimits.executableLevels state = state.levelsWithinLimit := by
  unfold PolicyLimits.executableLevels ExecutionState.levelsWithinLimit
  cases limit : state.plan.limitPriceScaled with
  | none => simp
  | some bound =>
    refine List.filter_congr fun level _ => ?_
    rw [Bool.eq_iff_iff]
    cases state.plan.side <;> simp [Side.beyond, Side.AtOrInside]

section

variable {limits : PolicyLimits} {state : ExecutionState} {size : ℤ}

/-- The depth of a ladder whose sizes are positive. -/
theorem depthWithinLimit_nonneg (valid : state.Valid) : 0 ≤ state.depthWithinLimit := by
  refine List.sum_nonneg fun size member => ?_
  obtain ⟨level, taken, rfl⟩ := List.mem_map.mp member
  exact (valid.positive level (List.mem_of_mem_filter taken)).2.le

/-- The depth cap is a truncated share of the depth, so at most the share. -/
theorem size_le_participation (valid : state.Valid)
    (cap : size ≤ ppmOf (PolicyLimits.executableDepth state) limits.maxL2ParticipationPpm) :
    (size : ℚ) ≤ state.depthWithinLimit * rateOf limits.maxL2ParticipationPpm := by
  rw [PolicyLimits.executableDepth, executableLevels_eq] at cap
  calc (size : ℚ) ≤ ppmOf state.depthWithinLimit limits.maxL2ParticipationPpm := by
        exact_mod_cast cap
    _ ≤ _ := ppmOf_le_share (depthWithinLimit_nonneg valid) _

/-- In a ladder in strict ascending order no price exceeds the last one. -/
theorem price_le_last {ladder : List (ℤ × ℤ)} (strict : StrictLadder .sell ladder)
    {last level : ℤ × ℤ} (lastLevel : last ∈ ladder.getLast?) (member : level ∈ ladder) :
    level.1 ≤ last.1 := by
  obtain ⟨front, rfl⟩ := List.getLast?_eq_some_iff.mp lastLevel
  obtain ⟨_, _, apart⟩ := List.pairwise_append.mp strict
  rcases List.mem_append.mp member with earlier | final
  · exact (apart level earlier last (List.mem_singleton_self _)).le
  · rw [List.mem_singleton.mp final]

/-- The price of the cash cap is at least every executable price. -/
theorem exists_worstPrice (limits : PolicyLimits) (valid : state.Valid) (buy : state.plan.side = .buy)
    {level : ℤ × ℤ} (member : level ∈ state.levelsWithinLimit) :
    ∃ worstPrice, level.1 ≤ worstPrice ∧
      limits.cashAffordableShares state =
        state.availableCashScaled * polymarketPriceScale * ppm /
          (worstPrice * (ppm + limits.feeReservePpm)) := by
  obtain ⟨last, lastLevel⟩ : ∃ last, state.levelsWithinLimit.getLast? = some last :=
    ⟨_, List.getLast?_eq_some_getLast (List.ne_nil_of_mem member)⟩
  have strict : StrictLadder .sell state.levelsWithinLimit :=
    List.Pairwise.filter _ (valid.ascending buy)
  have worst : level.1 ≤ last.1 := price_le_last strict lastLevel member
  unfold PolicyLimits.cashAffordableShares
  rw [executableLevels_eq, lastLevel]
  dsimp only
  split
  · exact ⟨last.1, worst, rfl⟩
  · next limit _ => exact ⟨max last.1 limit, worst.trans (le_max_left _ _), rfl⟩

/-- The cash cap inverts the cost of a share with its reserve, rounded down. -/
theorem size_affordable (valid : state.Valid) (buy : state.plan.side = .buy) (positive : 0 < size)
    (cap : size ≤ limits.cashAffordableShares state) {level : ℤ × ℤ}
    (member : level ∈ state.levelsWithinLimit) :
    (size : ℚ) * (level.1 / polymarketPriceScale) * (1 + rateOf limits.feeReservePpm) ≤
      state.availableCashScaled := by
  obtain ⟨worstPrice, worst, affordable⟩ := exists_worstPrice limits valid buy member
  have priced : 0 < level.1 := (valid.positive level (List.mem_of_mem_filter member)).1
  have reserve : 0 ≤ limits.feeReservePpm := limits.reserve_nonneg
  have dearer : 0 < worstPrice * (ppm + limits.feeReservePpm) :=
    mul_pos (priced.trans_le worst) (add_pos_of_pos_of_nonneg (by decide) reserve)
  have inverted : size * (worstPrice * (ppm + limits.feeReservePpm)) ≤
      state.availableCashScaled * polymarketPriceScale * ppm := by
    rw [affordable] at cap
    exact (mul_le_mul_of_nonneg_right cap dearer.le).trans (Int.ediv_mul_le _ dearer.ne')
  have cheaper : size * (level.1 * (ppm + limits.feeReservePpm)) ≤
      size * (worstPrice * (ppm + limits.feeReservePpm)) := by
    refine mul_le_mul_of_nonneg_left (mul_le_mul_of_nonneg_right worst ?_) positive.le
    exact add_nonneg (by decide) reserve
  have exact : (size : ℚ) * (level.1 * (ppm + limits.feeReservePpm)) ≤
      state.availableCashScaled * polymarketPriceScale * ppm := by
    exact_mod_cast cheaper.trans inverted
  simp only [rateOf, polymarketPriceScale, ppm] at exact ⊢
  push_cast at exact ⊢
  linarith

end

/-! ## The schedules on exact quantities -/

theorem floor_intCast_div (numerator : ℤ) {denominator : ℤ} (positive : 0 < denominator) :
    ⌊(numerator : ℚ) / denominator⌋ = numerator / denominator := by
  lift denominator to ℕ using positive.le
  exact Rat.floor_intCast_div_natCast numerator denominator

theorem TwapPolicy.scheduled_eq {policy : TwapPolicy} {state : ExecutionState}
    (sliced : 0 < policy.slices) (started : state.plan.startUtcNs ≤ state.nowUtcNs)
    (lasts : state.plan.startUtcNs < state.plan.deadlineUtcNs) :
    policy.scheduled state =
      ⌈(state.plan.targetSharesScaled * policy.slot state : ℚ) / policy.slices⌉ := by
  have duration : 0 < state.plan.deadlineUtcNs - state.plan.startUtcNs := by omega
  have elapsed : max 0 (state.nowUtcNs - state.plan.startUtcNs) =
      state.nowUtcNs - state.plan.startUtcNs := max_eq_right (by omega)
  have slot : policy.slot state = min policy.slices
      ((state.nowUtcNs - state.plan.startUtcNs) * policy.slices /
        (state.plan.deadlineUtcNs - state.plan.startUtcNs) + 1) := by
    rw [slot, ← floor_intCast_div _ duration]
    push_cast
    rfl
  rw [scheduled, elapsed, ← slot, ceilDiv_eq_ceil _ sliced]
  push_cast
  rfl

namespace AdaptivePovPolicy

variable {policy : AdaptivePovPolicy} {state : ExecutionState}

/-- What the checks of a policy leave of it. -/
structure Valid (policy : AdaptivePovPolicy) : Prop where
  participation : 0 < policy.participationPpm ∧ policy.participationPpm < ppm
  floor : 0 ≤ policy.twapFloorPpm ∧ policy.twapFloorPpm ≤ ppm
  tolerance : ∀ tolerance ∈ policy.adverseMoveToleranceScaled, 0 < tolerance
  multiplier : 0 ≤ policy.minimumAdverseMultiplierPpm ∧ policy.minimumAdverseMultiplierPpm ≤ ppm

theorem check_spec (checked : policy.check = .ok ()) : policy.Valid := by
  obtain ⟨_, participation, checked⟩ := Except.bind_eq_ok.mp checked
  obtain ⟨_, floor, checked⟩ := Except.bind_eq_ok.mp checked
  obtain ⟨_, tolerance, multiplier⟩ := Except.bind_eq_ok.mp checked
  refine ⟨require_eq_ok.mp participation, require_eq_ok.mp floor, fun bound set => ?_,
    require_eq_ok.mp multiplier⟩
  have tolerance := require_eq_ok.mp tolerance
  rw [Option.mem_def.mp set] at tolerance
  exact of_decide_eq_true tolerance

/-- The throttle of an adverse move only ever scales a child down. -/
theorem adverseMultiplier_le (valid : policy.Valid) : policy.adverseMultiplier state ≤ ppm := by
  unfold adverseMultiplier
  split
  · exact le_rfl
  next tolerance set =>
  split
  · exact le_rfl
  next adverse =>
  have positive : 0 < tolerance := valid.tolerance tolerance set
  have pressure : 0 ≤ min ppm (state.adverseMoveScaled * ppm / tolerance) :=
    le_min (by decide)
      (Int.ediv_nonneg (mul_nonneg (not_le.mp adverse).le (by decide)) positive.le)
  have relief : 0 ≤ ppm - state.progressPpm := sub_nonneg.mpr ExecutionState.progressPpm_range.2
  have reduction : 0 ≤ ppmOf (min ppm (state.adverseMoveScaled * ppm / tolerance))
      (ppm - state.progressPpm) := ppmOf_nonneg pressure relief
  exact max_le valid.multiplier.2 (sub_le_self _ reduction)

/-- The floor is at most its fraction of the unrounded linear schedule. -/
theorem scheduleFloor_le (valid : policy.Valid) (held : state.Valid)
    (started : state.plan.startUtcNs ≤ state.nowUtcNs)
    (early : state.nowUtcNs < state.plan.deadlineUtcNs) :
    (policy.scheduleFloor state : ℚ) ≤ state.plan.targetSharesScaled *
      ((state.nowUtcNs - state.plan.startUtcNs) /
        (state.plan.deadlineUtcNs - state.plan.startUtcNs)) * rateOf policy.twapFloorPpm := by
  have target : 0 ≤ state.plan.targetSharesScaled := held.filled.1.trans held.filled.2
  have scale : (0 : ℚ) < (ppm : ℤ) := by decide
  have floor : (0 : ℚ) ≤ rateOf policy.twapFloorPpm :=
    div_nonneg (by exact_mod_cast valid.floor.1) scale.le
  have linear : 0 ≤ ppmOf state.plan.targetSharesScaled state.progressPpm :=
    ppmOf_nonneg target ExecutionState.progressPpm_range.1
  have progress : (state.progressPpm : ℚ) / ppm ≤
      (state.nowUtcNs - state.plan.startUtcNs) /
        (state.plan.deadlineUtcNs - state.plan.startUtcNs) := by
    have duration : 0 < state.plan.deadlineUtcNs - state.plan.startUtcNs := by omega
    unfold ExecutionState.progressPpm
    rw [div_le_iff₀ scale]
    split
    · have elapsed : state.nowUtcNs = state.plan.startUtcNs := by omega
      simp [elapsed]
    rw [if_neg (not_le.mpr early)]
    refine (cast_ediv_le _ duration).trans_eq ?_
    push_cast
    ring
  calc (policy.scheduleFloor state : ℚ)
      ≤ ppmOf state.plan.targetSharesScaled state.progressPpm * rateOf policy.twapFloorPpm :=
        ppmOf_le_share linear _
    _ ≤ state.plan.targetSharesScaled * (state.progressPpm / ppm) * rateOf policy.twapFloorPpm :=
        mul_le_mul_of_nonneg_right (ppmOf_le_share target _) floor
    _ ≤ _ := by
        refine mul_le_mul_of_nonneg_right ?_ floor
        exact mul_le_mul_of_nonneg_left progress (by exact_mod_cast target)

/-- The cumulative shares a policy asks for are at most the unrounded schedule. -/
theorem desiredCumulative_le (valid : policy.Valid) :
    (policy.desiredCumulative state : ℚ) ≤ min (state.plan.targetSharesScaled : ℚ)
      (max (state.observedMarketVolumeScaled * rateOf policy.participationPpm /
        (1 - rateOf policy.participationPpm)) (policy.scheduleFloor state)) := by
  have others : 0 < ppm - policy.participationPpm := sub_pos.mpr valid.participation.2
  have flow : ((state.observedMarketVolumeScaled * policy.participationPpm /
      (ppm - policy.participationPpm) : ℤ) : ℚ) ≤
      state.observedMarketVolumeScaled * rateOf policy.participationPpm /
        (1 - rateOf policy.participationPpm) := by
    refine (cast_ediv_le _ others).trans_eq ?_
    have apart : ((ppm : ℤ) : ℚ) - policy.participationPpm ≠ 0 := by exact_mod_cast others.ne'
    have scale : ((ppm : ℤ) : ℚ) ≠ 0 := by decide
    unfold rateOf
    push_cast
    field_simp
  unfold desiredCumulative
  push_cast
  exact min_le_min le_rfl (max_le_max (by exact_mod_cast flow) le_rfl)

end AdaptivePovPolicy

/-- What the schedule asks of one child keeps the parent on its schedule. -/
theorem SequentialExecutionPolicy.Asks.allows {policy : SequentialExecutionPolicy}
    {state : ExecutionState} {requested size : ℤ} (asks : policy.Asks state requested)
    (checked : policy.check = .ok ()) (started : state.plan.startUtcNs ≤ state.nowUtcNs)
    (early : state.nowUtcNs < state.plan.deadlineUtcNs) (cap : size ≤ requested) :
    policy.ScheduleAllows state size := by
  cases policy with
  | twap policy =>
    have sliced : 0 < policy.slices := require_eq_ok.mp checked
    change requested = policy.scheduled state - state.filledSharesScaled at asks
    change _ ≤ ⌈_⌉
    rw [← TwapPolicy.scheduled_eq sliced started (by omega)]
    omega
  | adaptivePov policy =>
    have valid : policy.Valid := AdaptivePovPolicy.check_spec checked
    obtain ⟨due, rfl⟩ := asks early
    have throttle : policy.adverseMultiplier state ≤ ppm :=
      AdaptivePovPolicy.adverseMultiplier_le valid
    have throttled := ppmOf_le_self due.le throttle
    have total : state.filledSharesScaled + size ≤ policy.desiredCumulative state := by omega
    calc (state.filledSharesScaled + size : ℚ) ≤ policy.desiredCumulative state := by
          exact_mod_cast total
      _ ≤ _ := AdaptivePovPolicy.desiredCumulative_le valid

/-! ## Child orders -/

/-- A policy with checked parameters, shown a checked state, slices within every bound of its limits
and, before the deadline, within its schedule. -/
theorem child_order_bounded {policy : SequentialExecutionPolicy} {state : ExecutionState}
    (checked : policy.check = .ok ()) (valid : state.check = .ok ())
    (slice : (policy.decide state).kind = .takerSlice) :
    policy.limits.Bounded state (policy.decide state).requestedSharesScaled ∧
      (state.nowUtcNs < state.plan.deadlineUtcNs →
        policy.ScheduleAllows state (policy.decide state).requestedSharesScaled) := by
  have positive := (policy.decide state).sized.2 slice
  have held : state.Valid := ExecutionState.check_spec valid
  obtain ⟨clear, requested, reason, child, asks⟩ :=
    SequentialExecutionPolicy.decide_cases slice
  rw [child] at slice positive ⊢
  obtain ⟨_, venue, caps⟩ := PolicyLimits.childAction_slice slice
  constructor
  · exact {
      positive
      remaining := caps.remaining
      child := caps.child
      inventory := caps.inventory
      participation := size_le_participation held caps.depth
      venue
      window := ⟨clear.started, clear.opened⟩
      spaced := clear.spaced
      affordable := fun buy level member =>
        size_affordable held buy positive (caps.cash buy) member }
  · intro early
    exact asks.allows checked clear.started early caps.requested

/-- A tenth of the way through a hundred seconds, with ten cents to spend at the offered price. -/
def childState (side : Side) : ExecutionState where
  plan := {
    side, targetSharesScaled := 60000000, startUtcNs := 0, deadlineUtcNs := 100000000000,
    benchmarkPriceScaled := 400000, limitPriceScaled := some 500000 }
  nowUtcNs := 10000000000
  filledSharesScaled := 1000000
  inventorySharesScaled := 3000000
  availableCashScaled := 100000
  bids := [(600000, 8000000), (550000, 40000000), (450000, 90000000)]
  asks := [(400000, 8000000), (500000, 40000000), (600000, 90000000)]
  observedMarketVolumeScaled := 50000000
  minimumOrderSizeScaled := 0
  lastActionUtcNs := some 9000000000
  currentReferencePriceScaled := some 410000

theorem quarter_participation_range : 0 < (250000 : ℤ) ∧ (250000 : ℤ) ≤ ppm := by decide

def childLimits : PolicyLimits where
  minimumActionIntervalNs := 250000000
  maxChildSharesScaled := some 5000000
  maxL2ParticipationPpm := 250000
  feeReservePpm := 20000
  child_pos := by rintro _ ⟨⟩; decide
  participation_range := quarter_participation_range

theorem child_order_bounded_by_cash_and_inventory :
    (((SequentialExecutionPolicy.twap ⟨6, childLimits⟩).decide
      (childState .buy)).requestedSharesScaled = 196078 ∧
      childLimits.Bounded (childState .buy) 196078) ∧
    ((SequentialExecutionPolicy.adaptivePov
      ⟨200000, 500000, some 20000, 100000, childLimits⟩).decide
        (childState .sell)).requestedSharesScaled = 3000000 ∧
      childLimits.Bounded (childState .sell) 3000000 := by
  have buy := @child_order_bounded (.twap ⟨6, childLimits⟩) (childState .buy)
    (by decide) (by decide) (by decide)
  have sell := @child_order_bounded
    (.adaptivePov ⟨200000, 500000, some 20000, 100000, childLimits⟩) (childState .sell)
    (by decide) (by decide) (by decide)
  exact ⟨⟨by decide, buy.1⟩, by decide, sell.1⟩

end PolymarketBt
