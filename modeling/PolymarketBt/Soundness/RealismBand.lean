import PolymarketBt.Model.RealismPresets
import PolymarketBt.Soundness.ConstrainedSweep
import PolymarketBt.ToMathlib.FillDominance

/-! # The realism presets form a band

A realism tightens another one when each of its settings allows no more. The same order then takes
no more of the first levels of a ladder, however many of them are counted, and where it takes the
same in all it trades at prices that are no better.
-/

namespace PolymarketBt

open GreedyFill

/-- A limit that is set wherever the other one is, and no looser. -/
def NoLooser (tight loose : Option ℤ) : Prop := ∀ bound ∈ loose, ∃ own ∈ tight, own ≤ bound

/-- Each setting that an execution reads allows no more. -/
structure ExecutionRealism.Tightens (tight loose : ExecutionRealism) : Prop where
  haircut : loose.displayedDepthHaircutPpm ≤ tight.displayedDepthHaircutPpm
  participation : tight.maxLevelParticipationPpm ≤ loose.maxLevelParticipationPpm
  levels : ∀ bound ∈ loose.maxLevelsSwept, ∃ own ∈ tight.maxLevelsSwept, own ≤ bound
  volume : NoLooser tight.volumeParticipationPpm loose.volumeParticipationPpm
  age : NoLooser tight.staleBookMaxAgeMs loose.staleBookMaxAgeMs
  ticks : NoLooser tight.maxTicksThroughTouch loose.maxTicksThroughTouch
  through : NoLooser tight.maxPriceThroughTouchScaled loose.maxPriceThroughTouchScaled

/-- Every preset tightens the more optimistic ones. -/
theorem preset_tightens (latencies : PresetName → Option LatencyConfig) (fee : Option FeeConfig) :
    (preset .pessimistic (latencies .pessimistic) fee).realism.Tightens
        (preset .base (latencies .base) fee).realism ∧
      (preset .base (latencies .base) fee).realism.Tightens
        (preset .optimistic (latencies .optimistic) fee).realism := by
  constructor
  · constructor <;> simp [preset, NoLooser]
  · constructor <;> simp [preset, NoLooser, ppm]

namespace TakerExecutor

variable {tight loose : TakerExecutor} {order : TakerOrder}

/-! ## What each setting does -/

theorem allowed_mono (tightens : tight.realism.Tightens loose.realism) {displayed : ℤ}
    (shown : 0 ≤ displayed) : tight.allowed displayed ≤ loose.allowed displayed := by
  have million : (0 : ℤ) < ppm := by decide
  have haircut := tightens.haircut
  refine min_le_min (Int.ediv_le_ediv million ?_) (Int.ediv_le_ediv million ?_)
  · exact mul_le_mul_of_nonneg_left (by omega) shown
  · exact mul_le_mul_of_nonneg_left tightens.participation shown

theorem volumeCap_mono (tightens : tight.realism.Tightens loose.realism) {volume : Option ℤ}
    (traded : ∀ shares ∈ volume, 0 ≤ shares) (minimum : ℤ) :
    NoLooser (tight.volumeCap volume minimum) (loose.volumeCap volume minimum) := by
  intro bound capped
  unfold volumeCap at capped ⊢
  cases limit : loose.realism.volumeParticipationPpm with
  | none => simp [limit] at capped
  | some outer =>
    obtain ⟨inner, own, narrower⟩ := tightens.volume outer limit
    have positive := tight.realism.volume_pos inner own
    cases volume with
    | none => simp [limit] at capped
    | some shares =>
      have some := traded shares rfl
      rw [limit] at capped
      rw [Option.mem_def] at own
      rw [own]
      obtain rfl := Option.some_inj.mp capped
      refine ⟨_, rfl, max_le_max ?_ le_rfl⟩
      -- A smaller share of the flow is a smaller numerator on a larger denominator.
      have rest : max (ppm - outer) 1 ≤ max (ppm - inner) 1 := max_le_max (by omega) le_rfl
      have outerPos : 0 < max (ppm - outer) 1 := by omega
      have innerPos : 0 < max (ppm - inner) 1 := by omega
      refine (Int.le_ediv_iff_mul_le outerPos).mpr ?_
      have quotient : 0 ≤ shares * inner / max (ppm - inner) 1 :=
        Int.ediv_nonneg (mul_nonneg some positive.le) innerPos.le
      calc shares * inner / max (ppm - inner) 1 * max (ppm - outer) 1
          ≤ shares * inner / max (ppm - inner) 1 * max (ppm - inner) 1 :=
            mul_le_mul_of_nonneg_left rest quotient
        _ ≤ shares * inner := Int.ediv_mul_le _ innerPos.ne'
        _ ≤ shares * outer := mul_le_mul_of_nonneg_left narrower some

theorem wanted_mono (tightens : tight.realism.Tightens loose.realism)
    (traded : ∀ shares ∈ order.realisedVolumeScaled, 0 ≤ shares) :
    tight.wanted order ≤ loose.wanted order := by
  have capped := volumeCap_mono tightens traded order.minimumOrderSizeScaled
  unfold wanted capOf
  cases outer : loose.volumeCap order.realisedVolumeScaled order.minimumOrderSizeScaled with
  | none => exact budget_le
  | some bound =>
    obtain ⟨own, limit, narrower⟩ := capped bound outer
    rw [Option.mem_def] at limit
    rw [limit]
    exact min_le_min le_rfl (max_le_max le_rfl narrower)

/-- A price within a slack of the touch is within any larger slack. -/
theorem beyond_throughTouch {side : Side} {touch price : ℤ} {inner outer : Option ℤ}
    (narrower : NoLooser inner outer)
    (inside : side.beyond (inner.map (side.throughTouch touch)) price = false) :
    side.beyond (outer.map (side.throughTouch touch)) price = false := by
  cases outer with
  | none => cases side <;> rfl
  | some bound =>
    obtain ⟨own, set, closer⟩ := narrower bound rfl
    rw [Option.mem_def] at set
    subst set
    cases side <;> simp only [Side.beyond, Side.throughTouch, Option.map_some,
      decide_eq_false_iff_not, not_lt] at inside ⊢ <;> omega

theorem accepts_mono (tightens : tight.realism.Tightens loose.realism) {price : ℤ}
    (accepted : tight.accepts order price = true) : loose.accepts order price = true := by
  simp only [accepts, Bool.not_eq_true', Bool.or_eq_false_iff] at accepted ⊢
  obtain ⟨⟨own, ticks⟩, through⟩ := accepted
  refine ⟨⟨own, ?_⟩, beyond_throughTouch tightens.through through⟩
  have scaled : NoLooser (tight.realism.maxTicksThroughTouch.map (· * max order.tickSizeScaled 1))
      (loose.realism.maxTicksThroughTouch.map (· * max order.tickSizeScaled 1)) := by
    intro bound member
    obtain ⟨outer, set, rfl⟩ := Option.mem_map.mp member
    obtain ⟨inner, own, fewer⟩ := tightens.ticks outer set
    refine ⟨_, Option.mem_map_of_mem _ own, ?_⟩
    exact mul_le_mul_of_nonneg_right fewer ((by decide : (0 : ℤ) ≤ 1).trans (le_max_right _ _))
  have closer := @beyond_throughTouch order.side (touchOf order) price _ _ scaled
  rw [Option.map_map, Option.map_map] at closer
  exact closer ticks

/-- What fewer levels show comes first. -/
theorem visible_initial (tightens : tight.realism.Tightens loose.realism) :
    tight.visible order <+: loose.visible order := by
  have levels := tightens.levels
  unfold visible visibleLadder
  cases outer : loose.realism.maxLevelsSwept with
  | none =>
    cases tight.realism.maxLevelsSwept with
    | none => exact List.prefix_rfl
    | some own =>
      obtain ⟨rest, split⟩ := List.take_prefix own order.ladder
      dsimp only
      conv_rhs => rw [← split, List.zipIdx_append]
      exact List.prefix_append _ _
  | some bound =>
    obtain ⟨own, set, fewer⟩ := levels bound outer
    rw [Option.mem_def] at set
    rw [set]
    obtain ⟨rest, split⟩ := List.take_prefix_take_left (l := order.ladder) fewer
    dsimp only
    conv_rhs => rw [← split, List.zipIdx_append]
    exact List.prefix_append _ _

/-- The levels that two orders take from, up to the first that one of them does not accept. -/
theorem takeWhile_prefix_takeWhile {α : Type*} {first second : List α} {own other : α → Bool}
    (shorter : first <+: second) (weaker : ∀ item, own item = true → other item = true) :
    first.takeWhile own <+: second.takeWhile other := by
  obtain ⟨rest, rfl⟩ := shorter
  induction first with
  | nil => exact List.nil_prefix
  | cons item later ih =>
    cases accepted : own item with
    | false => simp [accepted]
    | true =>
      rw [List.cons_append, List.takeWhile_cons_of_pos accepted,
        List.takeWhile_cons_of_pos (weaker item accepted)]
      exact List.cons_prefix_cons.mpr ⟨rfl, ih⟩

theorem eligible_initial (tightens : tight.realism.Tightens loose.realism) :
    tight.eligible order <+: loose.eligible order :=
  takeWhile_prefix_takeWhile (visible_initial tightens)
    fun _ accepted => accepts_mono tightens accepted

/-- What is available on the first levels. -/
def availableBelow (executor : TakerExecutor) (order : TakerOrder) (rank : ℕ) : ℤ :=
  (((executor.eligible order).filter fun level => level.2 + 1 < rank).map executor.allowance).sum

theorem availableBelow_mono (tightens : tight.realism.Tightens loose.realism)
    (positive : ∀ level ∈ order.ladder, 0 < level.2) (rank : ℕ) :
    tight.availableBelow order rank ≤ loose.availableBelow order rank := by
  unfold availableBelow
  obtain ⟨rest, split⟩ := (@eligible_initial tight loose order tightens).filter
    fun level => decide (level.2 + 1 < rank)
  have shown : ∀ level ∈ loose.eligible order, 0 ≤ level.1.2 := fun level member =>
    visible_shown positive level ((List.takeWhile_sublist _).subset member)
  have others : 0 ≤ (rest.map loose.allowance).sum := by
    refine List.sum_nonneg fun allowance member => ?_
    obtain ⟨level, inside, rfl⟩ := List.mem_map.mp member
    have listed := split ▸ List.mem_append_right _ inside
    exact allowance_nonneg (shown level (List.mem_of_mem_filter listed))
  calc _ ≤ (((tight.eligible order).filter fun level => level.2 + 1 < rank).map
        loose.allowance).sum := by
        refine List.sum_le_sum fun level member => ?_
        refine allowed_mono tightens (shown level ?_)
        exact List.mem_of_mem_filter (split ▸ List.mem_append_left _ member)
    _ ≤ _ := by
        rw [← split, List.map_append, List.sum_append]
        exact le_add_of_nonneg_right others

/-! ## The fills of an order -/

end TakerExecutor

/-- The sizes of the slices under their ranks. -/
def ExecutionOutcome.rankedSizes (outcome : ExecutionOutcome) : List (ℕ × ℤ) :=
  outcome.slices.map fun slice => (slice.levelRank, slice.sizeScaled)

/-- The shares that an outcome took from the first levels of its ladder. -/
def ExecutionOutcome.sharesWithin (outcome : ExecutionOutcome) (levels : ℕ) : ℤ :=
  sliceShares (outcome.slices.filter fun slice => slice.levelRank ≤ levels)

/-- Price times size over all slices, before any rounding. -/
def ExecutionOutcome.turnover (outcome : ExecutionOutcome) : ℤ :=
  (outcome.slices.map fun slice => slice.priceScaled * slice.sizeScaled).sum

/-- Money to be paid counts as it is, and money to be received counts against it. -/
def Side.paid : Side → ℤ → ℤ
  | .buy, money => money
  | .sell, money => -money

/-- A ladder with its best level first. -/
def TakerOrder.bestFirst (order : TakerOrder) : Prop :=
  order.ladder.Pairwise fun better worse => order.side.beyond (some worse.1) better.1 = false

theorem ExecutionOutcome.sharesWithin_eq (outcome : ExecutionOutcome) (levels : ℕ) :
    outcome.sharesWithin levels = below outcome.rankedSizes (levels + 1) := by
  unfold sharesWithin rankedSizes below sliceShares total
  rw [List.filter_map, List.map_map]
  congr 2
  exact List.filter_congr fun slice _ => by simp

namespace TakerExecutor

variable {executor tight loose : TakerExecutor} {order : TakerOrder}

/-- The guards before the ladder let an order through. -/
structure Opens (executor : TakerExecutor) (order : TakerOrder) : Prop where
  requested : 0 < order.requestedSharesScaled
  minimum : order.minimumOrderSizeScaled ≤ order.requestedSharesScaled
  fresh : (executor.realism.staleBookMaxAgeMs.any fun age => age * 1000000 < order.bookAgeNs) = false

theorem Opens.mono (tightens : tight.realism.Tightens loose.realism) (opens : tight.Opens order) :
    loose.Opens order where
  requested := opens.requested
  minimum := opens.minimum
  fresh := by
    cases outer : loose.realism.staleBookMaxAgeMs with
    | none => rfl
    | some bound =>
      obtain ⟨own, set, younger⟩ := tightens.age bound outer
      have fresh := opens.fresh
      rw [Option.mem_def] at set
      rw [set, Option.any_some, decide_eq_false_iff_not, not_lt] at fresh
      rw [Option.any_some, decide_eq_false_iff_not, not_lt]
      omega

/-- An order that a guard refuses takes nothing. -/
theorem execute_closed (closed : ¬ executor.Opens order) {outcome : ExecutionOutcome}
    (ran : executor.execute order = .ok outcome) : outcome.slices = [] := by
  unfold execute at ran
  split at ran
  · cases ran
    rfl
  next requested =>
  split at ran
  · cases ran
    rfl
  split at ran
  · cases ran
    rfl
  next minimum =>
  split at ran
  · cases ran
    rfl
  next fresh =>
  exact absurd ⟨not_le.mp requested, not_lt.mp minimum, by simpa using fresh⟩ closed

/-- The slices of an order that is let through are its priced takes. -/
theorem execute_slices (opens : executor.Opens order) (positive : ∀ level ∈ order.ladder, 0 < level.2)
    {outcome : ExecutionOutcome} (ran : executor.execute order = .ok outcome) :
    List.Forall₂ (fun slice take => FillSlice.Of slice take ∧ executor.Prices slice) outcome.slices
      (executor.takes order) := by
  obtain ⟨-, returns⟩ :=
    execute_constrained executor order positive opens.requested opens.minimum opens.fresh
  have priced := Except.mapM_returns_iff.mpr (returns.mp ⟨outcome, ran⟩)
  obtain ⟨slices, priced⟩ := priced
  obtain ⟨same, again, own⟩ :=
    execute_takes positive opens.requested opens.minimum opens.fresh priced
  obtain rfl := Except.ok.inj (ran.symm.trans again)
  exact own ▸ priced_takes priced

/-- An order takes of the first levels what it wants or what is available there, whichever is
less. -/
theorem rankedSizes_below (opens : executor.Opens order)
    (positive : ∀ level ∈ order.ladder, 0 < level.2) {outcome : ExecutionOutcome}
    (ran : executor.execute order = .ok outcome) (rank : ℕ) :
    below outcome.rankedSizes rank =
      min (executor.wanted order) (executor.availableBelow order rank) := by
  have taken := execute_slices opens positive ran
  have same : outcome.rankedSizes =
      (executor.takes order).map fun take => (take.1.2 + 1, take.2) := by
    unfold ExecutionOutcome.rankedSizes
    generalize outcome.slices = slices at taken ⊢
    generalize executor.takes order = takes at taken ⊢
    induction taken with
    | nil => rfl
    | cons first _ ih =>
      obtain ⟨⟨-, rank, size⟩, -⟩ := first
      rw [List.map_cons, List.map_cons, ih, rank, size]
  have downward : (executor.eligible order).Pairwise fun earlier later =>
      decide (later.2 + 1 < rank) = true → decide (earlier.2 + 1 < rank) = true := by
    refine eligible_ranked.imp fun {earlier later} before => ?_
    simp only [decide_eq_true_eq]
    omega
  rw [same, below, List.filter_map, total, List.map_map]
  exact total_filter_fill (eligible_shown positive) (unspent opens.requested).budget_nonneg downward

/-- Whatever the guards decide, a tighter realism takes no more of the first levels. -/
theorem below_mono (tightens : tight.realism.Tightens loose.realism)
    (positive : ∀ level ∈ order.ladder, 0 < level.2)
    (traded : ∀ shares ∈ order.realisedVolumeScaled, 0 ≤ shares) {hard easy : ExecutionOutcome}
    (ranTight : tight.execute order = .ok hard) (ranLoose : loose.execute order = .ok easy)
    (rank : ℕ) : below hard.rankedSizes rank ≤ below easy.rankedSizes rank := by
  by_cases opens : tight.Opens order
  · rw [rankedSizes_below opens positive ranTight,
      rankedSizes_below (opens.mono tightens) positive ranLoose]
    exact min_le_min (wanted_mono tightens traded) (availableBelow_mono tightens positive rank)
  · have nothing : hard.rankedSizes = [] := by
      rw [ExecutionOutcome.rankedSizes, execute_closed opens ranTight, List.map_nil]
    have sizes := (execute_spec ranLoose).balanced.priced
    rw [nothing]
    refine List.sum_nonneg fun size member => ?_
    obtain ⟨ranked, inside, rfl⟩ := List.mem_map.mp member
    obtain ⟨slice, listed, rfl⟩ := List.mem_map.mp (List.mem_of_mem_filter inside)
    exact (sizes slice listed).size_pos.le

/-! ## Prices -/

/-- The price of a level by its rank, counted against the order: what a buy pays, and the opposite of
what a sale receives. -/
def costAt (order : TakerOrder) (rank : ℕ) : ℤ :=
  order.side.paid ((order.ladder[rank - 1]?.map Prod.fst).getD 0)

theorem slice_price (positive : ∀ level ∈ order.ladder, 0 < level.2)
    {outcome : ExecutionOutcome} (ran : executor.execute order = .ok outcome) {slice : FillSlice}
    (member : slice ∈ outcome.slices) :
    slice.levelRank ≤ order.ladder.length ∧
      costAt order slice.levelRank = order.side.paid slice.priceScaled := by
  have opens : executor.Opens order := by
    by_contra closed
    rw [execute_closed closed ran] at member
    cases member
  obtain ⟨take, inTakes, ⟨price, rank, -⟩, -⟩ :=
    (execute_slices opens positive ran).right_of_mem member
  have inEligible : take.1 ∈ executor.eligible order := (fill_bounds inTakes).1
  have listed : take.1 ∈ executor.visible order := (List.takeWhile_sublist _).subset inEligible
  have shown : (executor.visibleLadder order.ladder)[take.1.2]? = some take.1.1 :=
    List.mem_zipIdx_iff_getElem?.mp listed
  have inLadder : order.ladder[take.1.2]? = some take.1.1 := by
    unfold visibleLadder at shown
    split at shown
    · exact shown
    · rw [List.getElem?_take] at shown
      split at shown
      · exact shown
      · cases shown
  obtain ⟨inside, -⟩ := List.getElem?_eq_some_iff.mp inLadder
  rw [rank, costAt, Nat.add_sub_cancel, inLadder, price]
  exact ⟨inside, rfl⟩

/-- The turnover weighs the sizes of the slices by the prices of their levels. -/
theorem paid_turnover (positive : ∀ level ∈ order.ladder, 0 < level.2) {outcome : ExecutionOutcome}
    (ran : executor.execute order = .ok outcome) :
    order.side.paid outcome.turnover = weighted (costAt order) outcome.rankedSizes := by
  have priced := fun slice (member : slice ∈ outcome.slices) =>
    (slice_price positive ran member).2
  unfold ExecutionOutcome.turnover weighted ExecutionOutcome.rankedSizes
  rw [List.map_map]
  generalize outcome.slices = slices at priced ⊢
  induction slices with
  | nil => cases order.side <;> rfl
  | cons slice rest ih =>
    obtain ⟨own, others⟩ := List.forall_mem_cons.mp priced
    rw [List.map_cons, List.map_cons, List.sum_cons, List.sum_cons, ← ih others, Function.comp_apply,
      own]
    cases order.side with
    | buy => simp only [Side.paid]
    | sell =>
      simp only [Side.paid]
      ring

theorem costAt_growing (sorted : order.bestFirst) (rank : ℕ)
    (inside : rank + 1 < order.ladder.length + 1) : costAt order rank ≤ costAt order (rank + 1) := by
  cases rank with
  | zero => exact le_rfl
  | succ rank =>
    have better : rank < order.ladder.length := by omega
    have worse : rank + 1 < order.ladder.length := by omega
    have ordered := List.pairwise_iff_getElem.mp sorted rank (rank + 1) better worse (by omega)
    unfold costAt
    rw [Nat.add_sub_cancel, Nat.add_sub_cancel, List.getElem?_eq_getElem better,
      List.getElem?_eq_getElem worse]
    cases side : order.side <;> rw [side] at ordered <;>
      simpa [Side.beyond, Side.paid] using ordered

theorem filled_rankedSizes {outcome : ExecutionOutcome} (ran : executor.execute order = .ok outcome) :
    outcome.filledSharesScaled = total outcome.rankedSizes := by
  rw [(execute_spec ran).balanced.shares, sliceShares, total, ExecutionOutcome.rankedSizes,
    List.map_map]
  rfl

theorem rankedSizes_bounded (positive : ∀ level ∈ order.ladder, 0 < level.2)
    {outcome : ExecutionOutcome} (ran : executor.execute order = .ok outcome) :
    ∀ size ∈ outcome.rankedSizes, size.1 < order.ladder.length + 1 := by
  intro size member
  obtain ⟨slice, listed, rfl⟩ := List.mem_map.mp member
  exact Nat.lt_succ_of_le (slice_price positive ran listed).1

/-- A tighter realism takes no more of the first levels of a ladder, whatever their number, so no
more in all; and where it takes as much from a ladder with its best level first, a buy pays and a
sale receives no better a total. -/
theorem execute_band (tightens : tight.realism.Tightens loose.realism)
    (positive : ∀ level ∈ order.ladder, 0 < level.2)
    (traded : ∀ shares ∈ order.realisedVolumeScaled, 0 ≤ shares) {hard easy : ExecutionOutcome}
    (ranTight : tight.execute order = .ok hard) (ranLoose : loose.execute order = .ok easy) :
    (∀ levels, hard.sharesWithin levels ≤ easy.sharesWithin levels) ∧
      hard.filledSharesScaled ≤ easy.filledSharesScaled ∧
      (order.bestFirst → hard.filledSharesScaled = easy.filledSharesScaled →
        order.side.paid easy.turnover ≤ order.side.paid hard.turnover) := by
  have behind := below_mono tightens positive traded ranTight ranLoose
  refine ⟨fun levels => ?_, ?_, fun sorted same => ?_⟩
  · rw [hard.sharesWithin_eq, easy.sharesWithin_eq]
    exact behind (levels + 1)
  · rw [filled_rankedSizes ranTight, filled_rankedSizes ranLoose, ← below_bound (rankedSizes_bounded positive ranTight),
      ← below_bound (rankedSizes_bounded positive ranLoose)]
    exact behind _
  · rw [paid_turnover positive ranTight, paid_turnover positive ranLoose]
    rw [filled_rankedSizes ranTight, filled_rankedSizes ranLoose] at same
    exact weighted_le (costAt_growing sorted) behind same (rankedSizes_bounded positive ranTight)
      (rankedSizes_bounded positive ranLoose)

/-- The executor of a preset under the default fee. -/
def presetExecutor (name : PresetName) : TakerExecutor where
  realism := (preset name none none).realism
  feeModel := ⟨defaultFee, 1⟩
  draws := ⟨fun _ => 0, fun _ => 0⟩

/-- A buy of twelve shares on a ladder of three levels. -/
def bandOrder : TakerOrder where
  side := .buy
  ladder := [(500000, 10000000), (505000, 8000000), (540000, 20000000)]
  requestedSharesScaled := 12000000
  limitPriceScaled := some 530000
  referencePriceScaled := none
  realisedVolumeScaled := none
  decisionUtcNs := 0
  arrivalUtcNs := 0
  bookAgeNs := 0
  minimumOrderSizeScaled := 5000000
  tickSizeScaled := 10000

theorem execute_band_presets :
    ∃ hard easy, (presetExecutor .pessimistic).execute bandOrder = .ok hard ∧
      (presetExecutor .base).execute bandOrder = .ok easy ∧
      (∀ levels, hard.sharesWithin levels ≤ easy.sharesWithin levels) ∧
      hard.filledSharesScaled = 4500000 ∧ easy.filledSharesScaled = 9000000 := by
  have tightens := (preset_tightens (fun _ => none) none).1
  have filled : ((presetExecutor .pessimistic).execute bandOrder).toOption.map
      ExecutionOutcome.filledSharesScaled = some 4500000 ∧
    ((presetExecutor .base).execute bandOrder).toOption.map
      ExecutionOutcome.filledSharesScaled = some 9000000 := by decide +kernel
  cases ranTight : (presetExecutor .pessimistic).execute bandOrder with
  | error e => simp [ranTight, Except.toOption] at filled
  | ok hard =>
    cases ranLoose : (presetExecutor .base).execute bandOrder with
    | error e => simp [ranLoose, Except.toOption] at filled
    | ok easy =>
      obtain ⟨within, -, -⟩ := execute_band tightens (by decide) (by decide) ranTight ranLoose
      rw [ranTight, ranLoose] at filled
      exact ⟨hard, easy, rfl, rfl, within, by simpa [Except.toOption] using filled.1,
        by simpa [Except.toOption] using filled.2⟩

end TakerExecutor

end PolymarketBt
