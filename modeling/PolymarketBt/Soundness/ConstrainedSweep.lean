import Mathlib.Data.List.TakeWhile
import PolymarketBt.Proofs.LadderSweep

/-! # The constrained sweep in closed form

An order takes greedily from the levels it may visit and accept, best level first: the request, the
volume cap or all their allowances, whichever is least. The limit it accepts is the tightest of its
own price and the two distances through the touch.
-/

namespace PolymarketBt

open Machine GreedyFill

/-- A price this far through the touch. -/
def Side.throughTouch (side : Side) (touch slack : ℤ) : ℤ :=
  match side with
  | .buy => touch + slack
  | .sell => touch - slack

namespace TakerExecutor

variable (executor : TakerExecutor) (order : TakerOrder)

/-- A price that the order accepts: no worse than its own limit, nor further through the touch than
the realism allows in ticks or in price. -/
def accepts (price : ℤ) : Bool :=
  !(order.side.beyond order.limitPriceScaled price ||
    order.side.beyond (executor.realism.maxTicksThroughTouch.map fun ticks =>
      order.side.throughTouch (touchOf order) (ticks * max order.tickSizeScaled 1)) price ||
    order.side.beyond (executor.realism.maxPriceThroughTouchScaled.map fun slack =>
      order.side.throughTouch (touchOf order) slack) price)

/-- The levels an order takes from: the visible ones before the first it does not accept. -/
def eligible : List RankedLevel :=
  (executor.visible order).takeWhile fun level => executor.accepts order level.1.1

/-- All that the eligible levels allow. -/
def available : ℤ := ((executor.eligible order).map executor.allowance).sum

/-- The request or the volume cap, whichever is less; a negative cap counts as none left. -/
def wanted : ℤ := budget order.requestedSharesScaled ((executor.capOf order).map (max 0))

/-- What the order takes from which level. -/
def takes : List (RankedLevel × ℤ) :=
  fill executor.allowance (executor.wanted order) (executor.eligible order)

variable {executor order}

/-- The effective limit excludes what any of the three bounds excludes. -/
theorem within_limitOf (level : RankedLevel) :
    within order.side (executor.limitOf order).1 level = executor.accepts order level.1.1 := by
  unfold within accepts limitOf effectiveLimit Side.throughTouch
  cases order.side <;> cases executor.realism.maxTicksThroughTouch <;>
    cases executor.realism.maxPriceThroughTouchScaled <;> cases order.limitPriceScaled <;>
  · rw [Bool.eq_iff_iff]
    simp only [Side.beyond, Option.map_none, Option.map_some, Bool.not_eq_true', Bool.or_eq_false_iff,
      decide_eq_false_iff_not, eq_self, true_and, and_true] <;> omega

theorem eligible_eq :
    (executor.visible order).takeWhile (within order.side (executor.limitOf order).1) =
      executor.eligible order := by
  unfold eligible
  congr 1
  exact funext within_limitOf

/-- The levels of a ladder of positive sizes show something. -/
theorem visible_shown (positive : ∀ level ∈ order.ladder, 0 < level.2) :
    ∀ level ∈ executor.visible order, 0 ≤ level.1.2 := by
  intro level member
  have inLadder : level.1 ∈ order.ladder := by
    have inVisible : level.1 ∈ executor.visibleLadder order.ladder := List.fst_mem_of_mem_zipIdx member
    unfold visibleLadder at inVisible
    split at inVisible
    · exact inVisible
    · exact List.mem_of_mem_take inVisible
  exact (positive _ inLadder).le

theorem unspent (requested : 0 < order.requestedSharesScaled) :
    Unspent order.requestedSharesScaled ((executor.capOf order).map (max 0)) := by
  refine ⟨requested, fun room member => ?_⟩
  obtain ⟨cap, _, rfl⟩ := Option.mem_map.mp member
  exact le_max_left _ _

/-- The walk of an admitted order takes greedily from its eligible levels. -/
theorem walkOf_taken (admitted : executor.Admits order)
    (positive : ∀ level ∈ order.ladder, 0 < level.2) :
    (executor.walkOf order).taken = executor.takes order := by
  unfold walkOf
  rw [← walk_max, walk_taken (visible_shown positive) (unspent admitted.requested), eligible_eq]
  rfl

theorem eligible_shown (positive : ∀ level ∈ order.ladder, 0 < level.2) :
    ∀ level ∈ executor.eligible order, 0 ≤ executor.allowance level :=
  allowances_nonneg (visible_shown positive)

/-- An order takes what it wants or what is available, whichever is less. -/
theorem total_takes (admitted : executor.Admits order)
    (positive : ∀ level ∈ order.ladder, 0 < level.2) :
    total (executor.takes order) = min (executor.wanted order) (executor.available order) :=
  total_fill (eligible_shown positive) (unspent admitted.requested).budget_nonneg

end TakerExecutor

/-! ## The slices of the takes -/

/-- A slice of what is taken from a level. -/
def FillSlice.Of (slice : FillSlice) (take : RankedLevel × ℤ) : Prop :=
  slice.priceScaled = take.1.1.1 ∧ slice.levelRank = take.1.2 + 1 ∧ slice.sizeScaled = take.2

namespace TakerExecutor

variable {executor : TakerExecutor} {order : TakerOrder}

theorem priced_eq_ok {take : RankedLevel × ℤ} {slice : FillSlice} (positive : 0 < take.2)
    (priced : executor.priced take = .ok slice) : slice.Of take ∧ executor.Prices slice := by
  unfold TakerExecutor.priced at priced
  obtain ⟨fee, feeRan, priced⟩ := Except.bind_eq_ok.mp priced
  obtain ⟨notional, notionalRan, priced⟩ := Except.bind_eq_ok.mp priced
  obtain rfl := Except.pure_eq_ok.mp priced
  exact ⟨⟨rfl, rfl, rfl⟩, ⟨positive, notionalRan, feeRan⟩⟩

/-- An order computes the constrained sweep of its ladder. -/
structure Constrained (executor : TakerExecutor) (order : TakerOrder) (outcome : ExecutionOutcome) :
    Prop where
  filled : outcome.filledSharesScaled = min (executor.wanted order) (executor.available order)
  /-- At most one slice a level, in the order of the ladder and no larger than its allowance. -/
  placed : ∃ drawn : List RankedLevel, drawn.Sublist (executor.eligible order) ∧
    List.Forall₂ (fun slice level => slice.priceScaled = level.1.1 ∧ slice.levelRank = level.2 + 1 ∧
      0 < slice.sizeScaled ∧ slice.sizeScaled ≤ executor.allowance level) outcome.slices drawn
  inside : ∀ slice ∈ outcome.slices, executor.accepts order slice.priceScaled = true
  saturated : ∀ slice ∈ outcome.slices, ∀ better ∈ executor.eligible order,
    better.2 + 1 < slice.levelRank → executor.allowance better = 0 ∨
      ∃ earlier ∈ outcome.slices, earlier.levelRank = better.2 + 1 ∧
        earlier.sizeScaled = executor.allowance better
  balanced : outcome.Balanced executor
  rejected : outcome.rejectedReason.isSome ↔ outcome.filledSharesScaled = 0

/-! ## The execution -/

/-- The levels are ranked from the best. -/
theorem eligible_ranked :
    (executor.eligible order).Pairwise fun better worse => better.2 < worse.2 :=
  (zipIdx_ranked _).sublist (List.takeWhile_sublist _)

/-- The slices of the takes, in their order. -/
theorem priced_takes {slices : List FillSlice}
    (ran : (executor.takes order).mapM executor.priced = .ok slices) :
    List.Forall₂ (fun slice take => FillSlice.Of slice take ∧ executor.Prices slice) slices
      (executor.takes order) := by
  have each := Except.mapM_eq_ok.mp ran
  refine List.Forall₂.flip (List.forall₂_iff_zip.mpr ⟨each.length_eq, fun {take slice} member => ?_⟩)
  have taken := fill_bounds (List.of_mem_zip member).1
  exact priced_eq_ok taken.2.1 (List.forall₂_zip each member)

theorem sliceShares_takes {takes : List (RankedLevel × ℤ)} {slices : List FillSlice}
    (taken : List.Forall₂ (fun slice take => FillSlice.Of slice take ∧ executor.Prices slice)
      slices takes) : sliceShares slices = total takes := by
  induction taken with
  | nil => rfl
  | cons first _ ih => rw [sliceShares_cons, total_cons, ih, first.1.2.2]

/-- What the report of a priced sweep says. -/
theorem report_slices (executor : TakerExecutor) (order : TakerOrder) (sweep : Sweep)
    (prices : ∀ slice ∈ sweep.slices, executor.Prices slice) :
    (executor.report order sweep).slices = sweep.slices ∧
      (executor.report order sweep).Balanced executor ∧
      ((executor.report order sweep).rejectedReason.isSome ↔
        (executor.report order sweep).filledSharesScaled = 0) := by
  have nonneg := sliceShares_pos fun slice member => (prices slice member).size_pos
  unfold report
  dsimp only
  split
  · next nothing =>
    exact ⟨(nonneg.2 nothing).symm, .rejected .., by simp [refuse, ExecutionOutcome.rejected]⟩
  · next some => exact ⟨rfl, ⟨rfl, rfl, rfl, prices⟩, by simpa using some⟩

/-- The report of the priced takes is the constrained sweep. -/
theorem constrained_report (admitted : executor.Admits order)
    (positive : ∀ level ∈ order.ladder, 0 < level.2) {slices : List FillSlice}
    (ran : (executor.takes order).mapM executor.priced = .ok slices) :
    executor.Constrained order (executor.report order (executor.sweepOf order slices)) := by
  have taken := priced_takes ran
  have prices : ∀ slice ∈ slices, executor.Prices slice := by
    intro slice member
    obtain ⟨take, _, _, prices⟩ := taken.right_of_mem member
    exact prices
  have shown : ∀ level ∈ executor.eligible order, 0 ≤ executor.allowance level :=
    eligible_shown positive
  obtain ⟨same, balanced, rejected⟩ :=
    report_slices executor order (executor.sweepOf order slices) prices
  change (executor.report order (executor.sweepOf order slices)).slices = slices at same
  refine ⟨?_, ?_, ?_, ?_, balanced, rejected⟩
  · rw [balanced.shares, same, sliceShares_takes taken, total_takes admitted positive]
  · refine ⟨(executor.takes order).map Prod.fst, fill_sublist, ?_⟩
    rw [same, List.forall₂_map_right_iff, List.forall₂_iff_zip]
    refine ⟨taken.length_eq, fun {slice take} member => ?_⟩
    obtain ⟨⟨price, rank, size⟩, prices⟩ := List.forall₂_zip taken member
    obtain ⟨-, some, bound⟩ := fill_bounds (List.of_mem_zip member).2
    exact ⟨price, rank, size ▸ some, size ▸ bound⟩
  · rw [same]
    intro slice member
    obtain ⟨take, inTakes, ⟨price, -, -⟩, -⟩ := taken.right_of_mem member
    rw [price]
    have inEligible : take.1 ∈ executor.eligible order := (fill_bounds inTakes).1
    exact List.mem_takeWhile_imp (p := fun level : RankedLevel => executor.accepts order level.1.1)
      inEligible
  · rw [same]
    intro slice member better inEligible before
    obtain ⟨take, inTakes, ⟨-, rank, -⟩, -⟩ := taken.right_of_mem member
    have takeIn : take.1 ∈ executor.eligible order := (fill_bounds inTakes).1
    obtain ⟨first, second, split⟩ := List.append_of_mem takeIn
    have ranked : (executor.eligible order).Pairwise fun better worse => better.2 < worse.2 :=
      eligible_ranked
    obtain ⟨-, others, across⟩ := List.pairwise_append.mp (split ▸ ranked)
    have fresh : take.1 ∉ first := fun again => lt_irrefl _ (across _ again _ List.mem_cons_self)
    have earlier : better ∈ first := by
      rw [split, List.mem_append, List.mem_cons] at inEligible
      rcases inEligible with first | rfl | later
      · exact first
      · omega
      · have := (List.pairwise_cons.mp others).1 better later
        omega
    refine (whole_before shown (unspent admitted.requested).budget_nonneg inTakes split fresh earlier).imp id
      fun whole => ?_
    obtain ⟨own, inSlices, ⟨-, ownRank, ownSize⟩, -⟩ := taken.left_of_mem whole
    exact ⟨own, inSlices, ownRank, ownSize⟩

/-- Nothing is eligible on an empty side. -/
theorem eligible_of_empty (empty : order.ladder = []) : executor.eligible order = [] := by
  unfold eligible visible visibleLadder
  rw [empty]
  split <;> simp

theorem constrained_empty (requested : 0 < order.requestedSharesScaled)
    (empty : order.ladder = []) : executor.Constrained order (refuse order .emptyBookSide) where
  filled := by
    have wanted : 0 ≤ executor.wanted order := (unspent requested).budget_nonneg
    simp [available, eligible_of_empty empty, refuse, ExecutionOutcome.rejected, wanted]
  placed := ⟨[], List.nil_sublist _, List.Forall₂.nil⟩
  inside := by simp [refuse, ExecutionOutcome.rejected]
  saturated := by simp [refuse, ExecutionOutcome.rejected]
  balanced := .rejected ..
  rejected := by simp [refuse, ExecutionOutcome.rejected]

/-- The executor computes the constrained sweep of every order that it does not refuse beforehand,
and raises only where a fee or a notional of what it takes does not exist. -/
theorem execute_constrained (executor : TakerExecutor) (order : TakerOrder)
    (positive : ∀ level ∈ order.ladder, 0 < level.2) (requested : 0 < order.requestedSharesScaled)
    (minimum : order.minimumOrderSizeScaled ≤ order.requestedSharesScaled)
    (fresh : (executor.realism.staleBookMaxAgeMs.any fun age =>
      age * 1000000 < order.bookAgeNs) = false) :
    (∀ outcome, executor.execute order = .ok outcome → executor.Constrained order outcome) ∧
      ((executor.execute order).Returns ↔
        ∀ take ∈ executor.takes order, (executor.priced take).Returns) := by
  by_cases ladder : order.ladder = []
  · have refused : executor.execute order = .ok (refuse order .emptyBookSide) := by
      simp only [execute, not_le.mpr requested, if_false, ladder]
    rw [refused]
    refine ⟨fun outcome ran => ?_, ?_⟩
    · cases ran
      exact constrained_empty requested ladder
    · simp [takes, eligible_of_empty ladder, fill]
  have admitted : executor.Admits order := ⟨requested, ladder, minimum, fresh⟩
  rw [execute_admitted admitted, walkOf_taken admitted positive, Except.map_returns,
    Except.mapM_returns_iff]
  refine ⟨fun outcome ran => ?_, Iff.rfl⟩
  obtain ⟨slices, priced, rfl⟩ := Except.map_eq_ok.mp ran
  exact constrained_report admitted positive priced

/-- The slices of an order that is not refused beforehand are its priced takes. -/
theorem execute_takes (positive : ∀ level ∈ order.ladder, 0 < level.2)
    (requested : 0 < order.requestedSharesScaled)
    (minimum : order.minimumOrderSizeScaled ≤ order.requestedSharesScaled)
    (fresh : (executor.realism.staleBookMaxAgeMs.any fun age =>
      age * 1000000 < order.bookAgeNs) = false) {slices : List FillSlice}
    (priced : (executor.takes order).mapM executor.priced = .ok slices) :
    ∃ outcome, executor.execute order = .ok outcome ∧ outcome.slices = slices := by
  by_cases ladder : order.ladder = []
  · have nothing : slices = [] := by
      rw [takes, eligible_of_empty ladder] at priced
      cases priced
      rfl
    refine ⟨refuse order .emptyBookSide, ?_, nothing.symm⟩
    simp only [execute, not_le.mpr requested, if_false, ladder]
  · have admitted : executor.Admits order := ⟨requested, ladder, minimum, fresh⟩
    refine ⟨_, by rw [execute_admitted admitted, walkOf_taken admitted positive, priced]; rfl, ?_⟩
    refine (report_slices _ _ _ fun slice member => ?_).1
    obtain ⟨_, _, _, prices⟩ := (priced_takes priced).right_of_mem member
    exact prices

/-- A realism with every cap but the volume cap: half of a level, two ticks, three levels. -/
def cappedExecutor : TakerExecutor where
  realism := {
    latency := .disabled
    displayedDepthHaircutPpm := 100000
    maxLevelParticipationPpm := 500000
    maxLevelsSwept := some 3
    volumeParticipationPpm := some 500000
    staleBookMaxAgeMs := some 1000
    requireValidBook := true
    maxTicksThroughTouch := some 2
    maxPriceThroughTouchScaled := none
    fee := ⟨.taker, .sharesRatePOneMinusP, 7 / 100, 1, 1 / 100, .halfUp⟩
    through_nonneg := unset_nonneg }
  feeModel := ⟨⟨.taker, .sharesRatePOneMinusP, 7 / 100, 1, 1 / 100, .halfUp⟩, 10000⟩
  draws := ⟨fun _ => 0, fun _ => 0⟩

def cappedOrder : TakerOrder where
  side := .buy
  ladder := [(500000, 10000000), (510000, 8000000), (540000, 20000000)]
  requestedSharesScaled := 12000000
  limitPriceScaled := some 530000
  referencePriceScaled := none
  realisedVolumeScaled := some 30000000
  decisionUtcNs := 0
  arrivalUtcNs := 0
  bookAgeNs := 0
  minimumOrderSizeScaled := 5000000
  tickSizeScaled := 10000

theorem execute_constrained_capped :
    ∃ outcome, cappedExecutor.execute cappedOrder = .ok outcome ∧
      cappedExecutor.Constrained cappedOrder outcome ∧ outcome.filledSharesScaled = 9000000 := by
  obtain ⟨constrained, -⟩ := execute_constrained cappedExecutor cappedOrder (by decide)
    (by decide) (by decide) (by decide)
  have filled : (cappedExecutor.execute cappedOrder).toOption.map
      ExecutionOutcome.filledSharesScaled = some 9000000 := by decide +kernel
  cases ran : cappedExecutor.execute cappedOrder with
  | error e => simp [ran, Except.toOption] at filled
  | ok outcome =>
    rw [ran] at filled
    exact ⟨outcome, rfl, constrained outcome ran, by simpa [Except.toOption] using filled⟩

end TakerExecutor

end PolymarketBt
