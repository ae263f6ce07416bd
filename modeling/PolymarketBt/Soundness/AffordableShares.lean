import PolymarketBt.Proofs.ExecutionReturns
import PolymarketBt.Soundness.ConstrainedSweep

/-! # Maximality of the affordable quantity

The cost of a quantity is its rounded notional and a fee that is rounded on its own. Both grow with
the quantity and both exist for every quantity below one they exist for, so the quantities that fit a
spend are an initial segment and halving finds the last one within its bound. Without a bound the
search ends one past the quotient of the spend by the price, which is short where the fee is zero and
the notional of the next quantity rounds down to the spend.
-/

namespace PolymarketBt

/-- A price strictly between nothing and one unit. -/
def InnerPrice (price : ℤ) : Prop := 0 < price ∧ price < polymarketPriceScale

/-! ## The cost of smaller quantities -/

namespace FeeModel

variable {model : FeeModel}

/-- The fee curve exists at every inner price, whatever its exponent. -/
theorem curve_inner (exponent : ℤ) {price : ℤ} (inner : InnerPrice price) :
    ∃ curve, Decimal.pow (Decimal.mul (Decimal.div price polymarketPriceScale)
        (Decimal.sub 1 (Decimal.div price polymarketPriceScale))) exponent = some curve ∧
      0 ≤ curve := by
  obtain ⟨positive, below⟩ := inner
  have probable : Decimal.div price polymarketPriceScale = (price : ℚ) * (10 : ℚ) ^ (-6 : ℤ) := by
    have whole : (price : ℚ) / (polymarketPriceScale : ℚ) = (price : ℚ) * (10 : ℚ) ^ (-6 : ℤ) := by
      norm_num [polymarketPriceScale, div_eq_mul_inv]
    rw [Decimal.div, whole]
    refine Decimal.fix_exact positive.le (below.le.trans ?_)
    norm_num [polymarketPriceScale, Decimal.precision]
  have price' : (0 : ℚ) < price ∧ (price : ℚ) < 10 ^ 6 := by
    refine ⟨by exact_mod_cast positive, ?_⟩
    have := below
    simp only [polymarketPriceScale] at this
    exact_mod_cast this
  have probability : 0 < Decimal.div price polymarketPriceScale ∧
      Decimal.div price polymarketPriceScale < 1 := by
    rw [probable]
    norm_num
    constructor <;> linarith
  have complement : 0 < Decimal.sub 1 (Decimal.div price polymarketPriceScale) :=
    Decimal.fix_pos (by linarith)
  have product := Decimal.fix_pos (mul_pos probability.1 complement)
  refine ⟨_, if_neg fun zero => product.ne' zero.1, Decimal.fix_nonneg ?_⟩
  exact zpow_nonneg (Decimal.fix_nonneg (mul_pos probability.1 complement).le) _

end FeeModel

/-! ## Halving -/

namespace TakerExecutor

variable {executor : TakerExecutor} {spend price : ℤ}

/-- The quantity has a cost, and it fits the spend. -/
def Fits (executor : TakerExecutor) (spend price shares : ℤ) : Prop :=
  ∃ cost, executor.costOf price shares = .ok cost ∧ cost ≤ spend

def fitsCheck (executor : TakerExecutor) (spend price shares : ℤ) : Bool :=
  match executor.costOf price shares with
  | .ok cost => cost ≤ spend
  | .error _ => false

/-- The quantities that halving `[low, high]` looks at. -/
def halvings (fits : ℤ → Bool) : ℕ → ℤ → ℤ → List ℤ
  | 0, _, _ => []
  | fuel + 1, low, high =>
    if low < high then
      let middle := (low + high + 1) / 2
      middle :: if fits middle then halvings fits fuel middle high
        else halvings fits fuel low (middle - 1)
    else []

theorem Fits.of_le {first second : ℤ} (rate : 0 ≤ executor.feeModel.config.rate)
    (inner : InnerPrice price) (nonneg : 0 ≤ first) (le : first ≤ second)
    (fits : executor.Fits spend price second) : executor.Fits spend price first := by
  obtain ⟨cost, costRan, within⟩ := fits
  obtain ⟨notional, fee, notionalRan, feeRan, rfl⟩ := costOf_eq_ok.mp costRan
  obtain ⟨notional', ran, less⟩ := notionalScaled_of_le nonneg le inner.1.le notionalRan
  obtain ⟨curve, powered, curve_nonneg⟩ := FeeModel.curve_inner executor.feeModel.config.exponent inner
  obtain ⟨fee', ran', less'⟩ :=
    FeeModel.calculate_of_le rate curve_nonneg nonneg le powered feeRan
  exact ⟨notional' + fee', costOf_eq_ok.mpr ⟨notional', fee', ran, ran', rfl⟩, by omega⟩

/-- Nothing costs nothing. -/
theorem costOf_zero (inner : InnerPrice price) : executor.costOf price 0 = .ok 0 := by
  refine costOf_eq_ok.mpr ⟨0, 0, ?_, ?_, rfl⟩
  · refine notionalScaled_eq_ok.mpr ?_
    norm_num [Decimal.quantize, Decimal.precision]
  · unfold FeeModel.calculate
    split
    · rfl
    obtain ⟨curve, powered, _⟩ := FeeModel.curve_inner executor.feeModel.config.exponent inner
    have raw : executor.feeModel.rawScaled 0 price = some 0 := by
      rw [FeeModel.rawScaled]
      simp only [powered]
      simp
    rw [raw]
    norm_num [Decimal.quantize, Decimal.precision]

theorem fits_zero_iff (inner : InnerPrice price) : executor.Fits spend price 0 ↔ 0 ≤ spend := by
  unfold Fits
  rw [costOf_zero inner]
  exact ⟨fun ⟨_, same, le⟩ => Except.ok.inj same ▸ le, fun le => ⟨0, rfl, le⟩⟩

/-- Halving stops where the next quantity does not fit or the bound is reached. -/
theorem affordableSearch_last {fuel : ℕ} {low high size : ℤ} (ordered : low ≤ high)
    (enough : high - low < 2 ^ fuel)
    (ran : executor.affordableSearch spend price fuel low high = .ok size) :
    low ≤ size ∧ size ≤ high ∧ (size = low ∨ executor.Fits spend price size) ∧
      (size = high ∨ ¬executor.Fits spend price (size + 1)) := by
  induction fuel generalizing low high with
  | zero =>
    cases ran
    rw [pow_zero] at enough
    exact ⟨le_rfl, ordered, .inl rfl, .inl (by omega)⟩
  | succ fuel ih =>
    rw [pow_succ] at enough
    unfold affordableSearch at ran
    split at ran
    · obtain ⟨cost, costRan, ran⟩ := Except.bind_eq_ok.mp ran
      split at ran
      · next within =>
        obtain ⟨lower, upper, fits, last⟩ := ih (by omega) (by omega) ran
        refine ⟨by omega, upper, .inr ?_, last⟩
        rcases fits with rfl | fits
        · exact ⟨cost, costRan, within⟩
        · exact fits
      · next beyond =>
        obtain ⟨lower, upper, fits, last⟩ := ih (by omega) (by omega) ran
        refine ⟨lower, by omega, fits, .inr ?_⟩
        rcases last with rfl | last
        · rintro ⟨other, otherRan, within⟩
          rw [sub_add_cancel, costRan] at otherRan
          exact beyond (Except.ok.inj otherRan ▸ within)
        · exact last
    · next narrow =>
      cases ran
      exact ⟨le_rfl, ordered, .inl rfl, .inl (by omega)⟩

/-- Halving returns exactly when every quantity it looks at has a cost. -/
theorem affordableSearch_returns_iff {fuel : ℕ} {low high : ℤ} :
    (∃ size, executor.affordableSearch spend price fuel low high = .ok size) ↔
      ∀ shares ∈ halvings (executor.fitsCheck spend price) fuel low high,
        ∃ cost, executor.costOf price shares = .ok cost := by
  induction fuel generalizing low high with
  | zero => exact iff_of_true ⟨low, rfl⟩ (by simp [halvings])
  | succ fuel ih =>
    unfold affordableSearch halvings
    split
    · dsimp only
      rw [List.forall_mem_cons]
      cases priced : executor.costOf price ((low + high + 1) / 2) with
      | error failure =>
        refine iff_of_false ?_ ?_
        · rintro ⟨size, impossible⟩
          cases impossible
        · rintro ⟨⟨cost, impossible⟩, _⟩
          cases impossible
      | ok cost =>
        have check : executor.fitsCheck spend price ((low + high + 1) / 2) = decide (cost ≤ spend) := by
          unfold fitsCheck
          simp only [priced]
        rw [Except.ok_bind, check, and_iff_right ⟨cost, rfl⟩]
        by_cases within : cost ≤ spend
        · simpa [within] using ih
        · simpa [within] using ih
    · exact iff_of_true ⟨low, rfl⟩ (by simp)

/-- Halving stays within its ends. -/
theorem halvings_within {fits : ℤ → Bool} {fuel : ℕ} {low high shares : ℤ}
    (looked : shares ∈ halvings fits fuel low high) : low < shares ∧ shares ≤ high := by
  induction fuel generalizing low high with
  | zero => cases looked
  | succ fuel ih =>
    unfold halvings at looked
    split at looked
    · rcases List.mem_cons.mp looked with rfl | later
      · omega
      · split at later
        · have := ih later
          omega
        · have := ih later
          omega
    · cases looked

/-! ## The last affordable quantity -/

/-- The end of the search: the given bound, or one past the quotient of the spend by the price. -/
def searchBound (spend price : ℤ) (upper : Option ℤ) : ℤ :=
  upper.getD (spend * polymarketPriceScale / price + 1)

/-- The quantity fits the spend, and no larger one within the bound does. -/
def MaximalWithin (executor : TakerExecutor) (spend price : ℤ) (upper : Option ℤ) (size : ℤ) : Prop :=
  executor.Fits spend price size ∧
    ∀ larger, size < larger → (∀ bound ∈ upper, larger ≤ bound) → ¬executor.Fits spend price larger

/-- The spend is no debt, the quantities that halving looks at have costs, and the quantity after the
last one that is looked at exceeds the given bound or the spend. -/
structure Invertible (executor : TakerExecutor) (spend price : ℤ) (upper : Option ℤ) : Prop where
  spend_nonneg : 0 ≤ spend
  priced : 0 < spend → ∀ shares ∈ halvings (executor.fitsCheck spend price)
    (Nat.size (searchBound spend price upper).toNat) 0 (searchBound spend price upper),
      ∃ cost, executor.costOf price shares = .ok cost
  next : ∀ next, next = (if 0 < spend then searchBound spend price upper else 0) + 1 →
    (∀ bound ∈ upper, next ≤ bound) → ¬executor.Fits spend price next

/-- A price for the quantity after the end of the search is enough where it exceeds the spend. -/
theorem Invertible.of_cost {upper : Option ℤ} {cost : ℤ} (rate : 0 ≤ executor.feeModel.config.rate)
    (inner : InnerPrice price) (positive : 0 < spend)
    (ran : executor.costOf price (searchBound spend price upper + 1) = .ok cost)
    (beyond : spend < cost) : Invertible executor spend price upper := by
  refine ⟨positive.le, fun _ shares looked => ?_, ?_⟩
  · obtain ⟨above, below⟩ := halvings_within looked
    have fits : executor.Fits cost price (searchBound spend price upper + 1) := ⟨cost, ran, le_rfl⟩
    obtain ⟨smaller, priced, -⟩ := fits.of_le rate inner above.le (by omega : shares ≤ _)
    exact ⟨smaller, priced⟩
  · rintro _ rfl _ ⟨other, otherRan, within⟩
    rw [if_pos positive, ran] at otherRan
    obtain rfl := Except.ok.inj otherRan
    omega

/-- A quantity is maximal if the next one is, as far as the bound lets it be asked. -/
theorem maximalWithin_of_next {size : ℤ} {upper : Option ℤ} (rate : 0 ≤ executor.feeModel.config.rate)
    (inner : InnerPrice price) (nonneg : 0 ≤ size) (fits : executor.Fits spend price size)
    (next : (∀ bound ∈ upper, size + 1 ≤ bound) → ¬executor.Fits spend price (size + 1)) :
    MaximalWithin executor spend price upper size := by
  refine ⟨fits, fun larger above within larger_fits => ?_⟩
  have smaller := larger_fits.of_le rate inner (by omega : 0 ≤ size + 1) (by omega)
  exact next (fun bound given => by have := within bound given; omega) smaller

theorem lt_two_pow_size (bound : ℤ) : bound < 2 ^ Nat.size bound.toNat := by
  have enough := Nat.lt_size_self bound.toNat
  have cast : ((bound.toNat : ℕ) : ℤ) < ((2 ^ Nat.size bound.toNat : ℕ) : ℤ) := by
    exact_mod_cast enough
  push_cast at cast
  exact lt_of_le_of_lt (Int.self_le_toNat bound) cast

/-- Without a spend nothing is bought, which is maximal as long as a single unit is not free. -/
theorem maximal_of_no_spend {upper : Option ℤ} (rate : 0 ≤ executor.feeModel.config.rate)
    (inner : InnerPrice price) (broke : spend ≤ 0) :
    MaximalWithin executor spend price upper 0 ↔ Invertible executor spend price upper := by
  have spendless : ¬0 < spend := not_lt.mpr broke
  constructor
  · rintro ⟨fits, last⟩
    refine ⟨(fits_zero_iff inner).mp fits, fun some => absurd some spendless, ?_⟩
    rintro _ rfl
    rw [if_neg spendless]
    exact last _ (by norm_num)
  · intro invertible
    have next := invertible.next 1 (by rw [if_neg spendless]; rfl)
    exact maximalWithin_of_next rate inner le_rfl ((fits_zero_iff inner).mpr invertible.spend_nonneg)
      next

/-- A search without a negative bound. -/
theorem maximal_of_search {upper : Option ℤ} (rate : 0 ≤ executor.feeModel.config.rate)
    (inner : InnerPrice price) (positive : 0 < spend) (room : 0 ≤ searchBound spend price upper) :
    (∃ size, executor.affordableSearch spend price (Nat.size (searchBound spend price upper).toNat) 0
        (searchBound spend price upper) = .ok size ∧ MaximalWithin executor spend price upper size) ↔
      Invertible executor spend price upper := by
  have enough : searchBound spend price upper - 0 <
      2 ^ Nat.size (searchBound spend price upper).toNat := by
    rw [sub_zero]
    exact lt_two_pow_size _
  constructor
  · rintro ⟨size, ran, -, maximal⟩
    obtain ⟨-, upper_le, -, -⟩ := affordableSearch_last room enough ran
    refine ⟨positive.le, fun _ => affordableSearch_returns_iff.mp ⟨size, ran⟩, ?_⟩
    rintro _ rfl
    rw [if_pos positive]
    exact maximal _ (by omega)
  · intro invertible
    obtain ⟨size, ran⟩ := affordableSearch_returns_iff.mpr (invertible.priced positive)
    obtain ⟨nonneg, _, fits, last⟩ := affordableSearch_last room enough ran
    refine ⟨size, ran, maximalWithin_of_next rate inner nonneg ?_ fun within => ?_⟩
    · rcases fits with rfl | fits
      · exact (fits_zero_iff inner).mpr positive.le
      · exact fits
    · rcases last with same | last
      · exact invertible.next _ (by rw [if_pos positive, same]) within
      · exact last

/-- A negative bound leaves nothing to search and nothing to exceed. -/
theorem maximal_of_negative {bound : ℤ} (inner : InnerPrice price) (positive : 0 < spend)
    (negative : bound < 0) :
    executor.affordableSearch spend price (Nat.size bound.toNat) 0 bound = .ok 0 ∧
      MaximalWithin executor spend price (some bound) 0 ∧
      Invertible executor spend price (some bound) := by
  have fuel : Nat.size bound.toNat = 0 := by
    rw [Int.toNat_of_nonpos negative.le, Nat.size_zero]
  refine ⟨by rw [fuel]; rfl, ⟨(fits_zero_iff inner).mpr positive.le, ?_⟩, positive.le, ?_, ?_⟩
  · intro larger above within
    have := within bound rfl
    omega
  · intro _ shares looked
    rw [searchBound, Option.getD_some, fuel] at looked
    cases looked
  · rintro _ rfl within
    have := within bound rfl
    rw [if_pos positive, searchBound, Option.getD_some] at this
    omega

/-- The quantity that is returned is the largest affordable one exactly when the search can price what
it looks at and nothing beyond its end is affordable. -/
theorem maxAffordableShares_maximal_iff (executor : TakerExecutor) (spend price : ℤ)
    (upper : Option ℤ) (rate : 0 ≤ executor.feeModel.config.rate) (inner : InnerPrice price) :
    (∃ size, executor.maxAffordableShares spend price upper = .ok size ∧
      MaximalWithin executor spend price upper size) ↔ Invertible executor spend price upper := by
  have tradable : ¬price ≤ 0 := not_le.mpr inner.1
  rcases le_or_gt spend 0 with broke | positive
  · have nothing : executor.maxAffordableShares spend price upper = .ok 0 := by
      unfold maxAffordableShares
      rw [if_pos (.inl broke)]
    rw [nothing, ← maximal_of_no_spend rate inner broke]
    exact ⟨fun ⟨_, same, maximal⟩ => Except.ok.inj same ▸ maximal, fun maximal => ⟨0, rfl, maximal⟩⟩
  have search : executor.maxAffordableShares spend price upper =
      executor.affordableSearch spend price (Nat.size (searchBound spend price upper).toNat) 0
        (searchBound spend price upper) := by
    unfold maxAffordableShares
    rw [if_neg (not_or.mpr ⟨not_le.mpr positive, tradable⟩)]
    rfl
  rw [search]
  rcases le_or_gt 0 (searchBound spend price upper) with room | none
  · exact maximal_of_search rate inner positive room
  cases upper with
  | none =>
    have quotient : 0 ≤ spend * polymarketPriceScale / price :=
      Int.ediv_nonneg (mul_nonneg positive.le (by norm_num [polymarketPriceScale])) inner.1.le
    rw [searchBound, Option.getD_none] at none
    omega
  | some bound =>
    obtain ⟨ran, maximal, invertible⟩ := maximal_of_negative inner positive none
    exact iff_of_true ⟨0, ran, maximal⟩ invertible

/-- An executor that charges no fees. -/
def freeExecutor : TakerExecutor where
  realism := { cappedExecutor.realism with fee := ⟨.taker, .zero, 0, 1, 0, .halfUp⟩ }
  feeModel := ⟨⟨.taker, .zero, 0, 1, 0, .halfUp⟩, 0⟩
  draws := ⟨fun _ => 0, fun _ => 0⟩

/-- At two cents a share, 501 units are bought for ten micro-units that 524 units cost as well. -/
theorem maxAffordableShares_stops_short :
    freeExecutor.maxAffordableShares 10 20000 none = .ok 501 ∧
      freeExecutor.costOf 20000 524 = .ok 10 ∧
      ¬∃ size, freeExecutor.maxAffordableShares 10 20000 none = .ok size ∧
        MaximalWithin freeExecutor 10 20000 none size := by
  have returned : freeExecutor.maxAffordableShares 10 20000 none = .ok 501 := by decide +kernel
  have larger : freeExecutor.costOf 20000 524 = .ok 10 := by decide +kernel
  refine ⟨returned, larger, ?_⟩
  rintro ⟨size, same, -, maximal⟩
  obtain rfl := Except.ok.inj (returned.symm.trans same)
  exact maximal 524 (by decide) (by rintro _ ⟨⟩) ⟨10, larger, le_rfl⟩

/-- With a seven percent fee a dollar buys all the shares at half a dollar that it can. -/
theorem maxAffordableShares_maximal_dollar :
    ∃ size, cappedExecutor.maxAffordableShares 1000000 500000 none = .ok size ∧
      MaximalWithin cappedExecutor 1000000 500000 none size := by
  have rate : 0 ≤ cappedExecutor.feeModel.config.rate := by decide +kernel
  have inner : InnerPrice 500000 := by
    unfold InnerPrice
    decide
  refine (maxAffordableShares_maximal_iff cappedExecutor 1000000 500000 none rate inner).mpr ?_
  have ran : cappedExecutor.costOf 500000 (searchBound 1000000 500000 none + 1) = .ok 1035001 := by
    decide +kernel
  exact .of_cost rate inner (by decide) ran (by decide)

end TakerExecutor

end PolymarketBt
