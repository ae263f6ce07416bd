import Mathlib.Data.Nat.Size
import PolymarketBt.Proofs.FastSim.Send

/-! # When an execution returns

Pricing goes through decimal arithmetic, so it can raise. Under a fee schedule whose rate is a
fraction, every quantity up to `quotable` has a notional and a fee at every price of the venue, and
both grow with the quantity. An execution then returns for every request up to that quantity.
-/

namespace PolymarketBt

open Machine

/-- A quantity the decimal context can price, beyond what a 64-bit spend buys at the lowest price. -/
def quotable : ℤ := 10 ^ 25

/-- A price at which the venue trades. -/
def Tradable (price : ℤ) : Prop := 0 < price ∧ price ≤ polymarketPriceScale

def PricedLadder (ladder : List (ℤ × ℤ)) : Prop := ∀ level ∈ ladder, Tradable level.1

/-- A schedule whose rate is a fraction and whose curve exists at every price. -/
structure FeeConfig.Chargeable (config : FeeConfig) : Prop where
  rate_range : 0 ≤ config.rate ∧ config.rate ≤ 1
  exponent_pos : 1 ≤ config.exponent
  minimum_range : 0 ≤ config.minimumFee ∧ config.minimumFee ≤ 10 ^ 6

/-! ## Notionals and fees -/

theorem notionalScaled_exists {size price : ℤ} (nonneg : 0 ≤ size) (small : size ≤ quotable)
    (priced : 0 ≤ price ∧ price ≤ polymarketPriceScale) :
    ∃ notional, notionalScaled size price = .ok notional ∧ 0 ≤ notional := by
  have size' : (0 : ℚ) ≤ size ∧ (size : ℚ) ≤ (10 : ℚ) ^ (25 : ℤ) := by
    constructor
    · exact_mod_cast nonneg
    · exact_mod_cast small
  have price' : (0 : ℚ) ≤ price ∧ (price : ℚ) ≤ (10 : ℚ) ^ (6 : ℤ) := by
    constructor
    · exact_mod_cast priced.1
    · exact_mod_cast priced.2
  have product : Decimal.mul size price ≤ (10 : ℚ) ^ (31 : ℤ) := by
    refine Decimal.fix_le_zpow (mul_nonneg size'.1 price'.1) ?_
    refine (mul_le_mul size'.2 price'.2 price'.1 (by norm_num)).trans ?_
    norm_num
  have product_nonneg : 0 ≤ Decimal.mul size price := Decimal.mul_nonneg size'.1 price'.1
  have quotient : Decimal.div (Decimal.mul size price) polymarketPriceScale ≤
      ((10 ^ 25 : ℤ) : ℚ) := by
    have bounded : Decimal.mul size price / (polymarketPriceScale : ℚ) ≤ (10 : ℚ) ^ (25 : ℤ) := by
      rw [div_le_iff₀ (by norm_num [polymarketPriceScale])]
      refine product.trans ?_
      norm_num [polymarketPriceScale]
    have scale : (0 : ℚ) ≤ polymarketPriceScale := by norm_num [polymarketPriceScale]
    refine (Decimal.fix_le_zpow (div_nonneg product_nonneg scale) bounded).trans_eq ?_
    norm_num
  obtain ⟨notional, quantized, lower, _⟩ := Decimal.quantize_exists .halfUp
    (Decimal.div_nonneg product_nonneg (by norm_num [polymarketPriceScale])) quotient
    (by norm_num [Decimal.precision])
  exact ⟨notional, by rw [notionalScaled, quantized]; rfl, lower⟩

theorem notionalScaled_eq_ok {size price notional : ℤ} :
    notionalScaled size price = .ok notional ↔ Decimal.quantize .halfUp
      (Decimal.div (Decimal.mul size price) polymarketPriceScale) = some notional := by
  unfold notionalScaled
  cases Decimal.quantize .halfUp (Decimal.div (Decimal.mul size price) polymarketPriceScale) with
  | none => simp [decimalResult]
  | some value => simp [decimalResult]

/-- Less than a priced quantity is priced as well, and not higher. -/
theorem notionalScaled_of_le {first second price right : ℤ} (nonneg : 0 ≤ first)
    (le : first ≤ second) (priced : 0 ≤ price) (ran : notionalScaled second price = .ok right) :
    ∃ left, notionalScaled first price = .ok left ∧ left ≤ right := by
  have first' : (0 : ℚ) ≤ first := by exact_mod_cast nonneg
  have price' : (0 : ℚ) ≤ price := by exact_mod_cast priced
  have scale : (0 : ℚ) ≤ polymarketPriceScale := by norm_num [polymarketPriceScale]
  have amount := Decimal.div_nonneg (Decimal.mul_nonneg first' price') scale
  have grows := Decimal.div_mono (Decimal.mul_nonneg first' price') scale
    (Decimal.mul_mono first' price' (by exact_mod_cast le : (first : ℚ) ≤ second) le_rfl)
  have quantized := notionalScaled_eq_ok.mp ran
  obtain ⟨left, smaller⟩ := Decimal.quantize_exists_of_le amount grows quantized
  exact ⟨left, notionalScaled_eq_ok.mpr smaller, Decimal.quantize_mono amount grows smaller quantized⟩

theorem notionalScaled_mono {first second price left right : ℤ} (nonneg : 0 ≤ first)
    (le : first ≤ second) (priced : 0 ≤ price) (ran : notionalScaled first price = .ok left)
    (ran' : notionalScaled second price = .ok right) : left ≤ right := by
  obtain ⟨_, same, le'⟩ := notionalScaled_of_le nonneg le priced ran'
  obtain rfl := Except.ok.inj (ran.symm.trans same)
  exact le'

namespace FeeModel

variable {model : FeeModel}

/-- The fee curve of a chargeable schedule is a fraction at every price. -/
theorem curve_exists (chargeable : model.config.Chargeable) {price : ℤ}
    (priced : 0 ≤ price ∧ price ≤ polymarketPriceScale) :
    ∃ curve, Decimal.pow (Decimal.mul (Decimal.div price polymarketPriceScale)
        (Decimal.sub 1 (Decimal.div price polymarketPriceScale))) model.config.exponent =
      some curve ∧ 0 ≤ curve ∧ curve ≤ 1 := by
  have probability : 0 ≤ Decimal.div price polymarketPriceScale ∧
      Decimal.div price polymarketPriceScale ≤ (10 : ℚ) ^ (0 : ℤ) := by
    have price' : (0 : ℚ) ≤ price ∧ (price : ℚ) ≤ polymarketPriceScale := by
      constructor
      · exact_mod_cast priced.1
      · exact_mod_cast priced.2
    have scale : (0 : ℚ) < polymarketPriceScale := by norm_num [polymarketPriceScale]
    refine ⟨Decimal.div_nonneg price'.1 scale.le,
      Decimal.fix_le_zpow (div_nonneg price'.1 scale.le) ?_⟩
    rw [zpow_zero, div_le_one₀ scale]
    exact price'.2
  rw [zpow_zero] at probability
  have complement : 0 ≤ Decimal.sub 1 (Decimal.div price polymarketPriceScale) ∧
      Decimal.sub 1 (Decimal.div price polymarketPriceScale) ≤ (10 : ℚ) ^ (0 : ℤ) := by
    have nonneg : 0 ≤ 1 - Decimal.div price polymarketPriceScale := by linarith [probability.2]
    exact ⟨Decimal.fix_nonneg nonneg, Decimal.fix_le_zpow nonneg (by
      rw [zpow_zero]
      linarith [probability.1])⟩
  rw [zpow_zero] at complement
  refine Decimal.pow_unitInterval (Decimal.mul_nonneg probability.1 complement.1) ?_
    chargeable.exponent_pos
  have product : Decimal.div price polymarketPriceScale *
      Decimal.sub 1 (Decimal.div price polymarketPriceScale) ≤ (10 : ℚ) ^ (0 : ℤ) := by
    rw [zpow_zero]
    exact mul_le_one₀ probability.2 complement.1 complement.2
  have bounded := Decimal.fix_le_zpow (mul_nonneg probability.1 complement.1) product
  rwa [zpow_zero] at bounded

/-- The fee before rounding at a point of the fee curve. -/
def rawAt (model : FeeModel) (curve : ℚ) (shares : ℤ) : ℚ :=
  Decimal.mul (Decimal.mul (Decimal.mul (Decimal.div shares shareSizeScale) model.config.rate) curve)
    usdcScale

theorem rawScaled_of_curve {curve : ℚ} {price : ℤ}
    (powered : Decimal.pow (Decimal.mul (Decimal.div price polymarketPriceScale)
      (Decimal.sub 1 (Decimal.div price polymarketPriceScale))) model.config.exponent = some curve)
    (shares : ℤ) : model.rawScaled shares price = some (model.rawAt curve shares) := by
  rw [rawScaled]
  rw [powered]
  rfl

theorem shares_nonneg {shares : ℤ} (nonneg : 0 ≤ shares) : 0 ≤ Decimal.div shares shareSizeScale :=
  Decimal.div_nonneg (by exact_mod_cast nonneg) (by norm_num [shareSizeScale])

section RawAt

variable {curve : ℚ} (rate : 0 ≤ model.config.rate) (curve_nonneg : 0 ≤ curve)

include rate curve_nonneg

theorem rawAt_nonneg {shares : ℤ} (nonneg : 0 ≤ shares) : 0 ≤ model.rawAt curve shares :=
  Decimal.mul_nonneg (Decimal.mul_nonneg (Decimal.mul_nonneg (shares_nonneg nonneg) rate)
    curve_nonneg) (by norm_num [usdcScale])

theorem rawAt_mono {first second : ℤ} (nonneg : 0 ≤ first) (le : first ≤ second) :
    model.rawAt curve first ≤ model.rawAt curve second := by
  have amount := Decimal.div_mono (by exact_mod_cast nonneg : (0 : ℚ) ≤ first)
    (by norm_num [shareSizeScale] : (0 : ℚ) ≤ shareSizeScale)
    (by exact_mod_cast le : (first : ℚ) ≤ second)
  have charged := Decimal.mul_nonneg (shares_nonneg nonneg) rate
  exact Decimal.mul_mono (Decimal.mul_nonneg charged curve_nonneg) (by norm_num [usdcScale])
    (Decimal.mul_mono charged curve_nonneg
      (Decimal.mul_mono (shares_nonneg nonneg) rate amount le_rfl) le_rfl) le_rfl

/-- Less than a charged quantity is charged as well, and not more. -/
theorem calculate_of_le {first second price right : ℤ} (nonneg : 0 ≤ first) (le : first ≤ second)
    (powered : Decimal.pow (Decimal.mul (Decimal.div price polymarketPriceScale)
      (Decimal.sub 1 (Decimal.div price polymarketPriceScale))) model.config.exponent = some curve)
    (ran : model.calculate second price = .ok right) :
    ∃ left, model.calculate first price = .ok left ∧ left ≤ right := by
  unfold calculate at ran ⊢
  by_cases free : model.config.formula = .zero ∨ model.config.liquidityRole = .maker
  · rw [if_pos free] at ran ⊢
    cases ran
    exact ⟨0, rfl, le_rfl⟩
  rw [if_neg free, rawScaled_of_curve powered] at ran ⊢
  have raw_nonneg := rawAt_nonneg rate curve_nonneg nonneg
  have grows := rawAt_mono rate curve_nonneg nonneg le
  dsimp only at ran ⊢
  cases quantized : Decimal.quantize model.config.rounding (model.rawAt curve second) with
  | none =>
    rw [quantized] at ran
    cases ran
  | some high =>
    rw [quantized] at ran
    obtain rfl := Except.ok.inj ran
    obtain ⟨low, smaller⟩ := Decimal.quantize_exists_of_le raw_nonneg grows quantized
    have ordered := Decimal.quantize_mono raw_nonneg grows smaller quantized
    have high_nonneg := Decimal.quantize_nonneg (raw_nonneg.trans grows) quantized
    rw [smaller]
    refine ⟨_, rfl, ?_⟩
    by_cases charged : 0 < model.rawAt curve first
    · rw [if_pos charged, if_pos (charged.trans_le grows)]
      exact max_le_max ordered le_rfl
    · rw [if_neg charged]
      split
      · exact high_nonneg.trans (le_max_left _ _)
      · exact le_rfl

end RawAt

/-- The fee before rounding, and its bound. -/
theorem rawScaled_exists (chargeable : model.config.Chargeable) {price : ℤ}
    (priced : 0 ≤ price ∧ price ≤ polymarketPriceScale) {shares : ℤ} (nonneg : 0 ≤ shares)
    (small : shares ≤ quotable) :
    ∃ raw, model.rawScaled shares price = some raw ∧ 0 ≤ raw ∧ raw ≤ ((10 ^ 25 : ℤ) : ℚ) := by
  obtain ⟨curve, powered, curve_nonneg, curve_le⟩ := curve_exists chargeable priced
  obtain ⟨rate_nonneg, rate_le⟩ := chargeable.rate_range
  refine ⟨_, rawScaled_of_curve powered shares, rawAt_nonneg rate_nonneg curve_nonneg nonneg, ?_⟩
  have amount : Decimal.div shares shareSizeScale ≤ (10 : ℚ) ^ (19 : ℤ) := by
    have scale : (0 : ℚ) ≤ shareSizeScale := by norm_num [shareSizeScale]
    refine Decimal.fix_le_zpow (div_nonneg (by exact_mod_cast nonneg) scale) ?_
    rw [div_le_iff₀ (by norm_num [shareSizeScale])]
    have small' : (shares : ℚ) ≤ ((10 ^ 25 : ℤ) : ℚ) := by exact_mod_cast small
    refine small'.trans ?_
    norm_num [shareSizeScale]
  have shrink : ∀ {x y : ℚ}, 0 ≤ x → x ≤ (10 : ℚ) ^ (19 : ℤ) → 0 ≤ y → y ≤ 1 →
      Decimal.mul x y ≤ (10 : ℚ) ^ (19 : ℤ) := by
    intro x y left le right le'
    exact Decimal.fix_le_zpow (mul_nonneg left right) ((mul_le_of_le_one_right left le').trans le)
  have charged := Decimal.mul_nonneg (shares_nonneg nonneg) rate_nonneg
  have rated := shrink (shares_nonneg nonneg) amount rate_nonneg rate_le
  have curved := shrink charged rated curve_nonneg curve_le
  have unit : (0 : ℚ) ≤ usdcScale := by norm_num [usdcScale]
  have bounded : Decimal.mul (Decimal.mul (Decimal.div shares shareSizeScale) model.config.rate)
      curve * (usdcScale : ℚ) ≤ (10 : ℚ) ^ (25 : ℤ) := by
    refine (mul_le_mul_of_nonneg_right curved unit).trans ?_
    norm_num [usdcScale]
  refine (Decimal.fix_le_zpow (mul_nonneg (Decimal.mul_nonneg charged curve_nonneg) unit)
    bounded).trans_eq ?_
  norm_num

/-- A chargeable schedule makes a fee model. -/
theorem init_returns {config : FeeConfig} (chargeable : config.Chargeable) :
    (FeeModel.init config).Returns := by
  obtain ⟨nonneg, le⟩ := chargeable.minimum_range
  have scale : (0 : ℚ) ≤ usdcScale := by norm_num [usdcScale]
  have bounded : Decimal.mul config.minimumFee usdcScale ≤ ((10 ^ 12 : ℤ) : ℚ) := by
    have product : config.minimumFee * (usdcScale : ℚ) ≤ (10 : ℚ) ^ (12 : ℤ) := by
      refine (mul_le_mul_of_nonneg_right le scale).trans ?_
      norm_num [usdcScale]
    refine (Decimal.fix_le_zpow (mul_nonneg nonneg scale) product).trans_eq ?_
    norm_num
  obtain ⟨minimum, quantized, _⟩ := Decimal.quantize_exists config.rounding
    (Decimal.mul_nonneg nonneg scale) bounded (by norm_num [Decimal.precision])
  exact ⟨⟨config, minimum⟩, by rw [FeeModel.init, quantized]; rfl⟩

theorem calculate_exists (chargeable : model.config.Chargeable) {shares price : ℤ}
    (nonneg : 0 ≤ shares) (small : shares ≤ quotable)
    (priced : 0 ≤ price ∧ price ≤ polymarketPriceScale) :
    ∃ fee, model.calculate shares price = .ok fee ∧ 0 ≤ fee := by
  unfold calculate
  split
  · exact ⟨0, rfl, le_rfl⟩
  obtain ⟨raw, raws, raw_nonneg, raw_le⟩ := rawScaled_exists chargeable priced nonneg small
  obtain ⟨fee, quantized, lower, _⟩ := Decimal.quantize_exists model.config.rounding
    raw_nonneg raw_le (by norm_num [Decimal.precision])
  rw [raws]
  dsimp only
  rw [quantized]
  refine ⟨_, rfl, ?_⟩
  split
  · exact lower.trans (le_max_left _ _)
  · exact le_rfl

/-- A larger quantity is never charged less. -/
theorem calculate_mono (chargeable : model.config.Chargeable) {first second price left right : ℤ}
    (nonneg : 0 ≤ first) (le : first ≤ second) (priced : 0 ≤ price ∧ price ≤ polymarketPriceScale)
    (ran : model.calculate first price = .ok left) (ran' : model.calculate second price = .ok right) :
    left ≤ right := by
  obtain ⟨curve, powered, curve_nonneg, _⟩ := curve_exists chargeable priced
  obtain ⟨_, same, le'⟩ :=
    calculate_of_le chargeable.rate_range.1 curve_nonneg nonneg le powered ran'
  obtain rfl := Except.ok.inj (ran.symm.trans same)
  exact le'

end FeeModel

namespace TakerExecutor

variable {executor : TakerExecutor}

/-! ## The affordable quantity -/

theorem costOf_exists (chargeable : executor.feeModel.config.Chargeable) {price shares : ℤ}
    (priced : Tradable price) (nonneg : 0 ≤ shares) (small : shares ≤ quotable) :
    ∃ cost, executor.costOf price shares = .ok cost := by
  obtain ⟨notional, notionalRan, _⟩ := notionalScaled_exists nonneg small ⟨priced.1.le, priced.2⟩
  obtain ⟨fee, feeRan, _⟩ :=
    FeeModel.calculate_exists chargeable nonneg small ⟨priced.1.le, priced.2⟩
  exact ⟨notional + fee, costOf_eq_ok.mpr ⟨notional, fee, notionalRan, feeRan, rfl⟩⟩

theorem costOf_mono (chargeable : executor.feeModel.config.Chargeable)
    {price first second left right : ℤ} (priced : Tradable price) (nonneg : 0 ≤ first)
    (le : first ≤ second) (ran : executor.costOf price first = .ok left)
    (ran' : executor.costOf price second = .ok right) : left ≤ right := by
  obtain ⟨notional, fee, notionalRan, feeRan, rfl⟩ := costOf_eq_ok.mp ran
  obtain ⟨notional', fee', notionalRan', feeRan', rfl⟩ := costOf_eq_ok.mp ran'
  exact add_le_add (notionalScaled_mono nonneg le priced.1.le notionalRan notionalRan')
    (FeeModel.calculate_mono chargeable nonneg le ⟨priced.1.le, priced.2⟩ feeRan feeRan')

theorem affordableSearch_exists (chargeable : executor.feeModel.config.Chargeable)
    (spend : ℤ) {price : ℤ} (priced : Tradable price) (fuel : ℕ) {low high : ℤ} (nonneg : 0 ≤ low)
    (ordered : low ≤ high) (small : high ≤ quotable) :
    ∃ size, executor.affordableSearch spend price fuel low high = .ok size ∧ low ≤ size ∧
      size ≤ high := by
  induction fuel generalizing low high with
  | zero => exact ⟨low, rfl, le_rfl, ordered⟩
  | succ fuel ih =>
    unfold affordableSearch
    split
    swap
    · exact ⟨low, rfl, le_rfl, ordered⟩
    obtain ⟨cost, costRan⟩ := costOf_exists chargeable priced
      (by omega : 0 ≤ (low + high + 1) / 2) (by omega)
    dsimp only
    rw [costRan, Except.ok_bind]
    split
    · obtain ⟨size, ran, lower, upper⟩ := ih (by omega : 0 ≤ (low + high + 1) / 2) (by omega) small
      exact ⟨size, ran, by omega, upper⟩
    · obtain ⟨size, ran, lower, upper⟩ :=
        ih nonneg (by omega : low ≤ (low + high + 1) / 2 - 1) (by omega)
      exact ⟨size, ran, lower, by omega⟩

/-- What a search for the affordable quantity may be asked: a price of the venue, and a bound on
the quantity or a spend that bounds it. -/
theorem maxAffordableShares_exists (chargeable : executor.feeModel.config.Chargeable)
    (spend : ℤ) {price : ℤ} (upper : Option ℤ) (priced : Tradable price)
    (bounded : ∀ bound ∈ upper, 0 ≤ bound ∧ bound ≤ quotable)
    (small : upper = none → spend ≤ 2 ^ 63) :
    ∃ size, executor.maxAffordableShares spend price upper = .ok size ∧ 0 ≤ size ∧
      size ≤ quotable := by
  unfold maxAffordableShares
  split
  · exact ⟨0, rfl, le_rfl, by norm_num [quotable]⟩
  next positive =>
  have high : 0 ≤ upper.getD (spend * polymarketPriceScale / price + 1) ∧
      upper.getD (spend * polymarketPriceScale / price + 1) ≤ quotable := by
    cases upper with
    | some bound => exact bounded bound rfl
    | none =>
      have lower : 0 ≤ spend * polymarketPriceScale / price :=
        Int.ediv_nonneg (mul_nonneg (by omega) (by norm_num [polymarketPriceScale])) priced.1.le
      have numerator : 0 ≤ spend * polymarketPriceScale :=
        mul_nonneg (by omega) (by norm_num [polymarketPriceScale])
      have quotient := Int.ediv_le_self price numerator
      have limit := small rfl
      simp only [Option.getD_none, quotable, polymarketPriceScale] at *
      omega
  obtain ⟨size, ran, lower, le⟩ := affordableSearch_exists chargeable spend priced _ le_rfl high.1 high.2
  exact ⟨size, ran, lower, le.trans high.2⟩

/-- A search from zero finds something when one unit fits the spend. -/
theorem affordableSearch_pos {spend price cost : ℤ}
    (one : executor.costOf price 1 = .ok cost) (fits : cost ≤ spend)
    (chargeable : executor.feeModel.config.Chargeable) (priced : Tradable price) {fuel : ℕ}
    {high size : ℤ} (room : 1 ≤ high) (enough : high < 2 ^ fuel) (small : high ≤ quotable)
    (ran : executor.affordableSearch spend price fuel 0 high = .ok size) : 0 < size := by
  induction fuel generalizing high with
  | zero => omega
  | succ fuel ih =>
    unfold affordableSearch at ran
    rw [if_pos (by omega)] at ran
    dsimp only at ran
    obtain ⟨middleCost, middleRan, ran⟩ := Except.bind_eq_ok.mp ran
    split at ran
    · obtain ⟨found, same, lower, _⟩ := affordableSearch_exists chargeable spend priced fuel
        (by omega : 0 ≤ (0 + high + 1) / 2) (by omega : (0 + high + 1) / 2 ≤ high) small
      obtain rfl := Except.ok.inj (ran.symm.trans same)
      omega
    · next above =>
      have middle : (0 + high + 1) / 2 ≠ 1 := by
        intro single
        rw [single, one] at middleRan
        obtain rfl := Except.ok.inj middleRan
        exact above fits
      refine ih (by omega) ?_ (by omega) ran
      rw [pow_succ] at enough
      omega

/-- Something is affordable exactly when one unit is. -/
theorem maxAffordableShares_pos_iff (chargeable : executor.feeModel.config.Chargeable)
    {spend price cost size : ℤ} (priced : Tradable price) (positive : 0 < spend)
    (small : spend ≤ 2 ^ 63) (one : executor.costOf price 1 = .ok cost)
    (ran : executor.maxAffordableShares spend price none = .ok size) :
    0 < size ↔ cost ≤ spend := by
  obtain ⟨_, same, _, le⟩ := maxAffordableShares_exists chargeable spend none priced
    (by simp) fun _ => small
  obtain rfl := Except.ok.inj (ran.symm.trans same)
  constructor
  · intro some
    obtain ⟨⟨total, totalRan, affordable⟩, _⟩ := maxAffordableShares_spec ran some
    exact (costOf_mono chargeable priced (by norm_num) (by omega) one totalRan).trans affordable
  · intro fits
    have price_pos := priced.1
    unfold maxAffordableShares at ran
    rw [if_neg (by omega)] at ran
    dsimp only at ran
    have numerator : 0 ≤ spend * polymarketPriceScale :=
      mul_nonneg positive.le (by norm_num [polymarketPriceScale])
    have lower := Int.ediv_nonneg numerator price_pos.le
    have quotient := Int.ediv_le_self price numerator
    have most : spend * polymarketPriceScale / price + 1 ≤ quotable := by
      simp only [quotable, polymarketPriceScale] at *
      omega
    rw [Option.getD_none] at ran
    refine affordableSearch_pos one fits chargeable priced (by omega) ?_ most ran
    have enough := Nat.lt_size_self (spend * polymarketPriceScale / price + 1).toNat
    have cast : (((spend * polymarketPriceScale / price + 1).toNat : ℕ) : ℤ) <
        ((2 ^ Nat.size (spend * polymarketPriceScale / price + 1).toNat : ℕ) : ℤ) := by
      exact_mod_cast enough
    rw [Int.toNat_of_nonneg (by omega)] at cast
    exact_mod_cast cast

/-! ## The spend cap -/

theorem capSlices_returns (chargeable : executor.feeModel.config.Chargeable) {spend : ℤ}
    {slices : List FillSlice} (priced : ∀ slice ∈ slices, Tradable slice.priceScaled ∧
      0 ≤ slice.sizeScaled ∧ slice.sizeScaled ≤ quotable) :
    (executor.capSlices spend slices).Returns := by
  induction slices generalizing spend with
  | nil => exact ⟨_, rfl⟩
  | cons slice rest ih =>
    obtain ⟨price, nonneg, small⟩ := priced slice (List.mem_cons_self ..)
    unfold capSlices
    split
    · refine (ih fun other member => priced other (List.mem_cons_of_mem _ member)).bind ?_
      exact fun _ _ => Except.returns_pure _
    · obtain ⟨size, ran, lower, upper⟩ := maxAffordableShares_exists chargeable spend
        (some slice.sizeScaled) price (by simp [nonneg, small]) (by simp)
      rw [ran, Except.ok_bind]
      split
      · obtain ⟨notional, notionalRan, _⟩ :=
          notionalScaled_exists lower upper ⟨price.1.le, price.2⟩
        obtain ⟨fee, feeRan, _⟩ :=
          FeeModel.calculate_exists chargeable lower upper ⟨price.1.le, price.2⟩
        rw [notionalRan, feeRan]
        exact ⟨_, rfl⟩
      · exact ⟨_, rfl⟩

/-! ## The sweep -/

theorem sweepLevel_exists (chargeable : executor.feeModel.config.Chargeable) {side : Side}
    {limit cap : Option ℤ} {sweep : Sweep} (small : sweep.remaining ≤ quotable)
    {ranked : (ℤ × ℤ) × ℕ} (priced : Tradable ranked.1.1) :
    ∃ flow, executor.sweepLevel side limit cap sweep ranked = .ok flow ∧
      flow.state.remaining ≤ quotable := by
  obtain ⟨⟨price, displayed⟩, rank⟩ := ranked
  unfold sweepLevel
  dsimp only
  split
  · exact ⟨_, rfl, small⟩
  have bound : (executor.takeAt cap sweep displayed).1 ≤ sweep.remaining := by
    unfold takeAt
    dsimp only
    split
    · exact min_le_left _ _
    · split <;> dsimp only <;> omega
  rcases taken : executor.takeAt cap sweep displayed with ⟨take, cutByVolume⟩
  rw [taken] at bound
  dsimp only at bound ⊢
  split
  · refine ⟨_, rfl, ?_⟩
    split <;> exact small
  · next positive =>
    obtain ⟨fee, feeRan, _⟩ := FeeModel.calculate_exists chargeable (by omega : 0 ≤ take)
      (bound.trans small) ⟨priced.1.le, priced.2⟩
    obtain ⟨notional, notionalRan, _⟩ :=
      notionalScaled_exists (by omega : 0 ≤ take) (bound.trans small) ⟨priced.1.le, priced.2⟩
    rw [feeRan, notionalRan]
    refine ⟨_, rfl, ?_⟩
    split <;> (simp only [Flow.state_next, Flow.state_stop]; omega)

theorem execute_returns (chargeable : executor.feeModel.config.Chargeable) {order : TakerOrder}
    (small : order.requestedSharesScaled ≤ quotable) (priced : PricedLadder order.ladder) :
    (executor.execute order).Returns := by
  unfold execute
  split
  · exact ⟨_, rfl⟩
  split
  · exact ⟨_, rfl⟩
  split
  · exact ⟨_, rfl⟩
  split
  · exact ⟨_, rfl⟩
  dsimp only
  refine Except.Returns.bind ?_ fun sweep _ => ?_
  · refine forLoop_returns (fun _ sweep => sweep.remaining ≤ quotable) small ?_
    intro past ranked future sweep split kept
    refine sweepLevel_exists chargeable kept (priced ranked.1 ?_)
    have member : ranked ∈ (executor.visibleLadder order.ladder).zipIdx := by simp [split]
    have visible := (List.mem_zipIdx' member).2 ▸ List.getElem_mem _
    unfold visibleLadder at visible
    split at visible
    · exact visible
    · exact List.mem_of_mem_take visible
  · split <;> exact ⟨_, rfl⟩

end TakerExecutor

end PolymarketBt
