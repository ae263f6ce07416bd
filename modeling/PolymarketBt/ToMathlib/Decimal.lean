import Mathlib.Data.Int.Log
import Mathlib.Tactic

/-! # Decimal arithmetic under a context of fixed precision

A decimal number is its rational value. Every operation of the context computes the exact rational
result and then keeps `precision` significant digits, ties to the even coefficient. Quantizing to
an integer rounds once under an explicit mode and is refused when the coefficient does not fit the
precision. The arithmetic leaves out the exponent limits of the context, near `10 ^ 999999`; `round`
is the rounding of one result under them.
-/

namespace Decimal

/-- Significant digits the context keeps. -/
def precision : ℕ := 28

/-- The nearest integer, ties to the even one. -/
def roundHalfEven (x : ℚ) : ℤ :=
  if x - ⌊x⌋ < 1 / 2 then ⌊x⌋
  else if 1 / 2 < x - ⌊x⌋ then ⌊x⌋ + 1
  else if ⌊x⌋ % 2 = 0 then ⌊x⌋
  else ⌊x⌋ + 1

/-- The weight of the last significant digit of a nonzero number. -/
def unit (x : ℚ) : ℚ := (10 : ℚ) ^ (Int.log 10 |x| + 1 - precision)

/-- Keep `precision` significant digits. -/
def fix (x : ℚ) : ℚ := if x = 0 then 0 else roundHalfEven (x / unit x) * unit x

def add (x y : ℚ) : ℚ := fix (x + y)
def sub (x y : ℚ) : ℚ := fix (x - y)
def mul (x y : ℚ) : ℚ := fix (x * y)
def div (x y : ℚ) : ℚ := fix (x / y)

/-- Integral powers, rounded once. The context refuses to raise zero to a power that is not positive
or yields an infinity there, which every later operation refuses. -/
def pow (x : ℚ) (exponent : ℤ) : Option ℚ :=
  if x = 0 ∧ exponent ≤ 0 then none else some (fix (x ^ exponent))

/-- How an exact value between two integers is resolved. -/
inductive Rounding where
  | halfUp
  | floor
  | ceiling
deriving DecidableEq, Repr

/-- Half-up ties go away from zero. -/
def Rounding.toInt : Rounding → ℚ → ℤ
  | .halfUp, x => if 0 ≤ x then ⌊x + 1 / 2⌋ else -⌊-x + 1 / 2⌋
  | .floor, x => ⌊x⌋
  | .ceiling, x => ⌈x⌉

/-- Round to an integer, refusing a coefficient with more digits than the context holds. -/
def quantize (mode : Rounding) (x : ℚ) : Option ℤ :=
  if |mode.toInt x| < 10 ^ precision then some (mode.toInt x) else none

/-- The exponents of the largest and of the smallest normal numbers. -/
def maxExponent : ℤ := 999999
def minExponent : ℤ := -999999

/-- The spacing of the numbers below the normal range. -/
def tiny : ℚ := (10 : ℚ) ^ (minExponent + 1 - precision)

/-- Round under the exponent limits: small results lose digits, and too large ones do not exist. -/
def round (x : ℚ) : Option ℚ :=
  let rounded := if Int.log 10 |x| < minExponent then roundHalfEven (x / tiny) * tiny else fix x
  if maxExponent < Int.log 10 |rounded| then none else some rounded

theorem unit_pos (x : ℚ) : 0 < unit x := zpow_pos (by norm_num) _

theorem roundHalfEven_nonneg {x : ℚ} (nonneg : 0 ≤ x) : 0 ≤ roundHalfEven x := by
  have base : 0 ≤ ⌊x⌋ := Int.floor_nonneg.mpr nonneg
  unfold roundHalfEven
  split_ifs <;> omega

@[simp] theorem fix_zero : fix 0 = 0 := if_pos rfl

theorem fix_nonneg {x : ℚ} (nonneg : 0 ≤ x) : 0 ≤ fix x := by
  unfold fix
  split_ifs
  · exact le_rfl
  · have scaled := roundHalfEven_nonneg (div_nonneg nonneg (unit_pos x).le)
    exact mul_nonneg (by exact_mod_cast scaled) (unit_pos x).le

@[simp] theorem mul_zero_left (y : ℚ) : mul 0 y = 0 := by simp [mul]
@[simp] theorem mul_zero_right (x : ℚ) : mul x 0 = 0 := by simp [mul]
@[simp] theorem div_zero_left (y : ℚ) : div 0 y = 0 := by simp [div]

theorem mul_nonneg {x y : ℚ} (left : 0 ≤ x) (right : 0 ≤ y) : 0 ≤ mul x y :=
  fix_nonneg (Rat.mul_nonneg left right)

theorem div_nonneg {x y : ℚ} (left : 0 ≤ x) (right : 0 ≤ y) : 0 ≤ div x y :=
  fix_nonneg (by positivity)

theorem Rounding.toInt_nonneg (mode : Rounding) {x : ℚ} (nonneg : 0 ≤ x) : 0 ≤ mode.toInt x := by
  cases mode with
  | halfUp =>
    simp only [toInt, if_pos nonneg]
    exact Int.floor_nonneg.mpr (by linarith)
  | floor => exact Int.floor_nonneg.mpr nonneg
  | ceiling => exact Int.ceil_nonneg nonneg

@[simp] theorem Rounding.toInt_zero (mode : Rounding) : mode.toInt 0 = 0 := by
  cases mode <;> norm_num [toInt]

theorem quantize_eq_some {mode : Rounding} {x : ℚ} {value : ℤ} :
    quantize mode x = some value ↔ |value| < 10 ^ precision ∧ mode.toInt x = value := by
  unfold quantize
  split_ifs with fits
  · constructor
    · rintro ⟨⟩
      exact ⟨fits, rfl⟩
    · rintro ⟨_, rfl⟩
      rfl
  · simp only [false_iff, not_and]
    rintro within rfl
    exact fits within

theorem quantize_nonneg {mode : Rounding} {x : ℚ} {value : ℤ} (nonneg : 0 ≤ x)
    (quantized : quantize mode x = some value) : 0 ≤ value := by
  rw [← (quantize_eq_some.mp quantized).2]
  exact mode.toInt_nonneg nonneg

theorem roundHalfEven_mono {x y : ℚ} (le : x ≤ y) : roundHalfEven x ≤ roundHalfEven y := by
  rcases (Int.floor_le_floor le).eq_or_lt with same | apart
  · unfold roundHalfEven
    rw [← same]
    split_ifs <;> first | omega | (exfalso; linarith)
  · have below : roundHalfEven x ≤ ⌊x⌋ + 1 := by
      unfold roundHalfEven
      split_ifs <;> omega
    have above : ⌊y⌋ ≤ roundHalfEven y := by
      unfold roundHalfEven
      split_ifs <;> omega
    omega

@[simp] theorem roundHalfEven_intCast (n : ℤ) : roundHalfEven (n : ℚ) = n := by
  simp [roundHalfEven]

/-- A power of ten that is no smaller than a unit is a whole number of units. -/
theorem zpow_div_unit {x : ℚ} {k : ℤ} (exponent : Int.log 10 |x| < k + precision) :
    ∃ n : ℤ, (10 : ℚ) ^ k = n * unit x := by
  refine ⟨10 ^ (k - (Int.log 10 |x| + 1 - precision)).toNat, ?_⟩
  have whole : 0 ≤ k - (Int.log 10 |x| + 1 - precision) := by omega
  rw [unit]
  push_cast
  rw [← zpow_natCast, Int.toNat_of_nonneg whole, ← zpow_add₀ (by norm_num)]
  congr 1
  ring

theorem fix_le_zpow {x : ℚ} {k : ℤ} (nonneg : 0 ≤ x) (le : x ≤ (10 : ℚ) ^ k) :
    fix x ≤ (10 : ℚ) ^ k := by
  unfold fix
  split_ifs with zero
  · positivity
  have positive : 0 < x := lt_of_le_of_ne nonneg (Ne.symm zero)
  have exponent : Int.log 10 |x| ≤ k := by
    rw [abs_of_pos positive]
    have := Int.log_mono_right (b := 10) positive le
    rwa [show (10 : ℚ) = ((10 : ℕ) : ℚ) by norm_num, Int.log_zpow (by norm_num)] at this
  obtain ⟨n, whole⟩ := @zpow_div_unit x k (by simp only [precision]; omega)
  rw [whole]
  refine mul_le_mul_of_nonneg_right ?_ (unit_pos x).le
  have below : x / unit x ≤ n := by
    rw [div_le_iff₀ (unit_pos x), ← whole]
    exact le
  have rounded := roundHalfEven_mono below
  rw [roundHalfEven_intCast] at rounded
  exact_mod_cast rounded

theorem zpow_le_fix {x : ℚ} {k : ℤ} (positive : 0 < x) (le : (10 : ℚ) ^ k ≤ x)
    (exponent : Int.log 10 |x| ≤ k) : (10 : ℚ) ^ k ≤ fix x := by
  unfold fix
  rw [if_neg positive.ne']
  obtain ⟨n, whole⟩ := @zpow_div_unit x k (by simp only [precision]; omega)
  rw [whole]
  refine mul_le_mul_of_nonneg_right ?_ (unit_pos x).le
  have above : (n : ℚ) ≤ x / unit x := by
    rw [le_div_iff₀ (unit_pos x), ← whole]
    exact le
  have rounded := roundHalfEven_mono above
  rw [roundHalfEven_intCast] at rounded
  exact_mod_cast rounded

/-- Numbers within the precision are kept. -/
theorem fix_exact {n k : ℤ} (nonneg : 0 ≤ n) (fits : n ≤ 10 ^ precision) :
    fix ((n : ℚ) * (10 : ℚ) ^ k) = n * (10 : ℚ) ^ k := by
  rcases nonneg.eq_or_lt with rfl | positive
  · simp
  have cast : (0 : ℚ) < n := by exact_mod_cast positive
  have scale : (0 : ℚ) < (10 : ℚ) ^ k := by positivity
  have some : (0 : ℚ) < n * (10 : ℚ) ^ k := mul_pos cast scale
  rcases fits.eq_or_lt with whole | below
  · have power : (n : ℚ) * (10 : ℚ) ^ k = (10 : ℚ) ^ (precision + k : ℤ) := by
      rw [whole, zpow_add₀ (by norm_num)]
      norm_cast
    rw [power] at some ⊢
    refine le_antisymm (fix_le_zpow some.le le_rfl) (zpow_le_fix some le_rfl ?_)
    rw [abs_of_pos some, show (10 : ℚ) = ((10 : ℕ) : ℚ) by norm_num, Int.log_zpow (by norm_num)]
  · have exponent : Int.log 10 |(n : ℚ) * (10 : ℚ) ^ k| < k + precision := by
      rw [abs_of_pos some]
      refine (Int.lt_zpow_iff_log_lt (by norm_num) some).mp ?_
      rw [zpow_add₀ (by norm_num), mul_comm]
      refine mul_lt_mul_of_pos_left ?_ (by exact_mod_cast scale)
      exact_mod_cast below
    obtain ⟨m, whole⟩ := zpow_div_unit exponent
    set x := (n : ℚ) * (10 : ℚ) ^ k with x_eq
    have count : x / unit x = ((n * m : ℤ) : ℚ) := by
      rw [div_eq_iff (unit_pos x).ne']
      push_cast
      rw [mul_assoc, ← whole]
    unfold fix
    rw [if_neg some.ne', count, roundHalfEven_intCast, ← count, div_mul_cancel₀ _ (unit_pos x).ne']

/-- Rounding to the precision keeps the order of nonnegative numbers. -/
theorem fix_mono {x y : ℚ} (nonneg : 0 ≤ x) (le : x ≤ y) : fix x ≤ fix y := by
  rcases nonneg.eq_or_lt with rfl | positive
  · rw [fix_zero]
    exact fix_nonneg le
  have positive' : 0 < y := positive.trans_le le
  have exponents : Int.log 10 x ≤ Int.log 10 y := Int.log_mono_right positive le
  rcases exponents.eq_or_lt with same | apart
  · have units : unit x = unit y := by
      rw [unit, unit, abs_of_pos positive, abs_of_pos positive', same]
    unfold fix
    rw [if_neg positive.ne', if_neg positive'.ne', ← units]
    refine mul_le_mul_of_nonneg_right ?_ (unit_pos x).le
    exact_mod_cast roundHalfEven_mono (div_le_div_of_nonneg_right le (unit_pos x).le)
  · have lower : x ≤ (10 : ℚ) ^ Int.log 10 y := by
      have next := (Int.lt_zpow_succ_log_self (b := 10) (by norm_num) x).le
      push_cast at next
      exact next.trans (zpow_le_zpow_right₀ (by norm_num) (by omega))
    have upper : (10 : ℚ) ^ Int.log 10 y ≤ y := by
      exact_mod_cast Int.zpow_log_le_self (b := 10) (by norm_num) positive'
    exact (fix_le_zpow positive.le lower).trans
      (zpow_le_fix positive' upper (by rw [abs_of_pos positive']))

theorem mul_mono {x x' y y' : ℚ} (left : 0 ≤ x) (right : 0 ≤ y) (le : x ≤ x') (le' : y ≤ y') :
    mul x y ≤ mul x' y' :=
  fix_mono (Rat.mul_nonneg left right) (mul_le_mul le le' right (left.trans le))

theorem div_mono {x x' y : ℚ} (left : 0 ≤ x) (right : 0 ≤ y) (le : x ≤ x') : div x y ≤ div x' y :=
  fix_mono (by positivity) (div_le_div_of_nonneg_right le right)

theorem Rounding.toInt_mono (mode : Rounding) {x y : ℚ} (nonneg : 0 ≤ x) (le : x ≤ y) :
    mode.toInt x ≤ mode.toInt y := by
  cases mode with
  | halfUp =>
    simp only [toInt, if_pos nonneg, if_pos (nonneg.trans le)]
    exact Int.floor_le_floor (by linarith)
  | floor => exact Int.floor_le_floor le
  | ceiling => exact Int.ceil_le_ceil le

@[simp] theorem Rounding.toInt_intCast (mode : Rounding) (n : ℤ) : mode.toInt n = n := by
  cases mode with
  | halfUp =>
    have half : ⌊(n : ℚ) + 1 / 2⌋ = n ∧ ⌊-(n : ℚ) + 1 / 2⌋ = -n := by
      constructor <;> rw [Int.floor_eq_iff] <;> constructor <;> push_cast <;> linarith
    simp only [toInt, half.1, half.2, neg_neg, ite_self]
  | floor => simp [toInt]
  | ceiling => simp [toInt]

/-- A nonnegative number below a whole number of the context quantizes below it. -/
theorem quantize_exists (mode : Rounding) {x : ℚ} {n : ℤ} (nonneg : 0 ≤ x) (le : x ≤ n)
    (fits : n < 10 ^ precision) : ∃ value, quantize mode x = some value ∧ 0 ≤ value ∧ value ≤ n := by
  have lower := mode.toInt_nonneg nonneg
  have upper := mode.toInt_mono nonneg le
  rw [mode.toInt_intCast] at upper
  refine ⟨mode.toInt x, quantize_eq_some.mpr ⟨?_, rfl⟩, lower, upper⟩
  rw [abs_of_nonneg lower]
  exact upper.trans_lt fits

theorem quantize_mono {mode : Rounding} {x y : ℚ} {first second : ℤ} (nonneg : 0 ≤ x) (le : x ≤ y)
    (left : quantize mode x = some first) (right : quantize mode y = some second) :
    first ≤ second := by
  rw [← (quantize_eq_some.mp left).2, ← (quantize_eq_some.mp right).2]
  exact mode.toInt_mono nonneg le

/-- A number that quantizes bounds others that do. -/
theorem quantize_exists_of_le {mode : Rounding} {x y : ℚ} {value : ℤ} (nonneg : 0 ≤ x) (le : x ≤ y)
    (quantized : quantize mode y = some value) : ∃ smaller, quantize mode x = some smaller := by
  obtain ⟨fits, same⟩ := quantize_eq_some.mp quantized
  refine ⟨mode.toInt x, quantize_eq_some.mpr ⟨lt_of_le_of_lt ?_ fits, rfl⟩⟩
  rw [← same, abs_of_nonneg (mode.toInt_nonneg nonneg), abs_of_nonneg (mode.toInt_nonneg (nonneg.trans le))]
  exact mode.toInt_mono nonneg le

theorem fix_pos {x : ℚ} (positive : 0 < x) : 0 < fix x := by
  have power : (10 : ℚ) ^ Int.log 10 |x| ≤ x := by
    rw [abs_of_pos positive]
    exact_mod_cast Int.zpow_log_le_self (b := 10) (by norm_num) positive
  exact (zpow_pos (by norm_num) _).trans_le (zpow_le_fix positive power le_rfl)

/-- Positive powers of a number of the unit interval stay in it. -/
theorem pow_unitInterval {x : ℚ} {exponent : ℤ} (nonneg : 0 ≤ x) (le : x ≤ 1) (positive : 1 ≤ exponent) :
    ∃ power, pow x exponent = some power ∧ 0 ≤ power ∧ power ≤ 1 := by
  obtain ⟨n, rfl⟩ := Int.eq_ofNat_of_zero_le (by omega : 0 ≤ exponent)
  refine ⟨fix (x ^ (n : ℤ)), if_neg (by omega), ?_, ?_⟩
  · exact fix_nonneg (zpow_nonneg nonneg _)
  · have bounded : x ^ (n : ℤ) ≤ (10 : ℚ) ^ (0 : ℤ) := by
      rw [zpow_natCast, zpow_zero]
      exact pow_le_one₀ nonneg le
    simpa using fix_le_zpow (zpow_nonneg nonneg _) bounded

end Decimal
