import PolymarketBt.ToMathlib.Decimal

/-! # The grid a result is rounded to

Around a number the context holds the multiples of one power of ten, which its size and the smallest
exponent select. Rounding under the exponent limits takes the nearest of them, as long as the number
lies below the middle between the largest number and the next power of ten.
-/

namespace Decimal

/-- The spacing of the numbers of the context around a number. -/
def spacing (x : ℚ) : ℚ := (10 : ℚ) ^ (max (Int.log 10 |x|) minExponent + 1 - precision)

/-- The number of the context nearest to another, exponents being unbounded above. -/
def nearest (x : ℚ) : ℚ := roundHalfEven (x / spacing x) * spacing x

/-- The magnitude from which no number of the context is nearest. -/
def limit : ℚ := (10 ^ precision - 1 / 2) * (10 : ℚ) ^ (maxExponent + 1 - precision)

theorem spacing_pos (x : ℚ) : 0 < spacing x := zpow_pos (by norm_num) _

theorem roundHalfEven_near (x : ℚ) : |x - roundHalfEven x| ≤ 1 / 2 := by
  have below := Int.floor_le x
  have above := Int.lt_floor_add_one x
  unfold roundHalfEven
  split_ifs <;> rw [abs_le] <;> push_cast <;> constructor <;> linarith

theorem roundHalfEven_neg (x : ℚ) : roundHalfEven (-x) = -roundHalfEven x := by
  have below := Int.floor_le x
  have above := Int.lt_floor_add_one x
  rcases below.eq_or_lt with whole | fraction
  · rw [← whole, ← Int.cast_neg, roundHalfEven_intCast, roundHalfEven_intCast]
  · have floor : ⌊-x⌋ = -⌊x⌋ - 1 := by
      rw [Int.floor_eq_iff]
      push_cast
      constructor <;> linarith
    unfold roundHalfEven
    rw [floor]
    push_cast
    split_ifs <;> first | omega | (exfalso; linarith)

theorem abs_roundHalfEven (x : ℚ) : |roundHalfEven x| = roundHalfEven |x| := by
  rcases abs_cases x with ⟨same, nonneg⟩ | ⟨flipped, negative⟩
  · rw [same, abs_of_nonneg (roundHalfEven_nonneg nonneg)]
  · have := roundHalfEven_nonneg (neg_nonneg.mpr negative.le)
    rw [flipped, ← abs_neg, ← roundHalfEven_neg, abs_of_nonneg this]

/-- A tie below an even number goes up. -/
theorem le_roundHalfEven_iff {x : ℚ} {n : ℤ} (even : n % 2 = 0) :
    n ≤ roundHalfEven x ↔ (n : ℚ) - 1 / 2 ≤ x := by
  have near := abs_le.mp (roundHalfEven_near x)
  constructor
  · intro le
    have : (n : ℚ) ≤ roundHalfEven x := by exact_mod_cast le
    linarith
  · intro le
    by_contra! below
    have : (roundHalfEven x : ℚ) ≤ n - 1 := by exact_mod_cast Int.le_sub_one_of_lt below
    have tie : x = (n : ℚ) - 1 / 2 := by linarith
    have floor : ⌊x⌋ = n - 1 := by
      rw [tie, Int.floor_eq_iff]
      push_cast
      constructor <;> linarith
    have up : roundHalfEven x = n := by
      unfold roundHalfEven
      rw [floor, if_neg, if_neg, if_neg] <;> first | omega | (rw [tie]; push_cast; linarith)
    omega

theorem roundHalfEven_le {x : ℚ} {n : ℤ} (le : x ≤ n) : roundHalfEven x ≤ n := by
  have rounded := roundHalfEven_mono le
  rwa [roundHalfEven_intCast] at rounded

theorem le_roundHalfEven {x : ℚ} {n : ℤ} (le : n ≤ x) : n ≤ roundHalfEven x := by
  have rounded := roundHalfEven_mono le
  rwa [roundHalfEven_intCast] at rounded

theorem abs_nearest (x : ℚ) : |nearest x| = roundHalfEven (|x| / spacing x) * spacing x := by
  rw [nearest, abs_mul, abs_of_pos (spacing_pos x), ← Int.cast_abs, abs_roundHalfEven, abs_div,
    abs_of_pos (spacing_pos x)]

/-- Powers of ten from the spacing on are numbers of the grid. -/
theorem zpow_on_grid {x : ℚ} {k : ℤ} (grid : max (Int.log 10 |x|) minExponent + 1 - precision ≤ k) :
    ∃ n : ℤ, (10 : ℚ) ^ k = n * spacing x := by
  refine ⟨10 ^ (k - (max (Int.log 10 |x|) minExponent + 1 - precision)).toNat, ?_⟩
  rw [spacing]
  push_cast
  rw [← zpow_natCast, Int.toNat_of_nonneg (by omega), ← zpow_add₀ (by norm_num)]
  congr 1
  ring

theorem abs_nearest_le {x : ℚ} {k : ℤ} (le : |x| ≤ (10 : ℚ) ^ k)
    (grid : max (Int.log 10 |x|) minExponent + 1 - precision ≤ k) : |nearest x| ≤ (10 : ℚ) ^ k := by
  obtain ⟨n, whole⟩ := zpow_on_grid grid
  rw [abs_nearest, whole]
  refine mul_le_mul_of_nonneg_right ?_ (spacing_pos x).le
  have below : |x| / spacing x ≤ n := by
    rw [div_le_iff₀ (spacing_pos x), ← whole]
    exact le
  exact_mod_cast roundHalfEven_le below

theorem le_abs_nearest {x : ℚ} {k : ℤ} (le : (10 : ℚ) ^ k ≤ |x|)
    (grid : max (Int.log 10 |x|) minExponent + 1 - precision ≤ k) : (10 : ℚ) ^ k ≤ |nearest x| := by
  obtain ⟨n, whole⟩ := zpow_on_grid grid
  rw [abs_nearest, whole]
  refine mul_le_mul_of_nonneg_right ?_ (spacing_pos x).le
  have above : (n : ℚ) ≤ |x| / spacing x := by
    rw [le_div_iff₀ (spacing_pos x), ← whole]
    exact le
  exact_mod_cast le_roundHalfEven above

theorem limit_lt_zpow : limit < (10 : ℚ) ^ (maxExponent + 1) := by
  have split : (10 : ℚ) ^ (maxExponent + 1) = 10 ^ precision * 10 ^ (maxExponent + 1 - precision) := by
    rw [← zpow_natCast, ← zpow_add₀ (by norm_num)]
    congr 1
  rw [split, limit]
  exact mul_lt_mul_of_pos_right (by linarith) (zpow_pos (by norm_num) _)

theorem zpow_lt_limit : (10 : ℚ) ^ maxExponent < limit := by
  have split : (10 : ℚ) ^ maxExponent = 10 ^ 27 * 10 ^ (maxExponent + 1 - precision) := by
    rw [← zpow_natCast, ← zpow_add₀ (by norm_num)]
    congr 1
  rw [split, limit]
  exact mul_lt_mul_of_pos_right (by norm_num [precision]) (zpow_pos (by norm_num) _)

/-- Rounding leaves the range exactly from the limit on. -/
theorem zpow_le_nearest_iff (x : ℚ) : (10 : ℚ) ^ (maxExponent + 1) ≤ |nearest x| ↔ limit ≤ |x| := by
  have exponents : minExponent ≤ maxExponent := by decide
  rcases lt_trichotomy (Int.log 10 |x|) maxExponent with small | largest | huge
  · have bound : |x| ≤ (10 : ℚ) ^ maxExponent := by
      have next := (Int.lt_zpow_succ_log_self (b := 10) (by norm_num) |x|).le
      push_cast at next
      exact next.trans (zpow_le_zpow_right₀ (by norm_num) (by omega))
    have rounded := abs_nearest_le bound (by simp only [precision]; omega)
    have apart : (10 : ℚ) ^ maxExponent < 10 ^ (maxExponent + 1) :=
      zpow_lt_zpow_right₀ (by norm_num) (by omega)
    exact iff_of_false (by linarith) (by linarith [zpow_lt_limit])
  · have grid : spacing x = (10 : ℚ) ^ (maxExponent + 1 - precision) := by
      rw [spacing, largest, max_eq_left exponents]
    have top : (10 : ℚ) ^ (maxExponent + 1) = ((10 ^ precision : ℤ) : ℚ) * spacing x := by
      rw [grid]
      push_cast
      rw [← zpow_natCast, ← zpow_add₀ (by norm_num)]
      congr 1
    have tie := @le_roundHalfEven_iff (|x| / spacing x) (10 ^ precision) (by decide)
    rw [abs_nearest, top, mul_le_mul_iff_left₀ (spacing_pos x), Int.cast_le, tie,
      le_div_iff₀ (spacing_pos x), grid]
    push_cast
    rfl
  · have positive : 0 < |x| := by
      rcases (abs_nonneg x).eq_or_lt with zero | positive
      · rw [← zero] at huge
        simp only [Int.log_zero_right, maxExponent] at huge
        omega
      · exact positive
    have bound : (10 : ℚ) ^ Int.log 10 |x| ≤ |x| := by
      exact_mod_cast Int.zpow_log_le_self (b := 10) (by norm_num) positive
    have power : (10 : ℚ) ^ (maxExponent + 1) ≤ 10 ^ Int.log 10 |x| :=
      zpow_le_zpow_right₀ (by norm_num) (by omega)
    have rounded := le_abs_nearest bound (by simp only [precision]; omega)
    exact iff_of_true (power.trans rounded) (limit_lt_zpow.le.trans (power.trans bound))

theorem round_eq (x : ℚ) : round x = if |x| < limit then some (nearest x) else none := by
  have rounded : (if Int.log 10 |x| < minExponent then (roundHalfEven (x / tiny) : ℚ) * tiny
      else fix x) = nearest x := by
    split_ifs with subnormal
    · have grid : spacing x = tiny := by rw [spacing, max_eq_right subnormal.le, tiny]
      rw [nearest, grid]
    · have grid : spacing x = unit x := by rw [spacing, max_eq_left (not_lt.mp subnormal), unit]
      rw [nearest, grid, fix]
      split_ifs with zero
      · rw [zero, zero_div, ← Int.cast_zero, roundHalfEven_intCast, Int.cast_zero, zero_mul]
      · rfl
  have overflow : maxExponent < Int.log 10 |nearest x| ↔ limit ≤ |x| := by
    rw [← zpow_le_nearest_iff, ← Int.add_one_le_iff]
    rcases (abs_nonneg (nearest x)).eq_or_lt with zero | positive
    · rw [← zero, Int.log_zero_right]
      exact iff_of_false (by decide) (not_le.mpr (zpow_pos (by norm_num) _))
    · exact (Int.zpow_le_iff_le_log (b := 10) (by norm_num) positive).symm
  simp only [round, rounded, overflow]
  split_ifs with beyond within within
  · exact absurd within (not_lt.mpr beyond)
  · rfl
  · rfl
  · exact absurd (not_le.mp beyond) within

theorem round_of_lt_limit {x : ℚ} (within : |x| < limit) : round x = some (nearest x) :=
  (round_eq x).trans (if_pos within)

theorem round_of_limit_le {x : ℚ} (beyond : limit ≤ |x|) : round x = none :=
  (round_eq x).trans (if_neg (not_lt.mpr beyond))

theorem nearest_eq_iff (x : ℚ) : nearest x = x ↔ ∃ m : ℤ, x = m * spacing x := by
  constructor
  · intro same
    exact ⟨_, same.symm⟩
  · rintro ⟨m, multiple⟩
    have whole : x / spacing x = m := by
      rw [div_eq_iff (spacing_pos x).ne']
      exact multiple
    rw [nearest, whole, roundHalfEven_intCast]
    exact multiple.symm

/-- The number has a coefficient with so many digits. -/
def HasDigits (count : ℕ) (x : ℚ) : Prop := ∃ c e : ℤ, |c| < 10 ^ count ∧ x = c * (10 : ℚ) ^ e

theorem HasDigits.mono {count more : ℕ} {x : ℚ} (has : HasDigits count x) (le : count ≤ more) :
    HasDigits more x := by
  obtain ⟨c, e, few, shape⟩ := has
  exact ⟨c, e, few.trans_le (pow_le_pow_right₀ (by norm_num) le), shape⟩

/-- Moving the point keeps the digits. -/
theorem HasDigits.mul_zpow {count : ℕ} {x : ℚ} (has : HasDigits count x) (k : ℤ) :
    HasDigits count (x * (10 : ℚ) ^ k) := by
  obtain ⟨c, e, few, rfl⟩ := has
  exact ⟨c, e + k, few, by rw [mul_assoc, zpow_add₀ (by norm_num)]⟩

/-- A number in range is kept when it has no more digits than the context holds. -/
theorem round_eq_self {x : ℚ} (has : HasDigits precision x) (normal : (10 : ℚ) ^ minExponent ≤ |x|)
    (within : |x| < limit) : round x = some x := by
  obtain ⟨c, e, few, shape⟩ := has
  have positive : 0 < |x| := (zpow_pos (by norm_num) _).trans_le normal
  have low : minExponent ≤ Int.log 10 |x| :=
    (Int.zpow_le_iff_le_log (b := 10) (by norm_num) positive).mp (by exact_mod_cast normal)
  have high : Int.log 10 |x| < precision + e := by
    refine (Int.lt_zpow_iff_log_lt (b := 10) (by norm_num) positive).mp ?_
    rw [shape, abs_mul, abs_of_pos (zpow_pos (by norm_num : (0 : ℚ) < 10) e), Nat.cast_ofNat,
      zpow_add₀ (by norm_num), zpow_natCast]
    exact mul_lt_mul_of_pos_right (by exact_mod_cast few) (zpow_pos (by norm_num) _)
  obtain ⟨n, whole⟩ := @zpow_on_grid x e (by rw [max_eq_left low]; omega)
  rw [round_of_lt_limit within, (nearest_eq_iff x).mpr ⟨c * n, ?_⟩]
  rw [Int.cast_mul, mul_assoc, ← whole, ← shape]

/-- On a grid finer than the integers, an integer is an even multiple of the spacing. -/
theorem even_on_fine_grid {x : ℚ} (fine : max (Int.log 10 |x|) minExponent + 1 - precision < 0)
    (n : ℤ) : ∃ m : ℤ, m % 2 = 0 ∧ (n : ℚ) / spacing x = m := by
  obtain ⟨j, exponent⟩ : ∃ j, (-(max (Int.log 10 |x|) minExponent + 1 - precision)).toNat = j + 1 :=
    ⟨_, (Nat.succ_pred_eq_of_pos (by omega)).symm⟩
  have ten : (1 : ℚ) = ((10 : ℤ) ^ (j + 1) : ℤ) * spacing x := by
    rw [← exponent, spacing]
    push_cast
    rw [← zpow_natCast, Int.toNat_of_nonneg (by omega), ← zpow_add₀ (by norm_num)]
    norm_num
  refine ⟨n * 10 ^ (j + 1), ?_, ?_⟩
  · rw [pow_succ, ← mul_assoc]
    omega
  · rw [div_eq_iff (spacing_pos x).ne']
    push_cast at ten ⊢
    linear_combination (n : ℚ) * ten

/-- The result is an integer exactly when one is within half a spacing: integers within the grid are
even multiples of a spacing below one, so that ties go to them. -/
theorem nearest_integer_iff (x : ℚ) :
    (∃ n : ℤ, nearest x = n) ↔ ∃ n : ℤ, |x - n| ≤ spacing x / 2 := by
  have positive := spacing_pos x
  constructor
  · rintro ⟨n, same⟩
    refine ⟨n, ?_⟩
    have near := roundHalfEven_near (x / spacing x)
    have scaled : x - n = (x / spacing x - roundHalfEven (x / spacing x)) * spacing x := by
      rw [sub_mul, div_mul_cancel₀ _ positive.ne', ← same, nearest]
    rw [scaled, abs_mul, abs_of_pos positive]
    linarith [mul_le_mul_of_nonneg_right near positive.le]
  · rintro ⟨n, near⟩
    rcases le_or_gt 0 (max (Int.log 10 |x|) minExponent + 1 - precision) with coarse | fine
    · refine ⟨roundHalfEven (x / spacing x) *
        10 ^ (max (Int.log 10 |x|) minExponent + 1 - precision).toNat, ?_⟩
      rw [nearest, spacing]
      push_cast
      rw [← zpow_natCast (10 : ℚ) (Int.toNat _), Int.toNat_of_nonneg coarse]
    · obtain ⟨count, even, quotient⟩ := even_on_fine_grid fine n
      have within : |x / spacing x - count| ≤ 1 / 2 := by
        rw [← quotient, ← sub_div, abs_div, abs_of_pos positive, div_le_iff₀ positive]
        linarith
      have bounds := abs_le.mp within
      have lower := (le_roundHalfEven_iff even).mpr (by linarith : _ ≤ x / spacing x)
      have upper := (le_roundHalfEven_iff (by omega : -count % 2 = 0)).mpr
        (by push_cast; linarith : _ ≤ -(x / spacing x))
      rw [roundHalfEven_neg] at upper
      refine ⟨n, ?_⟩
      rw [nearest, le_antisymm (by omega) lower, ← quotient, div_mul_cancel₀ _ positive.ne']

end Decimal
