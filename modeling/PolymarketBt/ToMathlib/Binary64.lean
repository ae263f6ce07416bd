import PolymarketBt.ToMathlib.Decimal

/-! # Binary floating-point numbers and their texts

A finite double is its exact value, a rational number. Arithmetic rounds an exact result to the
nearest double, ties to the even one. The texts are the fixed-point and the general format of a
number that is not negative; both round the exact value half to even.
-/

namespace Binary64

open Decimal (roundHalfEven)

/-- The spacing of the doubles around a number, with 53 significant bits above the smallest one. -/
def spacing (x : ℚ) : ℚ := (2 : ℚ) ^ max (Int.log 2 |x| - 52) (-1074)

/-- The double nearest to a number below the overflow threshold. -/
def nearest (x : ℚ) : ℚ := if x = 0 then 0 else roundHalfEven (x / spacing x) * spacing x

/-- An integer of 53 bits times a power of two is a double. -/
theorem nearest_exact {n : ℤ} (k : ℕ) (fits : |n| < 2 ^ 53) :
    nearest ((n : ℚ) * 2 ^ k) = n * 2 ^ k := by
  rcases eq_or_ne n 0 with rfl | some
  · simp [nearest]
  have nonzero : (n : ℚ) * 2 ^ k ≠ 0 := mul_ne_zero (by exact_mod_cast some) (by positivity)
  have positive : 0 < |(n : ℚ) * 2 ^ k| := abs_pos.mpr nonzero
  have exponent : Int.log 2 |(n : ℚ) * 2 ^ k| < 53 + k := by
    refine (Int.lt_zpow_iff_log_lt (by norm_num) positive).mp ?_
    rw [abs_mul, abs_of_pos (by positivity : (0 : ℚ) < 2 ^ k), Nat.cast_ofNat,
      zpow_add₀ (by norm_num), zpow_natCast]
    exact mul_lt_mul_of_pos_right (by exact_mod_cast fits) (by positivity)
  -- The spacing divides the power of two.
  obtain ⟨e, spaced, below⟩ : ∃ e : ℤ, spacing ((n : ℚ) * 2 ^ k) = 2 ^ e ∧ e ≤ k :=
    ⟨_, rfl, by omega⟩
  have whole : (2 : ℚ) ^ k = ((2 ^ (k - e).toNat : ℤ) : ℚ) * 2 ^ e := by
    push_cast
    rw [← zpow_natCast, ← zpow_natCast, Int.toNat_of_nonneg (by omega), ← zpow_add₀ (by norm_num)]
    congr 1
    ring
  have apart : (2 : ℚ) ^ e ≠ 0 := zpow_ne_zero _ (by norm_num)
  have count : (n : ℚ) * 2 ^ k / 2 ^ e = ((n * 2 ^ (k - e).toNat : ℤ) : ℚ) := by
    rw [div_eq_iff apart, whole]
    push_cast
    ring
  rw [nearest, if_neg nonzero, spaced, count, Decimal.roundHalfEven_intCast, ← count,
    div_mul_cancel₀ _ apart]

/-- A decimal numeral of at least `width` digits. -/
def numeral (width : ℕ) (n : ℕ) : List Char :=
  let digits := Nat.toDigits 10 n
  List.replicate (width - digits.length) '0' ++ digits

/-- Two digits after the point. -/
def fixedText (x : ℚ) : String :=
  let hundredths := (roundHalfEven (x * 100)).toNat
  String.ofList (numeral 1 (hundredths / 100) ++ '.' :: numeral 2 (hundredths % 100))

/-- A whole part and a fraction, whose trailing zeros and then the point are dropped. -/
def pointed (whole fraction : List Char) : List Char :=
  let kept := (fraction.reverse.dropWhile (· = '0')).reverse
  if kept = [] then whole else whole ++ '.' :: kept

/-- Six significant digits and the exponent of the first one. -/
def sixDigits (x : ℚ) : ℕ × ℤ :=
  let exponent := Int.log 10 x
  let digits := (roundHalfEven (x / (10 : ℚ) ^ (exponent - 5))).toNat
  if digits = 1000000 then (100000, exponent + 1) else (digits, exponent)

/-- Six significant digits at most, in positional notation where the exponent is moderate. -/
def generalText (x : ℚ) : String :=
  if x = 0 then "0"
  else
    let (digits, exponent) := sixDigits x
    let digits := numeral 6 digits
    if 0 ≤ exponent ∧ exponent < 6 then
      String.ofList (pointed (digits.take (exponent.toNat + 1)) (digits.drop (exponent.toNat + 1)))
    else if -4 ≤ exponent ∧ exponent < 0 then
      String.ofList (pointed ['0'] (List.replicate ((-exponent).toNat - 1) '0' ++ digits))
    else
      String.ofList (pointed (digits.take 1) (digits.drop 1) ++ 'e' ::
        (if exponent < 0 then '-' else '+') :: numeral 2 exponent.natAbs)

example : generalText (27 / 2) = "13.5" := by decide +kernel
example : generalText (nearest (1 / 10)) = "0.1" ∧ generalText 1234567 = "1.23457e+06" := by
  decide +kernel
/-- The double nearest to 0.805 lies above it. -/
example : fixedText (nearest (805 / 1000)) = "0.81" ∧ fixedText (805 / 1000) = "0.80" := by
  decide +kernel

end Binary64
