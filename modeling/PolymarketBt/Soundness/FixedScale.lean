import PolymarketBt.Model.Clock
import PolymarketBt.ToMathlib.DecimalGrid

/-! # Exactness of fixed-scale parsing

The conversion multiplies by the scale under the context and compares the product with its own
rounding to an integer. The product has been rounded to 28 significant digits by then, so the
comparison sees the digits beyond the scale only where that rounding keeps them.
-/

namespace PolymarketBt

/-- The integer that the product is, or a precision error when it is none. -/
def ScaledExactly (product : ℚ) (result : Except ReadError ℤ) : Prop :=
  (∃ n : ℤ, result = .ok n ∧ product = n) ∨
    (∃ text, result = .error ⟨.precisionError, text⟩) ∧ ∀ n : ℤ, product ≠ n

/-- The product neither overflows nor loses digits on the way to an integer: it has no more digits
than the context keeps, or every integer is more than half of its last kept digit away. -/
def ProductKept (product : ℚ) : Prop :=
  |product| < Decimal.limit ∧
    ((∃ m : ℤ, product = m * Decimal.spacing product) ∨
      ∀ n : ℤ, Decimal.spacing product / 2 < |product - n|)

theorem scaleDecimal_of_lt_limit {value : ℚ} {scale : ℤ} (shown field : String)
    (within : |value * scale| < Decimal.limit) :
    scaleDecimal (.finite value) shown scale field =
      if (Decimal.nearest (value * scale)).den = 1 then .ok (Decimal.nearest (value * scale)).num
      else .error ⟨.precisionError,
        s!"{field}={shown} exceeds supported precision for scale {scale}"⟩ := by
  have rounded := Decimal.round_of_lt_limit within
  unfold scaleDecimal
  simp only [rounded]

theorem scaleDecimal_of_limit_le {value : ℚ} {scale : ℤ} (shown field : String)
    (beyond : Decimal.limit ≤ |value * scale|) :
    scaleDecimal (.finite value) shown scale field =
      .error ⟨.decimalOverflow, "decimal overflow"⟩ := by
  have rounded := Decimal.round_of_limit_le beyond
  unfold scaleDecimal
  simp only [rounded]

theorem den_eq_one_iff (x : ℚ) : x.den = 1 ↔ ∃ n : ℤ, x = n :=
  ⟨fun whole => ⟨x.num, (Rat.coe_int_num_of_den_eq_one whole).symm⟩,
    fun ⟨n, same⟩ => by rw [same, Rat.den_intCast]⟩

/-- An integral product rounds to an integer. -/
theorem nearest_of_integer (n : ℤ) : ∃ m : ℤ, Decimal.nearest n = m :=
  (Decimal.nearest_integer_iff n).mpr ⟨n, by
    rw [sub_self, abs_zero]
    linarith [Decimal.spacing_pos (n : ℚ)]⟩

theorem scaledExactly_scaleDecimal_iff (value : ℚ) (shown : String) (scale : ℤ) (field : String) :
    ScaledExactly (value * scale) (scaleDecimal (.finite value) shown scale field) ↔
      ProductKept (value * scale) := by
  rcases lt_or_ge |value * scale| Decimal.limit with within | beyond
  · rw [scaleDecimal_of_lt_limit shown field within, ScaledExactly, ProductKept]
    generalize value * scale = product at within ⊢
    have integer := Decimal.nearest_integer_iff product
    have representable := Decimal.nearest_eq_iff product
    split_ifs with integral
    · have whole := Rat.coe_int_num_of_den_eq_one integral
      have near := integer.mp ⟨_, whole.symm⟩
      constructor
      · rintro (⟨n, same, product_eq⟩ | ⟨⟨text, impossible⟩, _⟩)
        · cases same
          exact ⟨within, .inl (representable.mp (whole.symm.trans product_eq.symm))⟩
        · cases impossible
      · rintro ⟨_, multiple | apart⟩
        · exact .inl ⟨_, rfl, by rw [whole, representable.mpr multiple]⟩
        · obtain ⟨n, close⟩ := near
          exact absurd (apart n) (not_lt.mpr close)
    · have fraction : ¬∃ n : ℤ, Decimal.nearest product = n := mt (den_eq_one_iff _).mpr integral
      have apart : ∀ n : ℤ, Decimal.spacing product / 2 < |product - n| := by
        intro n
        by_contra! close
        exact fraction (integer.mpr ⟨n, close⟩)
      refine iff_of_true (.inr ⟨⟨_, rfl⟩, ?_⟩) ⟨within, .inr apart⟩
      rintro n rfl
      exact fraction (nearest_of_integer n)
  · rw [scaleDecimal_of_limit_le shown field beyond]
    refine iff_of_false ?_ fun kept => absurd kept.1 (not_lt.mpr beyond)
    rintro (⟨n, impossible, _⟩ | ⟨⟨text, impossible⟩, _⟩) <;> cases impossible

/-- A decimal, or the text of one, is converted exactly or refused for its precision, exactly when
the product with the scale survives the rounding of the context. -/
theorem decimalToScaled_exact_iff (value : ℚ) (scale : ℤ) (field : String) :
    (∀ shown, ScaledExactly (value * scale) (scaleDecimal (.finite value) shown scale field) ↔
      ProductKept (value * scale)) ∧
    ∀ (library : Library) (text : String), library.decimal text = some (.finite value) →
      (ScaledExactly (value * scale) (decimalToScaled library text scale field) ↔
        ProductKept (value * scale)) := by
  refine ⟨fun shown => scaledExactly_scaleDecimal_iff value shown scale field, ?_⟩
  intro library text reads
  rw [decimalToScaled, reads]
  exact scaledExactly_scaleDecimal_iff value _ scale field

/-- A reader of two texts. -/
def twoTexts : Library where
  loads text := .error ⟨.valueError, text⟩
  render _ := ""
  repr
    | .text text => "'" ++ text ++ "'"
    | _ => ""
  decimal
    | "0.531" => some (.finite (531 / 1000))
    | "0.99999999999999999999999999999999" => some (.finite (1 - 1 / 10 ^ 32))
    | _ => none
  looksNumeric text := text.all fun c => c.isDigit || c = '.'
  isoparse text := .error ⟨.valueError, text⟩
  upper := id
  uuid5 := id

theorem decimalToScaled_exact_iff_cents :
    twoTexts.decimal "0.531" = some (.finite (531 / 1000)) ∧
    ScaledExactly (531 / 1000 * (1000000 : ℤ)) (decimalToScaled twoTexts "0.531" 1000000 "price") := by
  refine ⟨rfl, ((decimalToScaled_exact_iff _ _ _).2 twoTexts "0.531" rfl).mpr ⟨?_, .inl ?_⟩⟩
  · have size : |531 / 1000 * ((1000000 : ℤ) : ℚ)| ≤ (10 : ℚ) ^ (6 : ℤ) := by norm_num
    have largest : (10 : ℚ) ^ (6 : ℤ) ≤ 10 ^ Decimal.maxExponent :=
      zpow_le_zpow_right₀ (by norm_num) (by decide)
    exact (size.trans largest).trans_lt Decimal.zpow_lt_limit
  · exact (Decimal.nearest_eq_iff _).mp (by decide +kernel)

/-- A text of 32 nines becomes the whole unit. -/
theorem nines_rounded_up :
    twoTexts.decimal "0.99999999999999999999999999999999" = some (.finite (1 - 1 / 10 ^ 32)) ∧
    decimalToScaled twoTexts "0.99999999999999999999999999999999" 1000000 "price" = .ok 1000000 ∧
    ¬ScaledExactly ((1 - 1 / 10 ^ 32) * (1000000 : ℤ))
      (decimalToScaled twoTexts "0.99999999999999999999999999999999" 1000000 "price") := by
  have converted : decimalToScaled twoTexts "0.99999999999999999999999999999999" 1000000 "price" =
      .ok 1000000 := by decide +kernel
  refine ⟨rfl, converted, ?_⟩
  rw [converted]
  rintro (⟨n, same, product⟩ | ⟨⟨text, impossible⟩, _⟩)
  · cases same
    norm_num at product
  · cases impossible

end PolymarketBt
