import PolymarketBt.Model.Clock
import PolymarketBt.ToMathlib.DecimalNumeral

/-! # The units of a numeric timestamp

The size of a number selects the unit it is read in. For the instants between `10 ^ 17` and `10 ^ 20`
nanoseconds, the numbers of seconds, of ms, of us and of ns fill four adjacent ranges of sizes, and
the thresholds are their common ends. A number with no more digits than the context holds is then
multiplied exactly, so that what is left below a nanosecond is seen.
-/

namespace PolymarketBt

open Decimal

inductive TimestampUnit where
  | seconds
  | milliseconds
  | microseconds
  | nanoseconds
deriving DecidableEq, Repr

namespace TimestampUnit

/-- The nanoseconds in a unit are this power of ten. -/
def exponent : TimestampUnit → ℕ
  | seconds => 9
  | milliseconds => 6
  | microseconds => 3
  | nanoseconds => 0

def factor (unit : TimestampUnit) : ℚ := 10 ^ unit.exponent

theorem one_le_factor (unit : TimestampUnit) : 1 ≤ unit.factor := one_le_pow₀ (by norm_num)

theorem factor_le (unit : TimestampUnit) : unit.factor ≤ 10 ^ 9 :=
  pow_le_pow_right₀ (by norm_num) (by cases unit <;> decide)

end TimestampUnit

/-- A value of the parser's type that writes a number: a plain numeral, an integer or a decimal. -/
inductive Encodes : JsonValue → ℚ → Prop where
  | text (numeral : Numeral) : Encodes (.text numeral.text) numeral.value
  | int (n : ℤ) : Encodes (.int n) n
  | decimal (q : ℚ) : Encodes (.decimal q) q

/-- What the standard library does with numbers that are not negative: a plain numeral looks numeric
and is read exactly, and so are the texts of an integer, below the limit on its digits, and of a
decimal. -/
structure Library.ReadsNumbers (library : Library) : Prop where
  looksNumeric : ∀ numeral : Numeral, library.looksNumeric numeral.text = true
  numeral : ∀ numeral : Numeral, library.decimal numeral.text = some (.finite numeral.value)
  int : ∀ n : ℤ, 0 ≤ n → n < 10 ^ 20 → library.decimal (library.render (.int n)) = some (.finite n)
  decimal : ∀ (q : ℚ) (count : ℕ), 0 ≤ q → HasDigits count q →
    library.decimal (library.render (.decimal q)) = some (.finite q)

/-! ## The guess of the unit -/

section Instant

variable {t x : ℚ} {unit : TimestampUnit}

/-- The number that writes an instant of the range in some unit. -/
theorem encoded_bounds (low : 10 ^ 17 ≤ t) (high : t < 10 ^ 20) (encodes : x * unit.factor = t) :
    10 ^ 8 ≤ x ∧ x < 10 ^ 20 := by
  have positive : 0 < x := by
    refine pos_of_mul_pos_left (encodes.symm ▸ ?_) (zero_le_one.trans unit.one_le_factor)
    linarith
  constructor
  · by_contra! small
    have product : x * unit.factor < 10 ^ 8 * 10 ^ 9 :=
      mul_lt_mul small unit.factor_le (by linarith [unit.one_le_factor]) (by norm_num)
    linarith
  · have grown : x ≤ x * unit.factor := le_mul_of_one_le_right positive.le unit.one_le_factor
    linarith

/-- The size of the number selects the unit it is written in. -/
theorem timestampMultiplier_eq (low : 10 ^ 17 ≤ t) (high : t < 10 ^ 20)
    (encodes : x * unit.factor = t) : timestampMultiplier x = unit.factor := by
  unfold timestampMultiplier
  cases unit with
  | seconds =>
    change x * 10 ^ 9 = t at encodes
    rw [if_pos (by linarith)]
    norm_num [TimestampUnit.factor, TimestampUnit.exponent]
  | milliseconds =>
    change x * 10 ^ 6 = t at encodes
    rw [if_neg (by linarith), if_pos (by linarith)]
    norm_num [TimestampUnit.factor, TimestampUnit.exponent]
  | microseconds =>
    change x * 10 ^ 3 = t at encodes
    rw [if_neg (by linarith), if_neg (by linarith), if_pos (by linarith)]
    norm_num [TimestampUnit.factor, TimestampUnit.exponent]
  | nanoseconds =>
    change x * 10 ^ 0 = t at encodes
    rw [if_neg (by linarith), if_neg (by linarith), if_neg (by linarith)]
    norm_num [TimestampUnit.factor, TimestampUnit.exponent]

/-! ## Exact arithmetic -/

/-- Numbers of the size of a timestamp are far from the limits of the exponents. -/
theorem round_of_bounds (low : 1 ≤ x) (high : x < 10 ^ 20) (digits : HasDigits precision x) :
    Decimal.round x = some x := by
  have absolute : |x| = x := abs_of_nonneg (by linarith)
  refine round_eq_self digits ?_ ?_
  · rw [absolute]
    exact (zpow_le_one_of_nonpos₀ (by norm_num) (by decide)).trans low
  · have within : (10 : ℚ) ^ (20 : ℤ) ≤ 10 ^ maxExponent :=
      zpow_le_zpow_right₀ (by norm_num) (by decide)
    rw [absolute]
    exact (high.trans_le (by exact_mod_cast within)).trans zpow_lt_limit

/-- An instant of the range is seen exactly, whatever it is written in. -/
theorem numericTimestampNs_of_encoded (low : 10 ^ 17 ≤ t) (high : t < 10 ^ 20)
    (encodes : x * unit.factor = t) (digits : HasDigits precision x) (shown : String) :
    numericTimestampNs (.finite x) shown =
      if t.den = 1 then .ok t.num
      else .error ⟨.precisionError, s!"timestamp exceeds nanosecond precision: {shown}"⟩ := by
  have bounds := encoded_bounds low high encodes
  have absolute : |x| = x := abs_of_nonneg (by linarith)
  have kept : Decimal.round x = some x := round_of_bounds (by linarith) bounds.2 digits
  have moved : HasDigits precision t := by
    rw [← encodes, TimestampUnit.factor, ← zpow_natCast]
    exact digits.mul_zpow _
  have result : Decimal.round t = some t := round_of_bounds (by linarith) high moved
  unfold numericTimestampNs
  simp only
  rw [absolute, kept]
  simp only
  rw [timestampMultiplier_eq low high encodes, encodes, result]

end Instant

/-! ## Reading a value -/

theorem parseTimestampNs_encoded {library : Library} (reads : library.ReadsNumbers)
    {value : JsonValue} {x : ℚ} {count : ℕ} (written : Encodes value x) (nonneg : 0 ≤ x)
    (bound : x < 10 ^ 20) (digits : HasDigits count x) :
    parseTimestampNs library value =
      (numericTimestampNs (.finite x) (library.repr value)).map some := by
  cases written with
  | text numeral =>
    simp only [parseTimestampNs, Library.str, if_neg numeral.text_ne_empty,
      reads.looksNumeric numeral, ↓reduceIte, reads.numeral numeral]
  | int n =>
    have read := reads.int n (by exact_mod_cast nonneg) (by exact_mod_cast bound)
    simp only [parseTimestampNs, Library.str, read]
  | decimal =>
    simp only [parseTimestampNs, Library.str, reads.decimal x count nonneg digits]

/-- The units of timestamps agree: every exact plain encoding of an instant of the range is read as
that instant, the unit being the one it is written in, and an encoding of what lies between two
nanoseconds is refused. -/
theorem parseTimestampNs_units (library : Library) (reads : library.ReadsNumbers) :
    (∀ n : ℤ, 10 ^ 17 ≤ n → n < 10 ^ 20 → ∀ (unit : TimestampUnit) (x : ℚ), x * unit.factor = n →
      ∀ value, Encodes value x →
        timestampMultiplier |x| = unit.factor ∧ parseTimestampNs library value = .ok (some n)) ∧
    ∀ t : ℚ, 10 ^ 17 ≤ t → t < 10 ^ 20 → (∀ n : ℤ, t ≠ n) →
      ∀ (unit : TimestampUnit) (x : ℚ), x * unit.factor = t → HasDigits 28 x →
        ∀ value, Encodes value x →
          parseTimestampNs library value = .error ⟨.precisionError,
            s!"timestamp exceeds nanosecond precision: {library.repr value}"⟩ := by
  constructor
  · intro n low high unit x encodes value written
    have low' : (10 : ℚ) ^ 17 ≤ n := by exact_mod_cast low
    have high' : (n : ℚ) < 10 ^ 20 := by exact_mod_cast high
    have bounds := encoded_bounds low' high' encodes
    have digits : HasDigits precision x := by
      refine ⟨n, -unit.exponent, ?_, ?_⟩
      · rw [abs_of_nonneg (by linarith)]
        exact high.trans (by decide)
      · rw [← encodes, TimestampUnit.factor, zpow_neg, zpow_natCast,
          mul_inv_cancel_right₀ (by positivity)]
    refine ⟨?_, ?_⟩
    · rw [abs_of_nonneg (by linarith), timestampMultiplier_eq low' high' encodes]
    · rw [parseTimestampNs_encoded reads written (by linarith) bounds.2 digits,
        numericTimestampNs_of_encoded low' high' encodes digits]
      rfl
  · intro t low high between unit x encodes digits value written
    have bounds := encoded_bounds low high encodes
    have fraction : t.den ≠ 1 := fun whole => between t.num (Rat.den_eq_one_iff t |>.mp whole).symm
    rw [parseTimestampNs_encoded reads written (by linarith) bounds.2 digits,
      numericTimestampNs_of_encoded low high encodes digits, if_neg fraction]
    rfl

/-! ## A library of plain numerals -/

/-- Numbers are written as plain numerals, and these are all that is read. -/
def plainLibrary : Library where
  loads := fun _ => .error ⟨.valueError, "not a JSON text"⟩
  render
    | .int n => (Numeral.ofRat n).text
    | .decimal q => (Numeral.ofRat q).text
    | _ => ""
  repr
    | .text value => s!"'{value}'"
    | _ => ""
  decimal := fun text => (Numeral.read text).map fun numeral => .finite numeral.value
  looksNumeric := Numeral.looksPlain
  isoparse := fun _ => .error ⟨.valueError, "not an ISO instant"⟩
  upper := id
  uuid5 := id

theorem plainLibrary_readsNumbers : plainLibrary.ReadsNumbers where
  looksNumeric := Numeral.looksPlain_text
  numeral := fun numeral => by simp only [plainLibrary, Numeral.read_text, Option.map_some]
  int := fun n nonneg bound => by
    have digits : HasDigits 20 (n : ℚ) :=
      ⟨n, 0, by rwa [abs_of_nonneg nonneg], by rw [zpow_zero, mul_one]⟩
    simp only [plainLibrary, Numeral.read_text, Option.map_some,
      Numeral.value_ofRat (Int.cast_nonneg nonneg) digits]
  decimal := fun q count nonneg digits => by
    simp only [plainLibrary, Numeral.read_text, Option.map_some, Numeral.value_ofRat nonneg digits]

/-- A number of seconds, a number of ms, and a text with a tenth of a nanosecond. -/
theorem parseTimestampNs_units_plain :
    parseTimestampNs plainLibrary (.text "1785525657") = .ok (some 1785525657000000000) ∧
      parseTimestampNs plainLibrary (.int 1785525657000) = .ok (some 1785525657000000000) ∧
      parseTimestampNs plainLibrary (.text "1785525657.0000000001") = .error ⟨.precisionError,
        "timestamp exceeds nanosecond precision: '1785525657.0000000001'"⟩ := by
  have units := parseTimestampNs_units plainLibrary plainLibrary_readsNumbers
  let seconds : Numeral := ⟨[1, 7, 8, 5, 5, 2, 5, 6, 5, 7], none, by decide⟩
  let finer : Numeral := ⟨[1, 7, 8, 5, 5, 2, 5, 6, 5, 7], some [0, 0, 0, 0, 0, 0, 0, 0, 0, 1],
    by decide⟩
  have value : seconds.value = 1785525657 := by
    simp [seconds, Numeral.value, Numeral.digits, Numeral.places, digitsValue, Nat.ofDigits]
  have finerValue : finer.value = 17855256570000000001 / 10 ^ 10 := by
    simp [finer, Numeral.value, Numeral.digits, Numeral.places, digitsValue, Nat.ofDigits]
  refine ⟨?_, ?_, ?_⟩
  · refine (units.1 1785525657000000000 (by decide) (by decide) .seconds seconds.value ?_ _
      (.text seconds)).2
    rw [value]
    norm_num [TimestampUnit.factor, TimestampUnit.exponent]
  · refine (units.1 1785525657000000000 (by decide) (by decide) .milliseconds _ ?_ _ (.int _)).2
    norm_num [TimestampUnit.factor, TimestampUnit.exponent]
  · refine units.2 (finer.value * TimestampUnit.factor .seconds) ?_ ?_ ?_ .seconds finer.value rfl
      (finer.value_hasDigits.mono (by decide)) _ (.text finer)
    all_goals
      rw [finerValue]
      norm_num [TimestampUnit.factor, TimestampUnit.exponent]
    intro n same
    have scaled : (17855256570000000001 : ℤ) = 10 * n := by
      have : (17855256570000000001 : ℚ) = 10 * n := by linarith
      exact_mod_cast this
    omega

end PolymarketBt
