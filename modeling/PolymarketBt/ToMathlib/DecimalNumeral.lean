import Mathlib.Data.Nat.Digits.Lemmas
import Mathlib.Data.Nat.Log
import PolymarketBt.ToMathlib.DecimalGrid

/-! # Plain decimal numerals

A numeral is a sequence of digits with at most one point among them, and neither a sign nor an
exponent. Reading its text gives the numeral back. Every number with finitely many decimals that is
not negative has a numeral.
-/

namespace Decimal

/-- The number that a sequence of digits writes. -/
def digitsValue (digits : List (Fin 10)) : ℕ := Nat.ofDigits 10 (digits.reverse.map Fin.val)

@[simp] theorem digitsValue_nil : digitsValue [] = 0 := rfl

theorem digitsValue_concat (digits : List (Fin 10)) (digit : Fin 10) :
    digitsValue (digits ++ [digit]) = 10 * digitsValue digits + digit := by
  simp [digitsValue, Nat.ofDigits_cons, add_comm]

theorem digitsValue_append (digits more : List (Fin 10)) :
    digitsValue (digits ++ more) = digitsValue digits * 10 ^ more.length + digitsValue more := by
  unfold digitsValue
  rw [List.reverse_append, List.map_append, Nat.ofDigits_append, List.length_map,
    List.length_reverse]
  ring

theorem digitsValue_lt (digits : List (Fin 10)) : digitsValue digits < 10 ^ digits.length := by
  have bound := @Nat.ofDigits_lt_base_pow_length 10 (digits.reverse.map Fin.val) (by norm_num)
    fun digit member => ?_
  · simpa [digitsValue] using bound
  · obtain ⟨own, -, rfl⟩ := List.mem_map.mp member
    exact own.isLt

/-- The last digits of a number, as many as asked for. -/
def lastDigits : ℕ → ℕ → List (Fin 10)
  | 0, _ => []
  | count + 1, n => lastDigits count (n / 10) ++ [Fin.ofNat 10 n]

@[simp] theorem length_lastDigits (count n : ℕ) : (lastDigits count n).length = count := by
  induction count generalizing n with
  | zero => rfl
  | succ count ih => rw [lastDigits, List.length_append, ih, List.length_singleton]

theorem digitsValue_lastDigits (count n : ℕ) : digitsValue (lastDigits count n) = n % 10 ^ count := by
  induction count generalizing n with
  | zero => simp [lastDigits, Nat.mod_one]
  | succ count ih =>
    rw [lastDigits, digitsValue_concat, ih, Fin.val_ofNat, pow_succ', Nat.mod_mul]
    omega

/-- All digits of a number, and one for zero. -/
def allDigits (n : ℕ) : List (Fin 10) := lastDigits (Nat.log 10 n + 1) n

theorem digitsValue_allDigits (n : ℕ) : digitsValue (allDigits n) = n := by
  rw [allDigits, digitsValue_lastDigits]
  exact Nat.mod_eq_of_lt (Nat.lt_pow_succ_log_self (by norm_num) n)

/-! ## Numerals -/

/-- Digits, and after a point more of them. -/
structure Numeral where
  whole : List (Fin 10)
  fraction : Option (List (Fin 10))
  nonempty : whole ++ fraction.getD [] ≠ []
deriving DecidableEq

namespace Numeral

variable (numeral : Numeral)

def digits : List (Fin 10) := numeral.whole ++ numeral.fraction.getD []

def places : ℕ := (numeral.fraction.getD []).length

def value : ℚ := digitsValue numeral.digits / 10 ^ numeral.places

def digitChar (digit : Fin 10) : Char := Nat.digitChar digit

/-- The characters from the point on. -/
def tailChars : Option (List (Fin 10)) → List Char
  | none => []
  | some fraction => '.' :: fraction.map digitChar

def chars : List Char := numeral.whole.map digitChar ++ tailChars numeral.fraction

def text : String := String.ofList numeral.chars

/-- A number of digits suffices for the value of a numeral that has no more. -/
theorem value_hasDigits : HasDigits numeral.digits.length numeral.value := by
  refine ⟨digitsValue numeral.digits, -numeral.places, ?_, ?_⟩
  · exact_mod_cast digitsValue_lt numeral.digits
  · rw [value, zpow_neg, zpow_natCast, div_eq_mul_inv, Int.cast_natCast]

/-! ### Reading a text -/

def readDigit (char : Char) : Option (Fin 10) :=
  if char.isDigit then some (Fin.ofNat 10 (char.toNat - '0'.toNat)) else none

def readTail : List Char → Option (Option (List (Fin 10)))
  | [] => some none
  | _ :: fraction => (fraction.mapM readDigit).map some

/-- The numeral of a text, if it is one. -/
def read (text : String) : Option Numeral := do
  let whole ← (text.toList.takeWhile (· ≠ '.')).mapM readDigit
  let fraction ← readTail (text.toList.dropWhile (· ≠ '.'))
  if nonempty : whole ++ fraction.getD [] ≠ [] then some ⟨whole, fraction, nonempty⟩ else none

/-- The text without one point is a text of digits. -/
def looksPlain (text : String) : Bool :=
  let chars := text.toList.erase '.'
  !chars.isEmpty && chars.all Char.isDigit

theorem isDigit_digitChar : ∀ digit, (digitChar digit).isDigit = true := by decide

theorem digitChar_ne_point : ∀ digit, digitChar digit ≠ '.' := by decide

theorem readDigit_digitChar : ∀ digit, readDigit (digitChar digit) = some digit := by decide

theorem mapM_readDigit (digits : List (Fin 10)) :
    (digits.map digitChar).mapM readDigit = some digits := by
  induction digits with
  | nil => rfl
  | cons digit rest ih => rw [List.map_cons, List.mapM_cons, readDigit_digitChar, ih]; rfl

theorem point_notMem (digits : List (Fin 10)) : '.' ∉ digits.map digitChar := by
  intro member
  obtain ⟨digit, -, same⟩ := List.mem_map.mp member
  exact digitChar_ne_point digit same

theorem readTail_tailChars (fraction : Option (List (Fin 10))) :
    readTail (tailChars fraction) = some fraction := by
  cases fraction with
  | none => rfl
  | some fraction => rw [tailChars, readTail, mapM_readDigit]; rfl

theorem split_chars : numeral.chars.takeWhile (· ≠ '.') = numeral.whole.map digitChar ∧
    numeral.chars.dropWhile (· ≠ '.') = tailChars numeral.fraction := by
  have digits : ∀ char ∈ numeral.whole.map digitChar, decide (char ≠ '.') = true := by
    intro char member
    exact decide_eq_true fun same => point_notMem numeral.whole (same ▸ member)
  unfold chars
  rw [List.takeWhile_append_of_pos digits, List.dropWhile_append_of_pos digits]
  cases numeral.fraction with
  | none => exact ⟨List.append_nil _, rfl⟩
  | some fraction => exact ⟨by simp [tailChars], by simp [tailChars]⟩

theorem read_text : read numeral.text = some numeral := by
  have split := numeral.split_chars
  unfold read text
  rw [String.toList_ofList, split.1, split.2, mapM_readDigit, readTail_tailChars]
  exact dif_pos numeral.nonempty

theorem looksPlain_text : looksPlain numeral.text = true := by
  have erased : numeral.chars.erase '.' = numeral.digits.map digitChar := by
    unfold chars digits
    rw [List.erase_append_right _ (point_notMem numeral.whole), List.map_append]
    cases numeral.fraction with
    | none => rfl
    | some fraction => exact congrArg _ (List.erase_cons_head ..)
  unfold looksPlain text
  rw [String.toList_ofList, erased]
  simp only [Bool.and_eq_true, Bool.not_eq_true', List.isEmpty_eq_false_iff, List.all_eq_true]
  refine ⟨fun empty => numeral.nonempty (List.map_eq_nil_iff.mp empty), fun char member => ?_⟩
  obtain ⟨digit, -, rfl⟩ := List.mem_map.mp member
  exact isDigit_digitChar digit

theorem text_ne_empty : numeral.text ≠ "" := by
  intro empty
  have plain := numeral.looksPlain_text
  rw [empty] at plain
  cases plain

/-! ### Writing a number -/

/-- The numeral with a given number of decimals. -/
def ofScaled (n places : ℕ) : Numeral where
  whole := allDigits (n / 10 ^ places)
  fraction := if places = 0 then none else some (lastDigits places n)
  nonempty := fun empty => by
    have none := List.length_eq_zero_iff.mpr (List.append_eq_nil_iff.mp empty).1
    simp [allDigits] at none

theorem value_ofScaled (n places : ℕ) : (ofScaled n places).value = n / 10 ^ places := by
  have fraction : (ofScaled n places).fraction.getD [] = lastDigits places n := by
    unfold ofScaled
    dsimp only
    split_ifs with integer
    · rw [integer]
      rfl
    · rfl
  rw [value, Numeral.digits, Numeral.places]
  rw [fraction, digitsValue_append, length_lastDigits, digitsValue_lastDigits]
  change ((digitsValue (allDigits (n / 10 ^ places)) * 10 ^ places + n % 10 ^ places : ℕ) : ℚ) / _ = _
  rw [digitsValue_allDigits, Nat.div_add_mod']

/-- A divisor of a power of ten divides the one that its size selects. -/
theorem dvd_pow_log {d k : ℕ} (divides : d ∣ 10 ^ k) : d ∣ 10 ^ Nat.log 2 d := by
  have positive : 0 < d := Nat.pos_of_dvd_of_pos divides (by positivity)
  have split (n : ℕ) : 10 ^ n = 2 ^ n * 5 ^ n := mul_pow 2 5 n
  rw [split] at divides
  obtain ⟨left, right, twos, fives, rfl⟩ := (Nat.dvd_mul).mp divides
  obtain ⟨a, -, rfl⟩ := (Nat.dvd_prime_pow Nat.prime_two).mp twos
  obtain ⟨b, -, rfl⟩ := (Nat.dvd_prime_pow Nat.prime_five).mp fives
  have twosLe : a ≤ Nat.log 2 (2 ^ a * 5 ^ b) :=
    Nat.le_log_of_pow_le (by norm_num) (Nat.le_mul_of_pos_right _ (by positivity))
  have fivesLe : b ≤ Nat.log 2 (2 ^ a * 5 ^ b) := by
    refine Nat.le_log_of_pow_le (by norm_num) ?_
    calc
      2 ^ b ≤ 5 ^ b := Nat.pow_le_pow_left (by norm_num) b
      _ ≤ 2 ^ a * 5 ^ b := Nat.le_mul_of_pos_left _ (by positivity)
  rw [split]
  exact mul_dvd_mul (pow_dvd_pow 2 twosLe) (pow_dvd_pow 5 fivesLe)

/-- A numeral of a number that is not negative. -/
def ofRat (x : ℚ) : Numeral :=
  ofScaled (x.num.toNat * (10 ^ Nat.log 2 x.den / x.den)) (Nat.log 2 x.den)

theorem value_ofRat {x : ℚ} {count : ℕ} (nonneg : 0 ≤ x) (has : HasDigits count x) :
    (ofRat x).value = x := by
  have divides : x.den ∣ 10 ^ Nat.log 2 x.den := by
    obtain ⟨c, e, -, shape⟩ := has
    refine @dvd_pow_log x.den (-e).toNat ?_
    have scaled : x = ((c * 10 ^ (e + (-e).toNat).toNat : ℤ) : ℚ) / ((10 ^ (-e).toNat : ℤ) : ℚ) := by
      rw [eq_div_iff (by positivity), shape]
      push_cast
      rw [← zpow_natCast, ← zpow_natCast, mul_assoc, ← zpow_add₀ (by norm_num)]
      congr 2
      omega
    have den := Rat.den_dvd (c * 10 ^ (e + (-e).toNat).toNat) (10 ^ (-e).toNat)
    rw [Rat.divInt_eq_div, ← scaled] at den
    exact_mod_cast den
  have num : ((x.num.toNat : ℕ) : ℚ) = x.num := by
    exact_mod_cast Int.toNat_of_nonneg (Rat.num_nonneg.mpr nonneg)
  have den : (x.den : ℚ) ≠ 0 := by exact_mod_cast x.den_nz
  rw [ofRat, value_ofScaled, Nat.cast_mul, Nat.cast_div divides den, num, mul_div_assoc,
    Nat.cast_pow, Nat.cast_ofNat, div_div_cancel_left' (by positivity), ← div_eq_mul_inv,
    Rat.num_div_den]

end Numeral

end Decimal
