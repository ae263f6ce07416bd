import Mathlib.Algebra.Order.Group.Defs
import Mathlib.Data.List.Induction
import Mathlib.Tactic.Abel

/-! # Drawdowns of a series

The deepest drawdown of a series is the largest fall from one of its values to a later one. One pass
finds it: it keeps the highest value so far and compares each value with it.
-/

namespace Drawdown

variable {α : Type*} [AddCommGroup α] [LinearOrder α]

/-- No value falls further below an earlier one, and some value falls as far or none falls at all. -/
structure IsDeepest (series : List α) (depth : α) : Prop where
  nonneg : 0 ≤ depth
  bound : series.Pairwise fun earlier later => earlier - later ≤ depth
  attained : depth = 0 ∨ ∃ earlier later, [earlier, later].Sublist series ∧ earlier - later = depth

/-- The peak so far and the deepest fall from a peak, after one more value. -/
def step (found : α × α) (value : α) : α × α :=
  (max found.1 value, max found.2 (max found.1 value - value))

/-- What one pass has found in a series. -/
structure Walked (series : List α) (found : α × α) : Prop where
  peak : found.1 ∈ series
  highest : ∀ value ∈ series, value ≤ found.1
  deepest : IsDeepest series found.2

theorem Walked.single (first : α) : Walked [first] (first, 0) :=
  ⟨List.mem_singleton_self first, fun _ member => (List.mem_singleton.mp member).le,
    le_rfl, List.pairwise_singleton .., .inl rfl⟩

variable [IsOrderedAddMonoid α] {series : List α} {found : α × α}

theorem Walked.step (walked : Walked series found) (value : α) :
    Walked (series ++ [value]) (step found value) := by
  have peak : max found.1 value ∈ series ++ [value] := by
    rcases max_choice found.1 value with old | new
    · rw [old]
      exact List.mem_append_left _ walked.peak
    · rw [new]
      exact List.mem_append_right _ (List.mem_singleton_self value)
  refine ⟨peak, fun other member => ?_, ?_, ?_, ?_⟩
  · rcases List.mem_append.mp member with old | new
    · exact (walked.highest other old).trans (le_max_left ..)
    · exact (List.mem_singleton.mp new).le.trans (le_max_right ..)
  · exact walked.deepest.nonneg.trans (le_max_left ..)
  · rw [List.pairwise_append]
    refine ⟨walked.deepest.bound.imp fun fall => fall.trans (le_max_left ..),
      List.pairwise_singleton .., fun earlier member later new => ?_⟩
    obtain rfl := List.mem_singleton.mp new
    have high := (walked.highest earlier member).trans (le_max_left found.1 later)
    exact (sub_le_sub_right high later).trans (le_max_right ..)
  · change max found.2 (max found.1 value - value) = 0 ∨ ∃ earlier later,
      [earlier, later].Sublist (series ++ [value]) ∧
        earlier - later = max found.2 (max found.1 value - value)
    rcases le_total (max found.1 value - value) found.2 with old | new
    · rw [max_eq_left old]
      rcases walked.deepest.attained with flat | ⟨earlier, later, inside, fall⟩
      · exact .inl flat
      · exact .inr ⟨earlier, later, inside.trans (List.sublist_append_left ..), fall⟩
    · rw [max_eq_right new]
      rcases le_total found.1 value with risen | fallen
      · exact .inl (by rw [max_eq_right risen, sub_self])
      · refine .inr ⟨found.1, value, ?_, by rw [max_eq_left fallen]⟩
        exact (List.singleton_sublist.mpr walked.peak).append (List.Sublist.refl [value])

theorem Walked.foldl (walked : Walked series found) (later : List α) :
    Walked (series ++ later) (later.foldl Drawdown.step found) := by
  induction later generalizing series found with
  | nil => rwa [List.append_nil]
  | cons value rest ih =>
    rw [List.append_cons, List.foldl_cons]
    exact ih (walked.step value)

/-- One pass from the first value finds the deepest drawdown. -/
theorem foldl_isDeepest (first : α) (rest : List α) :
    IsDeepest (first :: rest) (rest.foldl step (first, 0)).2 :=
  ((Walked.single first).foldl rest).deepest

end Drawdown
