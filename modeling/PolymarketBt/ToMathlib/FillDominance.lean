import Mathlib.Algebra.BigOperators.Intervals
import PolymarketBt.ToMathlib.GreedyFill

/-! # Comparing two fills of one list

What a fill takes of the first places is the fill of those places alone, so that two fills compare
place by place. A fill that is behind another one at every place and takes as much in the end takes
it later: where the weights of the places grow, it weighs no less.
-/

namespace GreedyFill

open Finset (range)

variable {ι : Type*} {allowance : ι → ℤ} {budget : ℤ} {items : List ι} {keep : ι → Bool}

/-- The part of a fill on the first places is the fill of these places. -/
theorem filter_fill (downward : items.Pairwise fun earlier later => keep later → keep earlier) :
    (fill allowance budget items).filter (fun take => keep take.1) =
      fill allowance budget (items.filter keep) := by
  induction items generalizing budget with
  | nil => rfl
  | cons item rest ih =>
    obtain ⟨before, later⟩ := List.pairwise_cons.mp downward
    cases own : keep item with
    | true =>
      rw [List.filter_cons_of_pos own, fill_cons, fill_cons]
      split
      · rw [List.filter_cons_of_pos (p := fun take : ι × ℤ => keep take.1) own, ih later]
      · exact ih later
    | false =>
      -- No later place is kept either.
      have none : ∀ other ∈ item :: rest, ¬ keep other = true := by
        intro other member kept
        rcases List.mem_cons.mp member with rfl | inside
        · exact absurd kept (by simp [own])
        · exact absurd (before other inside kept) (by simp [own])
      rw [List.filter_eq_nil_iff.mpr none, fill, List.filter_eq_nil_iff]
      exact fun take member => none take.1 (fill_bounds member).1

/-- A fill on the first places takes the budget or their allowances, whichever is less. -/
theorem total_filter_fill (nonneg : ∀ item ∈ items, 0 ≤ allowance item) (funded : 0 ≤ budget)
    (downward : items.Pairwise fun earlier later => keep later → keep earlier) :
    total ((fill allowance budget items).filter fun take => keep take.1) =
      min budget ((items.filter keep).map allowance).sum := by
  rw [filter_fill downward]
  exact total_fill (fun item member => nonneg item (List.mem_of_mem_filter member)) funded

/-! ## Amounts at ranks -/

variable {weight : ℕ → ℤ} {early late amounts : List (ℕ × ℤ)} {bound : ℕ}

/-- All that lies below a rank. -/
def below (amounts : List (ℕ × ℤ)) (rank : ℕ) : ℤ :=
  total (amounts.filter fun amount => amount.1 < rank)

def weighted (weight : ℕ → ℤ) (amounts : List (ℕ × ℤ)) : ℤ :=
  (amounts.map fun amount => weight amount.1 * amount.2).sum

theorem below_cons (amount : ℕ × ℤ) (rank : ℕ) :
    below (amount :: amounts) rank = (if amount.1 < rank then amount.2 else 0) + below amounts rank := by
  unfold below
  by_cases inside : amount.1 < rank
  · rw [List.filter_cons_of_pos (by simpa using inside), total_cons, if_pos inside]
  · rw [List.filter_cons_of_neg (by simpa using inside), if_neg inside, zero_add]

@[simp] theorem below_zero : below amounts 0 = 0 := by simp [below]

/-- Everything lies below a bound of the ranks. -/
theorem below_bound (bounded : ∀ amount ∈ amounts, amount.1 < bound) :
    below amounts bound = total amounts := by
  rw [below, List.filter_eq_self.mpr fun amount member => by simpa using bounded amount member]

/-- Only its own rank sees an amount. -/
theorem sum_own_rank {rank : ℕ} {value : ℤ} (inside : rank < bound) :
    ∑ place ∈ range bound, weight place *
      ((if rank < place + 1 then value else 0) - if rank < place then value else 0) =
        weight rank * value := by
  rw [Finset.sum_eq_single_of_mem rank (Finset.mem_range.mpr inside)]
  · simp
  · intro place _ other
    by_cases before : rank < place
    · simp [before, before.trans (Nat.lt_succ_self place)]
    · have after : ¬ rank < place + 1 := by omega
      simp [before, after]

theorem weighted_eq (bounded : ∀ amount ∈ amounts, amount.1 < bound) :
    weighted weight amounts =
      ∑ place ∈ range bound, weight place * (below amounts (place + 1) - below amounts place) := by
  induction amounts with
  | nil => simp [weighted, below]
  | cons amount rest ih =>
    obtain ⟨own, others⟩ := List.forall_mem_cons.mp bounded
    have split : weighted weight (amount :: rest) =
        weight amount.1 * amount.2 + weighted weight rest := by simp [weighted]
    rw [split, ih others, ← sum_own_rank own, ← Finset.sum_add_distrib]
    refine Finset.sum_congr rfl fun place _ => ?_
    rw [below_cons, below_cons]
    ring

/-- Weights that grow weigh what is behind by no less than their last one. -/
theorem weighted_difference (growing : ∀ place, place + 1 < bound → weight place ≤ weight (place + 1))
    (behind : ∀ rank, below late rank ≤ below early rank) {reached : ℕ} (inside : reached < bound) :
    weight reached * (below late (reached + 1) - below early (reached + 1)) ≤
      ∑ place ∈ range (reached + 1), weight place *
        ((below late (place + 1) - below late place) -
          (below early (place + 1) - below early place)) := by
  induction reached with
  | zero => simp
  | succ reached ih =>
    have before := ih (by omega)
    rw [Finset.sum_range_succ]
    have grows := growing reached inside
    have short := behind (reached + 1)
    have carried : weight (reached + 1) * (below late (reached + 1) - below early (reached + 1)) ≤
        weight reached * (below late (reached + 1) - below early (reached + 1)) :=
      mul_le_mul_of_nonpos_right grows (by omega)
    linarith

/-- Of two fills of one total, the one that is behind weighs no less. -/
theorem weighted_le (growing : ∀ place, place + 1 < bound → weight place ≤ weight (place + 1))
    (behind : ∀ rank, below late rank ≤ below early rank) (same : total late = total early)
    (lateBounded : ∀ amount ∈ late, amount.1 < bound)
    (earlyBounded : ∀ amount ∈ early, amount.1 < bound) :
    weighted weight early ≤ weighted weight late := by
  rw [weighted_eq lateBounded, weighted_eq earlyBounded]
  cases bound with
  | zero => simp
  | succ last =>
    have difference := weighted_difference growing behind (Nat.lt_succ_self last)
    rw [below_bound lateBounded, below_bound earlyBounded, same, sub_self, mul_zero] at difference
    simp only [mul_sub, Finset.sum_sub_distrib] at difference ⊢
    linarith

end GreedyFill
