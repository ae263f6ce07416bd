import Mathlib.Algebra.BigOperators.Group.List.Basic
import Mathlib.Algebra.Order.BigOperators.Group.List
import Mathlib.Tactic

/-! # Filling a budget in the order of a list

Every place of a list takes what is left of a budget, up to its allowance. Together they take the
budget or all allowances, whichever is less, and a place takes something only when every place
before it has taken its allowance.
-/

namespace GreedyFill

variable {ι : Type*} {allowance : ι → ℤ} {budget : ℤ} {item : ι} {items first second : List ι}

/-- The places that take something, with what they take. -/
def fill (allowance : ι → ℤ) : ℤ → List ι → List (ι × ℤ)
  | _, [] => []
  | budget, item :: rest =>
    if 0 < min budget (allowance item) then
      (item, min budget (allowance item)) :: fill allowance (budget - min budget (allowance item)) rest
    else fill allowance budget rest

theorem fill_cons :
    fill allowance budget (item :: items) =
      if 0 < min budget (allowance item) then
        (item, min budget (allowance item)) ::
          fill allowance (budget - min budget (allowance item)) items
      else fill allowance budget items := rfl

/-- All that is taken. -/
def total (taken : List (ι × ℤ)) : ℤ := (taken.map Prod.snd).sum

@[simp] theorem total_nil : total ([] : List (ι × ℤ)) = 0 := rfl

@[simp] theorem total_cons (take : ι × ℤ) (rest : List (ι × ℤ)) :
    total (take :: rest) = take.2 + total rest := by
  simp [total]

@[simp] theorem total_append (earlier later : List (ι × ℤ)) :
    total (earlier ++ later) = total earlier + total later := by
  simp [total]

theorem fill_of_nonpos (spent : budget ≤ 0) : fill allowance budget items = [] := by
  induction items with
  | nil => rfl
  | cons item rest ih =>
    unfold fill
    rw [if_neg (by omega), ih]

theorem fill_append :
    fill allowance budget (first ++ second) =
      fill allowance budget first ++
        fill allowance (budget - total (fill allowance budget first)) second := by
  induction first generalizing budget with
  | nil => simp [fill]
  | cons item rest ih =>
    rw [List.cons_append, fill_cons, fill_cons]
    split
    · rw [ih, total_cons, List.cons_append, Int.sub_sub]
    · exact ih

/-- A place takes a positive part of its allowance. -/
theorem fill_bounds {take : ι × ℤ} (member : take ∈ fill allowance budget items) :
    take.1 ∈ items ∧ 0 < take.2 ∧ take.2 ≤ allowance take.1 := by
  induction items generalizing budget with
  | nil => cases member
  | cons item rest ih =>
    unfold fill at member
    split at member
    · rcases List.mem_cons.mp member with rfl | later
      · exact ⟨List.mem_cons_self, by assumption, min_le_right _ _⟩
      · obtain ⟨inRest, bounds⟩ := ih later
        exact ⟨List.mem_cons_of_mem _ inRest, bounds⟩
    · obtain ⟨inRest, bounds⟩ := ih member
      exact ⟨List.mem_cons_of_mem _ inRest, bounds⟩

/-- The places keep their order, and each takes at most once. -/
theorem fill_sublist : ((fill allowance budget items).map Prod.fst).Sublist items := by
  induction items generalizing budget with
  | nil => exact List.Sublist.slnil
  | cons item rest ih =>
    unfold fill
    split
    · exact ih.cons_cons item
    · exact ih.cons item

/-- What is taken is the budget or all allowances, whichever is less. -/
theorem total_fill (nonneg : ∀ item ∈ items, 0 ≤ allowance item) (funded : 0 ≤ budget) :
    total (fill allowance budget items) = min budget (items.map allowance).sum := by
  induction items generalizing budget with
  | nil => simp [fill, funded]
  | cons item rest ih =>
    obtain ⟨own, others⟩ := List.forall_mem_cons.mp nonneg
    have later : 0 ≤ (rest.map allowance).sum := List.sum_nonneg (by simpa using others)
    unfold fill
    rw [List.map_cons, List.sum_cons]
    split
    · rw [total_cons, ih others (by omega)]
      omega
    · rw [ih others funded]
      omega

/-- Places take their whole allowances where the budget suffices. -/
theorem fill_of_le (nonneg : ∀ item ∈ items, 0 ≤ allowance item)
    (enough : (items.map allowance).sum ≤ budget) :
    fill allowance budget items =
      (items.filter fun item => 0 < allowance item).map fun item => (item, allowance item) := by
  induction items generalizing budget with
  | nil => rfl
  | cons item rest ih =>
    obtain ⟨own, others⟩ := List.forall_mem_cons.mp nonneg
    have later : 0 ≤ (rest.map allowance).sum := List.sum_nonneg (by simpa using others)
    rw [List.map_cons, List.sum_cons] at enough
    have whole : min budget (allowance item) = allowance item := by omega
    unfold fill
    rw [whole]
    split
    · next positive =>
      rw [List.filter_cons_of_pos (by simpa using positive), List.map_cons, ih others (by omega)]
    · next empty =>
      rw [List.filter_cons_of_neg (by simpa using empty), ih others (by omega)]

/-- When a later place takes something, the earlier ones have taken their allowances. -/
theorem saturated (nonneg : ∀ item ∈ first, 0 ≤ allowance item) (funded : 0 ≤ budget)
    (later : fill allowance (budget - total (fill allowance budget first)) second ≠ []) :
    (first.map allowance).sum < budget ∧ fill allowance budget first =
      (first.filter fun item => 0 < allowance item).map fun item => (item, allowance item) := by
  have left : 0 < budget - total (fill allowance budget first) := by
    by_contra spent
    exact later (fill_of_nonpos (by omega))
  rw [total_fill nonneg funded] at left
  have below : (first.map allowance).sum < budget := by omega
  exact ⟨below, fill_of_le nonneg below.le⟩

/-- Before a place that takes something, every place takes its whole allowance. -/
theorem whole_before (nonneg : ∀ item ∈ items, 0 ≤ allowance item) (funded : 0 ≤ budget)
    {take : ι × ℤ} (member : take ∈ fill allowance budget items)
    (split : items = first ++ take.1 :: second) (fresh : take.1 ∉ first) {earlier : ι}
    (before : earlier ∈ first) :
    allowance earlier = 0 ∨ (earlier, allowance earlier) ∈ fill allowance budget items := by
  subst split
  have own := nonneg earlier (List.mem_append_left _ before)
  rw [fill_append, List.mem_append] at member ⊢
  rcases member with early | late
  · exact absurd (fill_bounds early).1 fresh
  · obtain ⟨-, whole⟩ := saturated (fun item inside => nonneg item (List.mem_append_left _ inside))
      funded (List.ne_nil_of_mem late)
    rcases own.eq_or_lt with none | some
    · exact .inl none.symm
    · rw [whole]
      exact .inr (.inl (List.mem_map_of_mem (List.mem_filter.mpr ⟨before, decide_eq_true some⟩)))

/-! ## What finds the budget used up -/

/-- Every place finds something of the budget left. -/
def passes (allowance : ι → ℤ) : ℤ → List ι → Bool
  | _, [] => true
  | budget, item :: rest => 0 < budget && passes allowance (budget - allowance item) rest

/-- The places up to the first that finds the budget used up, that one included. -/
def reached (allowance : ι → ℤ) : ℤ → List ι → List ι
  | _, [] => []
  | budget, item :: rest =>
    if budget ≤ 0 then [item] else item :: reached allowance (budget - allowance item) rest

theorem reached_sublist : (reached allowance budget items).Sublist items := by
  induction items generalizing budget with
  | nil => exact List.Sublist.slnil
  | cons item rest ih =>
    unfold reached
    split
    · exact (List.nil_sublist rest).cons_cons item
    · exact ih.cons_cons item

theorem sum_reached_nonneg (nonneg : ∀ item ∈ items, 0 ≤ allowance item) :
    0 ≤ ((reached allowance budget items).map allowance).sum := by
  refine List.sum_nonneg fun value member => ?_
  obtain ⟨item, seen, rfl⟩ := List.mem_map.mp member
  exact nonneg item (reached_sublist.subset seen)

theorem passes_of_nonpos (spent : budget ≤ 0) : passes allowance budget items = items.isEmpty := by
  cases items with
  | nil => rfl
  | cons item rest => simp [passes, not_lt.mpr spent]

end GreedyFill
