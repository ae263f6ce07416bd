import Mathlib.Data.List.Sort
import Mathlib.Tactic

/-! # Insertion points by binary search

Mathlib has no counterpart of the two halving searches of a scripting standard library. The loop
below keeps the probed bounds explicit, so an unsorted list has the insertion point the halving
really returns. On a sorted list the insertion point is the length of the selected prefix, and the
prefix itself is a filter; every later argument about an as-of lookup uses only that equation.
-/

namespace List

variable {α : Type*}

/-- Halve `[lo, hi)` while it is nonempty; `goLeft` decides on the entry at the middle. -/
def bisectLoop (goLeft : α → Bool) (xs : List α) : ℕ → ℕ → ℕ → ℕ
  | 0, lo, _ => lo
  | fuel + 1, lo, hi =>
    if lo < hi then
      match xs[(lo + hi) / 2]? with
      | none => lo
      | some probe =>
        if goLeft probe then bisectLoop goLeft xs fuel lo ((lo + hi) / 2)
        else bisectLoop goLeft xs fuel ((lo + hi) / 2 + 1) hi
    else lo

/-- A search whose tests are all decided by one cut returns that cut. -/
theorem bisectLoop_eq_of_cut (goLeft : α → Bool) (xs : List α) (cut : ℕ)
    (decided : ∀ index entry, xs[index]? = some entry → (goLeft entry = true ↔ cut ≤ index)) :
    ∀ fuel lo hi, hi - lo ≤ fuel → lo ≤ cut → cut ≤ hi → hi ≤ xs.length →
      bisectLoop goLeft xs fuel lo hi = cut := by
  intro fuel
  induction fuel with
  | zero =>
    intro lo hi enough above below _
    simp only [bisectLoop]
    omega
  | succ fuel ih =>
    intro lo hi enough above below bound
    simp only [bisectLoop]
    split
    · next nonempty =>
      have inside : (lo + hi) / 2 < xs.length := by omega
      rw [List.getElem?_eq_getElem inside]
      have side := decided _ _ (List.getElem?_eq_getElem inside)
      dsimp only
      split
      · next left => exact ih _ _ (by omega) above (side.mp left) (by omega)
      · next right =>
        have after : (lo + hi) / 2 < cut := by
          by_contra before
          exact right (side.mpr (by omega))
        exact ih _ _ (by omega) after below bound
    · omega

/-- A search that starts behind the cut stays where it starts. -/
theorem bisectLoop_eq_lo (goLeft : α → Bool) (xs : List α) (lo : ℕ)
    (decided : ∀ index entry, lo ≤ index → xs[index]? = some entry → goLeft entry = true) :
    ∀ fuel hi, bisectLoop goLeft xs fuel lo hi = lo := by
  intro fuel
  induction fuel with
  | zero => exact fun _ => rfl
  | succ fuel ih =>
    intro hi
    simp only [bisectLoop]
    split
    · next nonempty =>
      cases probed : xs[(lo + hi) / 2]? with
      | none => rfl
      | some probe =>
        dsimp only
        rw [if_pos (decided _ probe (by omega) probed)]
        exact ih _
    · rfl

variable [LinearOrder α]

/-- The rightmost insertion point at or after `lo` that keeps a sorted list sorted. -/
def bisectRightFrom (lo : ℕ) (xs : List α) (value : α) : ℕ :=
  bisectLoop (fun entry => decide (value < entry)) xs xs.length lo xs.length

/-- The rightmost insertion point. -/
def bisectRight (xs : List α) (value : α) : ℕ := bisectRightFrom 0 xs value

/-- The leftmost insertion point. -/
def bisectLeft (xs : List α) (value : α) : ℕ :=
  bisectLoop (fun entry => !decide (entry < value)) xs xs.length 0 xs.length

/-- A downward closed test cuts a sorted list at the number of entries it selects. -/
private theorem selected_iff_lt_countP {xs : List α} (sorted : xs.Pairwise (· ≤ ·))
    (keep : α → Bool) (closed : ∀ a b, a ≤ b → keep b = true → keep a = true) :
    ∀ index entry, xs[index]? = some entry →
      (keep entry = true ↔ index < xs.countP keep) := by
  induction xs with
  | nil => simp
  | cons head rest ih =>
    obtain ⟨below, tail⟩ := List.pairwise_cons.mp sorted
    intro index entry atIndex
    by_cases selected : keep head = true
    · rw [List.countP_cons_of_pos selected]
      cases index with
      | zero =>
        obtain rfl := Option.some.inj atIndex
        simp [selected]
      | succ index =>
        have := ih tail index entry (by simpa using atIndex)
        rw [this]
        omega
    · have none : ∀ other ∈ rest, ¬ keep other = true := fun other member kept =>
        selected (closed _ _ (below other member) kept)
      rw [List.countP_cons_of_neg selected, List.countP_eq_zero.mpr none]
      simp only [not_lt_zero, iff_false]
      cases index with
      | zero =>
        obtain rfl := Option.some.inj atIndex
        exact selected
      | succ index => exact none entry (List.mem_of_getElem? (by simpa using atIndex))

private theorem split_at_countP {β : Type*} (f : β → α) {xs : List β}
    (sorted : (xs.map f).Pairwise (· ≤ ·)) (keep : α → Bool)
    (closed : ∀ a b, a ≤ b → keep b = true → keep a = true) :
    xs.take ((xs.map f).countP keep) = xs.filter (fun x => keep (f x)) ∧
      xs.drop ((xs.map f).countP keep) = xs.filter (fun x => !keep (f x)) := by
  induction xs with
  | nil => exact ⟨rfl, rfl⟩
  | cons head rest ih =>
    rw [List.map_cons] at sorted ⊢
    obtain ⟨below, tail⟩ := List.pairwise_cons.mp sorted
    by_cases selected : keep (f head) = true
    · rw [List.countP_cons_of_pos selected]
      rw [List.take_succ_cons, List.drop_succ_cons, (ih tail).1, (ih tail).2]
      exact ⟨by simp [selected], by simp [selected]⟩
    · have none : ∀ other ∈ rest, ¬ keep (f other) = true := fun other member kept =>
        selected (closed _ _ (below _ (List.mem_map_of_mem member)) kept)
      have zero : (rest.map f).countP keep = 0 := by
        rw [List.countP_eq_zero]
        intro value member
        obtain ⟨other, inRest, rfl⟩ := List.mem_map.mp member
        exact none other inRest
      rw [List.countP_cons_of_neg selected, zero]
      refine ⟨?_, ?_⟩
      · rw [List.take_zero, eq_comm, List.filter_eq_nil_iff]
        intro other member
        rcases List.mem_cons.mp member with rfl | inRest
        · exact selected
        · exact none other inRest
      · rw [List.drop_zero, eq_comm, List.filter_eq_self]
        intro other member
        rcases List.mem_cons.mp member with rfl | inRest
        · simpa using selected
        · simpa using none other inRest

/-- On a sorted list the right insertion point counts the entries at or below the value. -/
theorem bisectRightFrom_eq_countP {xs : List α} (sorted : xs.Pairwise (· ≤ ·)) (value : α)
    {lo : ℕ} (before : lo ≤ xs.countP (fun entry => decide (entry ≤ value))) :
    bisectRightFrom lo xs value = xs.countP (fun entry => decide (entry ≤ value)) := by
  apply bisectLoop_eq_of_cut _ _ _ _ _ _ _ (by omega) before List.countP_le_length le_rfl
  intro index entry atIndex
  have selected := selected_iff_lt_countP sorted (fun entry => decide (entry ≤ value))
    (fun a b below kept => by
      simp only [decide_eq_true_eq] at kept ⊢
      exact below.trans kept) index entry atIndex
  simp only [decide_eq_true_eq] at selected ⊢
  rw [← not_le, selected, not_lt]

/-- Whatever its start, the search returns the later of the start and that count. -/
theorem bisectRightFrom_eq_max {xs : List α} (sorted : xs.Pairwise (· ≤ ·)) (value : α) (lo : ℕ) :
    bisectRightFrom lo xs value = max lo (xs.countP fun entry => decide (entry ≤ value)) := by
  by_cases before : lo ≤ xs.countP fun entry => decide (entry ≤ value)
  · rw [bisectRightFrom_eq_countP sorted value before, max_eq_right before]
  · rw [max_eq_left (by omega)]
    refine bisectLoop_eq_lo _ _ _ (fun index entry behind found => ?_) _ _
    have selected := selected_iff_lt_countP sorted (fun entry => decide (entry ≤ value))
      (fun a b below kept => by
        simp only [decide_eq_true_eq] at kept ⊢
        exact below.trans kept) index entry found
    have above : ¬ entry ≤ value := fun kept => by
      have := selected.mp (decide_eq_true kept)
      omega
    simpa using above

theorem bisectRight_eq_countP {xs : List α} (sorted : xs.Pairwise (· ≤ ·)) (value : α) :
    bisectRight xs value = xs.countP (fun entry => decide (entry ≤ value)) :=
  bisectRightFrom_eq_countP sorted value (Nat.zero_le _)

/-- On a sorted list the left insertion point counts the entries strictly below the value. -/
theorem bisectLeft_eq_countP {xs : List α} (sorted : xs.Pairwise (· ≤ ·)) (value : α) :
    bisectLeft xs value = xs.countP (fun entry => decide (entry < value)) := by
  apply bisectLoop_eq_of_cut _ _ _ _ _ _ _ (by omega) (Nat.zero_le _) List.countP_le_length le_rfl
  intro index entry atIndex
  have selected := selected_iff_lt_countP sorted (fun entry => decide (entry < value))
    (fun a b below kept => by
      simp only [decide_eq_true_eq] at kept ⊢
      exact below.trans_lt kept) index entry atIndex
  simp only [decide_eq_true_eq, Bool.not_eq_true', decide_eq_false_iff_not] at selected ⊢
  rw [selected, not_lt]

section Split

variable {β : Type*} (f : β → α) {xs : List β} (sorted : (xs.map f).Pairwise (· ≤ ·)) (value : α)

private theorem le_closed (a b : α) (below : a ≤ b) (kept : decide (b ≤ value) = true) :
    decide (a ≤ value) = true := by
  simp only [decide_eq_true_eq] at kept ⊢
  exact below.trans kept

private theorem lt_closed (a b : α) (below : a ≤ b) (kept : decide (b < value) = true) :
    decide (a < value) = true := by
  simp only [decide_eq_true_eq] at kept ⊢
  exact below.trans_lt kept

include sorted

/-- The entries before the right insertion point are exactly those at or below the value. -/
theorem take_bisectRight :
    xs.take ((xs.map f).bisectRight value) = xs.filter (fun x => decide (f x ≤ value)) := by
  rw [bisectRight_eq_countP sorted]
  exact (split_at_countP f sorted _ (le_closed value)).1

/-- The entries after it are exactly those above the value. -/
theorem drop_bisectRight :
    xs.drop ((xs.map f).bisectRight value) = xs.filter (fun x => !decide (f x ≤ value)) := by
  rw [bisectRight_eq_countP sorted]
  exact (split_at_countP f sorted _ (le_closed value)).2

/-- A sorted list is what lies up to a value followed by what lies above it. -/
theorem filter_append_filter_not :
    xs = xs.filter (fun x => decide (f x ≤ value)) ++ xs.filter (fun x => !decide (f x ≤ value)) := by
  rw [← take_bisectRight f sorted, ← drop_bisectRight f sorted, List.take_append_drop]

/-- A search from any start selects what lies after the start up to the value. -/
theorem drop_take_bisectRightFrom (lo : ℕ) :
    (xs.take ((xs.map f).bisectRightFrom lo value)).drop lo =
      (xs.filter fun x => decide (f x ≤ value)).drop lo := by
  rw [← take_bisectRight f sorted, bisectRightFrom_eq_max sorted, bisectRight_eq_countP sorted]
  rcases le_total lo ((xs.map f).countP fun entry => decide (entry ≤ value)) with before | behind
  · rw [max_eq_right before]
  · rw [max_eq_left behind, List.drop_eq_nil_of_le (List.length_take_le _ _),
      List.drop_eq_nil_of_le ((List.length_take_le _ _).trans behind)]

/-- The entries after the left insertion point are exactly those at or above the value. -/
theorem drop_bisectLeft :
    xs.drop ((xs.map f).bisectLeft value) = xs.filter (fun x => !decide (f x < value)) := by
  rw [bisectLeft_eq_countP sorted]
  exact (split_at_countP f sorted _ (lt_closed value)).2

/-- The entries between two right insertion points. -/
theorem drop_take_bisectRight {lower upper : α} (below : lower ≤ upper) :
    (xs.take ((xs.map f).bisectRight upper)).drop ((xs.map f).bisectRight lower) =
      xs.filter (fun x => decide (lower < f x ∧ f x ≤ upper)) := by
  have kept : ((xs.filter fun x => decide (f x ≤ upper)).map f).Pairwise (· ≤ ·) :=
    sorted.sublist (List.filter_sublist.map f)
  have same : (xs.map f).bisectRight lower =
      ((xs.filter fun x => decide (f x ≤ upper)).map f).bisectRight lower := by
    rw [bisectRight_eq_countP sorted, bisectRight_eq_countP kept, List.countP_map, List.countP_map,
      List.countP_filter]
    refine congrArg (fun test => List.countP test xs) (funext fun x => ?_)
    simp only [Function.comp_apply, Bool.eq_self_and, decide_eq_true_eq]
    exact fun low => low.trans below
  rw [take_bisectRight f sorted, same, drop_bisectRight f kept, List.filter_filter]
  refine congrArg (fun test => List.filter test xs) (funext fun x => ?_)
  simp [← not_le]

/-- The entries from a left insertion point to a right one. -/
theorem drop_take_bisectLeft {lower upper : α} (below : lower ≤ upper) :
    (xs.take ((xs.map f).bisectRight upper)).drop ((xs.map f).bisectLeft lower) =
      xs.filter (fun x => decide (lower ≤ f x ∧ f x ≤ upper)) := by
  have kept : ((xs.filter fun x => decide (f x ≤ upper)).map f).Pairwise (· ≤ ·) :=
    sorted.sublist (List.filter_sublist.map f)
  have same : (xs.map f).bisectLeft lower =
      ((xs.filter fun x => decide (f x ≤ upper)).map f).bisectLeft lower := by
    rw [bisectLeft_eq_countP sorted, bisectLeft_eq_countP kept, List.countP_map, List.countP_map,
      List.countP_filter]
    refine congrArg (fun test => List.countP test xs) (funext fun x => ?_)
    simp only [Function.comp_apply, Bool.eq_self_and, decide_eq_true_eq]
    exact fun low => low.le.trans below
  rw [take_bisectRight f sorted, same, drop_bisectLeft f kept, List.filter_filter]
  refine congrArg (fun test => List.filter test xs) (funext fun x => ?_)
  simp [← not_lt]

end Split

end List
