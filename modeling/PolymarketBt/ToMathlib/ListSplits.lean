import Mathlib.Algebra.BigOperators.Group.List.Basic
import Mathlib.Data.List.Induction

/-! # Splits of a list

A list that ends in a known item splits at an item either there or before it. The entries that are
read at consecutive positions are a segment, and a sum over a disjunction of tests that exclude each
other splits into the sums of both. Grouping by keys that differ keeps every occurrence, and so does a
filter that only adds entries without results.
-/

namespace List

variable {α β : Type*}

theorem concat_eq_append_cons_iff {front past future : List α} {last item : α} :
    front ++ [last] = past ++ item :: future ↔ (future = [] ∧ past = front ∧ item = last) ∨
      ∃ middle, future = middle ++ [last] ∧ front = past ++ item :: middle := by
  constructor
  · intro split
    rcases eq_nil_or_concat future with rfl | ⟨middle, final, rfl⟩
    · obtain ⟨rfl, same⟩ := append_inj' split rfl
      exact .inl ⟨rfl, rfl, (cons.inj same).1.symm⟩
    · rw [concat_eq_append, ← cons_append, ← append_assoc] at split
      obtain ⟨same, final⟩ := append_inj' split rfl
      obtain rfl := (cons.inj final).1
      exact .inr ⟨middle, concat_eq_append, same⟩
  · rintro (⟨rfl, rfl, rfl⟩ | ⟨middle, rfl, rfl⟩)
    · rfl
    · simp

theorem filterMap_range'_getElem? (entries : List α) (keep : α → Option β)
    (first count : ℕ) :
    (range' first count).filterMap (fun index => (entries[index]?).bind keep) =
      ((entries.drop first).take count).filterMap keep := by
  induction count generalizing first with
  | zero => simp
  | succ count ih =>
    rw [range'_succ, filterMap_cons, ih]
    cases found : entries[first]? with
    | none =>
      have behind : entries.length ≤ first := getElem?_eq_none_iff.mp found
      simp [drop_eq_nil_of_le behind, drop_eq_nil_of_le (Nat.le_succ_of_le behind)]
    | some entry =>
      obtain ⟨inside, rfl⟩ := getElem?_eq_some_iff.mp found
      rw [drop_eq_getElem_cons inside, take_succ_cons, filterMap_cons]
      rfl

/-- Two tests that exclude each other select what their disjunction selects. -/
theorem sum_filter_add {M : Type*} [AddCommMonoid M] (f : α → M) (first second either : α → Bool) {entries : List α}
    (split : ∀ entry ∈ entries, ((first entry = true ∨ second entry = true) ↔ either entry = true) ∧
      ¬ (first entry = true ∧ second entry = true)) :
    ((entries.filter first).map f).sum + ((entries.filter second).map f).sum =
      ((entries.filter either).map f).sum := by
  induction entries with
  | nil => simp
  | cons entry rest ih =>
    obtain ⟨⟨both, apart⟩, others⟩ := forall_mem_cons.mp split
    have rest := ih others
    by_cases one : first entry = true
    · have two : second entry = false := Bool.eq_false_iff.mpr fun two => apart ⟨one, two⟩
      have any : either entry = true := both.mp (.inl one)
      simp [one, two, any, add_assoc, rest]
    by_cases two : second entry = true
    · have any : either entry = true := both.mp (.inr two)
      simp [one, two, any, add_left_comm _ (f entry), rest]
    · have any : ¬ either entry = true := fun any => (both.mpr any).elim one two
      simp [one, two, any, rest]

/-- Items that contribute nothing may be left out of a sum. -/
theorem sum_filter_of_zero {M : Type*} [AddMonoid M] {f : α → M} {keep : α → Bool} {entries : List α}
    (zero : ∀ entry ∈ entries, keep entry = false → f entry = 0) :
    ((entries.filter keep).map f).sum = (entries.map f).sum := by
  induction entries with
  | nil => rfl
  | cons entry rest ih =>
    obtain ⟨own, others⟩ := forall_mem_cons.mp zero
    rw [map_cons, sum_cons, ← ih others]
    cases kept : keep entry with
    | true => rw [filter_cons_of_pos kept, map_cons, sum_cons]
    | false => rw [filter_cons_of_neg (Bool.eq_false_iff.mp kept), own kept, zero_add]

/-- The items of a list, key by key. -/
theorem flatMap_filter_perm {κ : Type*} [DecidableEq κ] {key : α → κ} {keys : List κ} {items : List α}
    (distinct : keys.Nodup) (covers : ∀ item ∈ items, key item ∈ keys) :
    (keys.flatMap fun k => items.filter fun item => key item = k).Perm items := by
  suffices within : (keys.flatMap fun k => items.filter fun item => key item = k).Perm
      (items.filter fun item => key item ∈ keys) by
    rwa [filter_eq_self.mpr fun item member => decide_eq_true (covers item member)] at within
  clear covers
  induction keys with
  | nil => simp
  | cons k rest ih =>
    obtain ⟨fresh, distinct⟩ := nodup_cons.mp distinct
    have parts := filter_append_perm (fun item => decide (key item = k))
      (items.filter fun item => key item ∈ k :: rest)
    rw [filter_filter, filter_filter] at parts
    have own : (items.filter fun item => decide (key item = k) && decide (key item ∈ k :: rest)) =
        items.filter fun item => key item = k := by
      refine filter_congr fun item _ => ?_
      by_cases same : key item = k <;> simp [same]
    have others : (items.filter fun item => !decide (key item = k) && decide (key item ∈ k :: rest)) =
        items.filter fun item => key item ∈ rest := by
      refine filter_congr fun item _ => ?_
      by_cases same : key item = k
      · simp [same, fresh]
      · simp [same]
    rw [own, others] at parts
    rw [flatMap_cons]
    exact ((ih distinct).append_left _).trans parts

end List
