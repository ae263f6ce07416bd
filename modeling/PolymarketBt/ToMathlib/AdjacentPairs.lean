import Mathlib.Data.List.Chain
import Mathlib.Data.Set.BooleanAlgebra
import Mathlib.Order.CompletePartialOrder
import Mathlib.Order.Interval.Set.OrdConnected

/-! # Neighbours in a sorted list

A check of neighbours covers every pair of a list when its relation is transitive on the items of the
list. In a list sorted by their lower ends, intervals are disjoint when neighbours are; in a sorted
list of values, the values missing between its ends are those strictly between two neighbours.
-/

/-- Every item with the one after it. -/
def List.adjacentPairs {α : Type*} (l : List α) : List (α × α) := l.zip l.tail

namespace AdjacentPairs

variable {ι α : Type*} {l : List α}

@[simp] theorem adjacentPairs_nil : ([] : List α).adjacentPairs = [] := rfl

@[simp] theorem adjacentPairs_singleton (a : α) : [a].adjacentPairs = [] := rfl

@[simp] theorem adjacentPairs_cons_cons (a b : α) (l : List α) :
    (a :: b :: l).adjacentPairs = (a, b) :: (b :: l).adjacentPairs := rfl

theorem mem_of_mem_adjacentPairs {pair : α × α} (member : pair ∈ l.adjacentPairs) :
    pair.1 ∈ l ∧ pair.2 ∈ l :=
  ⟨(List.of_mem_zip member).1, List.mem_of_mem_tail (List.of_mem_zip member).2⟩

theorem forall_adjacentPairs_iff {R : α → α → Prop} :
    (∀ pair ∈ l.adjacentPairs, R pair.1 pair.2) ↔ l.IsChain R := by
  induction l with
  | nil => simp
  | cons first rest ih =>
    cases rest with
    | nil => simp
    | cons second rest =>
      rw [adjacentPairs_cons_cons, List.forall_mem_cons, ih, List.isChain_cons_cons]

section Intervals

variable [LinearOrder α] {low high : ι → α} {items : List ι}

/-- Proper intervals that each end before the next one starts end before every later one starts. -/
theorem pairwise_of_adjacent_apart (proper : ∀ item ∈ items, low item ≤ high item)
    (chain : items.IsChain fun first second => high first < low second) :
    items.Pairwise fun first second => high first < low second := by
  let beyond (first second : ι) : Prop := high first < low second ∧ low second ≤ high second
  have transitive : IsTrans ι beyond :=
    ⟨fun first second third left right =>
      ⟨left.1.trans (left.2.trans_lt right.1), right.2⟩⟩
  have stronger : items.IsChain beyond := by
    refine forall_adjacentPairs_iff.mp fun pair member => ?_
    exact ⟨forall_adjacentPairs_iff.mpr chain pair member,
      proper pair.2 (mem_of_mem_adjacentPairs member).2⟩
  exact (List.isChain_iff_pairwise.mp stronger).imp And.left

/-- Proper intervals sorted by their lower ends are disjoint exactly when neighbours are apart. -/
theorem adjacent_apart_iff_disjoint (proper : ∀ item ∈ items, low item ≤ high item)
    (sorted : items.Pairwise fun first second => low first ≤ low second) :
    (∀ pair ∈ items.adjacentPairs, high pair.1 < low pair.2) ↔
      items.Pairwise fun first second =>
        Disjoint (Set.Icc (low first) (high first)) (Set.Icc (low second) (high second)) := by
  have adjacent := @forall_adjacentPairs_iff ι items fun first second => high first < low second
  rw [adjacent]
  constructor
  · intro chain
    refine (pairwise_of_adjacent_apart proper chain).imp fun {first second} apart => ?_
    exact Set.disjoint_left.mpr fun value left right =>
      absurd (left.2.trans_lt apart) (not_lt.mpr right.1)
  · intro disjoint
    refine List.Pairwise.isChain ?_
    refine (sorted.and disjoint).imp_of_mem fun {first second} _ member both => ?_
    by_contra! meets
    exact Set.disjoint_left.mp both.2 ⟨both.1, meets⟩ ⟨le_rfl, proper second member⟩

end Intervals

section Values

variable [LinearOrder α] {values : List α}

/-- A sorted list has no duplicate exactly when no two neighbours are equal. -/
theorem adjacent_ne_iff_nodup (sorted : values.Pairwise (· ≤ ·)) :
    (∀ pair ∈ values.adjacentPairs, pair.2 ≠ pair.1) ↔ values.Nodup := by
  constructor
  · intro apart
    have strict : values.IsChain (· < ·) := by
      refine forall_adjacentPairs_iff.mp fun pair member => ?_
      have ordered := forall_adjacentPairs_iff.mpr sorted.isChain pair member
      exact lt_of_le_of_ne ordered (apart pair member).symm
    exact (List.isChain_iff_pairwise.mp strict).imp ne_of_lt
  · intro distinct pair member
    exact (forall_adjacentPairs_iff.mpr (List.Pairwise.isChain distinct) pair member).symm

/-- What lies strictly between two neighbours of a sorted list is what it misses between its ends. -/
theorem exists_adjacent_between_iff (sorted : values.Pairwise (· ≤ ·)) {value : α} :
    (∃ pair ∈ values.adjacentPairs, pair.1 < value ∧ value < pair.2) ↔
      value ∉ values ∧ (∃ first ∈ values, first < value) ∧ ∃ last ∈ values, value < last := by
  induction values with
  | nil => simp
  | cons first rest ih =>
    obtain ⟨least, later⟩ := List.pairwise_cons.mp sorted
    cases rest with
    | nil =>
      simp only [adjacentPairs_singleton, List.not_mem_nil, false_and, exists_false, List.mem_singleton,
        exists_eq_left, false_iff]
      exact fun both => lt_asymm both.2.1 both.2.2
    | cons second rest =>
      rw [adjacentPairs_cons_cons, List.exists_mem_cons_iff, ih later]
      have ordered : first ≤ second := least second List.mem_cons_self
      have beyond : ∀ other ∈ second :: rest, second ≤ other := by
        intro other member
        rcases List.mem_cons.mp member with rfl | inRest
        · exact le_rfl
        · exact (List.pairwise_cons.mp later).1 other inRest
      constructor
      · rintro (⟨above, below⟩ | ⟨missing, ⟨before, inBefore, above⟩, after, inAfter, below⟩)
        · refine ⟨fun member => ?_, ⟨first, List.mem_cons_self, above⟩, second, by simp, below⟩
          rcases List.mem_cons.mp member with rfl | inRest
          · exact lt_irrefl _ above
          · exact absurd (below.trans_le (beyond value inRest)) (lt_irrefl _)
        · refine ⟨fun member => ?_, ⟨before, List.mem_cons_of_mem _ inBefore, above⟩, after,
            List.mem_cons_of_mem _ inAfter, below⟩
          rcases List.mem_cons.mp member with rfl | inRest
          · exact absurd (above.trans_le ordered) (not_lt.mpr (beyond before inBefore))
          · exact missing inRest
      · rintro ⟨missing, ⟨before, inBefore, above⟩, after, inAfter, below⟩
        have absent : value ∉ second :: rest := fun member => missing (List.mem_cons_of_mem _ member)
        have own : first < value := by
          rcases List.mem_cons.mp inBefore with rfl | inRest
          · exact above
          · exact (least before inRest).trans_lt above
        have inside : after ∈ second :: rest := by
          rcases List.mem_cons.mp inAfter with rfl | inRest
          · exact absurd own (lt_asymm below)
          · exact inRest
        rcases lt_trichotomy value second with less | rfl | more
        · exact .inl ⟨own, less⟩
        · exact absurd List.mem_cons_self absent
        · exact .inr ⟨absent, ⟨second, List.mem_cons_self, more⟩, after, inside, below⟩

/-- The values of a list leave no hole exactly when it misses nothing between its ends. -/
theorem ordConnected_iff : {value | value ∈ values}.OrdConnected ↔
    ∀ value, ¬(value ∉ values ∧ (∃ first ∈ values, first < value) ∧ ∃ last ∈ values, value < last) := by
  rw [Set.ordConnected_iff]
  constructor
  · rintro connected value ⟨missing, ⟨first, inFirst, above⟩, last, inLast, below⟩
    exact missing (connected first inFirst last inLast (above.trans below).le ⟨above.le, below.le⟩)
  · intro complete first inFirst last inLast _ value ⟨above, below⟩
    by_contra missing
    refine complete value ⟨missing, ⟨first, inFirst, lt_of_le_of_ne above ?_⟩, last, inLast,
      lt_of_le_of_ne below ?_⟩
    · rintro rfl
      exact missing inFirst
    · rintro rfl
      exact missing inLast

end Values

end AdjacentPairs
