import Mathlib.Data.List.Sort
import Mathlib.MeasureTheory.Measure.Lebesgue.Basic

/-! # Merging spans

A span is half open and may be inverted, in which case it holds nothing. Spans that come by their
starts are merged in one pass: a span that does not start after the end of the last one extends it.
The pass keeps what the spans cover, and what it leaves is apart, so that its lengths add up to the
measure of the union.
-/

namespace SpanMerge

variable {α β : Type*} [LinearOrder α] [LinearOrder β] {merged spans : List (α × α)} {span : α × α}

/-- Add a span to disjoint spans that start no later. -/
def add (merged : List (α × α)) (span : α × α) : List (α × α) :=
  if span.2 ≤ span.1 then merged
  else
    match merged.getLast? with
    | none => [span]
    | some last =>
      if span.1 ≤ last.2 then merged.dropLast ++ [(last.1, max last.2 span.2)]
      else merged ++ [span]

/-- The instants that lie in some span. -/
def covered (spans : List (α × α)) : Set α := ⋃ span ∈ spans, Set.Ico span.1 span.2

theorem mem_covered {instant : α} :
    instant ∈ covered spans ↔ ∃ span ∈ spans, span.1 ≤ instant ∧ instant < span.2 := by
  simp only [covered, Set.mem_iUnion, Set.mem_Ico, exists_prop]

@[simp] theorem covered_nil : covered ([] : List (α × α)) = ∅ := by simp [covered]

@[simp] theorem covered_cons : covered (span :: spans) = Set.Ico span.1 span.2 ∪ covered spans := by
  simp [covered]

@[simp] theorem covered_append {later : List (α × α)} :
    covered (spans ++ later) = covered spans ∪ covered later := by
  induction spans with
  | nil => simp
  | cons span rest ih => rw [List.cons_append, covered_cons, ih, covered_cons, Set.union_assoc]

theorem covered_perm {other : List (α × α)} (same : spans.Perm other) :
    covered spans = covered other := by
  ext instant
  simp only [mem_covered, same.mem_iff]

/-- Spans that hold something and leave a gap between each other. -/
structure Apart (merged : List (α × α)) : Prop where
  proper : ∀ span ∈ merged, span.1 < span.2
  ordered : merged.Pairwise fun earlier later => earlier.2 < later.1

/-- The three ways a span is added. -/
theorem add_cases (merged : List (α × α)) (span : α × α) :
    (span.2 ≤ span.1 ∧ add merged span = merged) ∨
      (∃ earlier last, merged = earlier ++ [last] ∧ span.1 < span.2 ∧ span.1 ≤ last.2 ∧
        add merged span = earlier ++ [(last.1, max last.2 span.2)]) ∨
      (span.1 < span.2 ∧ (∀ last ∈ merged.getLast?, last.2 < span.1) ∧
        add merged span = merged ++ [span]) := by
  unfold add
  split
  · next inverted => exact .inl ⟨inverted, rfl⟩
  next proper =>
  right
  rcases List.eq_nil_or_concat merged with rfl | ⟨earlier, last, rfl⟩
  · exact .inr ⟨not_le.mp proper, by simp, rfl⟩
  · rw [List.concat_eq_append, List.getLast?_concat, List.dropLast_concat]
    dsimp only
    split
    · next touches => exact .inl ⟨earlier, last, rfl, not_le.mp proper, touches, rfl⟩
    · next beyond => exact .inr ⟨not_le.mp proper, by simpa using beyond, rfl⟩

/-- Adding a span that starts no earlier than the others adds what it covers. -/
theorem covered_add (started : ∀ earlier ∈ merged, earlier.1 ≤ span.1) :
    covered (add merged span) = covered merged ∪ Set.Ico span.1 span.2 := by
  rcases add_cases merged span with
    ⟨inverted, same⟩ | ⟨earlier, last, rfl, proper, touches, extended⟩ | ⟨_, _, appended⟩
  · rw [same, Set.Ico_eq_empty (not_lt.mpr inverted), Set.union_empty]
  · have first : last.1 ≤ span.1 := started last (by simp)
    have joined : Set.Ico last.1 (max last.2 span.2) =
        Set.Ico last.1 last.2 ∪ Set.Ico span.1 span.2 := by
      ext instant
      simp only [Set.mem_Ico, Set.mem_union, lt_max_iff]
      constructor
      · rintro ⟨from_, before | before⟩
        · exact .inl ⟨from_, before⟩
        · rcases lt_or_ge instant last.2 with inside | beyond
          · exact .inl ⟨from_, inside⟩
          · exact .inr ⟨touches.trans beyond, before⟩
      · rintro (⟨from_, before⟩ | ⟨from_, before⟩)
        · exact ⟨from_, .inl before⟩
        · exact ⟨first.trans from_, .inr before⟩
    rw [extended]
    simp only [covered_append, covered_cons, covered_nil, Set.union_empty]
    rw [joined, Set.union_assoc]
  · rw [appended]
    simp

theorem Apart.add (apart : Apart merged) (started : ∀ earlier ∈ merged, earlier.1 ≤ span.1) :
    Apart (add merged span) := by
  rcases add_cases merged span with
    ⟨_, same⟩ | ⟨earlier, last, rfl, proper, _, extended⟩ | ⟨proper, beyond, appended⟩
  · rw [same]
    exact apart
  · obtain ⟨before, _, between⟩ := List.pairwise_append.mp apart.ordered
    rw [extended]
    refine ⟨fun other member => ?_, List.pairwise_append.mpr ⟨before, List.pairwise_singleton .., ?_⟩⟩
    · rcases List.mem_append.mp member with inEarlier | inLast
      · exact apart.proper other (List.mem_append_left _ inEarlier)
      · obtain rfl := List.mem_singleton.mp inLast
        exact lt_max_of_lt_left (apart.proper last (by simp))
    · intro other inEarlier _ inLast
      obtain rfl := List.mem_singleton.mp inLast
      exact between other inEarlier last (by simp)
  · rw [appended]
    refine ⟨fun other member => ?_,
      List.pairwise_append.mpr ⟨apart.ordered, List.pairwise_singleton .., ?_⟩⟩
    · rcases List.mem_append.mp member with inMerged | inLast
      · exact apart.proper other inMerged
      · obtain rfl := List.mem_singleton.mp inLast
        exact proper
    · intro other inMerged added inLast
      rw [List.mem_singleton.mp inLast]
      rcases List.eq_nil_or_concat merged with rfl | ⟨earlier, last, rfl⟩
      · cases inMerged
      rw [List.concat_eq_append] at inMerged apart beyond
      have ended : last.2 < span.1 := beyond last (by simp)
      rcases List.mem_append.mp inMerged with inEarlier | inLast
      · have gap := (List.pairwise_append.mp apart.ordered).2.2 other inEarlier last (by simp)
        exact (gap.trans (apart.proper last (by simp))).trans ended
      · rwa [List.mem_singleton.mp inLast]

theorem started_add {bound : α} (started : ∀ earlier ∈ merged, earlier.1 ≤ bound)
    (own : span.1 ≤ bound) : ∀ earlier ∈ add merged span, earlier.1 ≤ bound := by
  intro other member
  rcases add_cases merged span with
    ⟨_, same⟩ | ⟨earlier, last, rfl, _, _, extended⟩ | ⟨_, _, appended⟩
  · rw [same] at member
    exact started other member
  · rw [extended] at member
    rcases List.mem_append.mp member with inEarlier | inLast
    · exact started other (List.mem_append_left _ inEarlier)
    · obtain rfl := List.mem_singleton.mp inLast
      exact started last (by simp)
  · rw [appended] at member
    rcases List.mem_append.mp member with inMerged | inLast
    · exact started other inMerged
    · obtain rfl := List.mem_singleton.mp inLast
      exact own

/-- Merging spans in the order of their starts keeps what they cover and leaves them apart. -/
theorem foldl_add (sorted : spans.Pairwise fun earlier later => earlier.1 ≤ later.1)
    (apart : Apart merged)
    (started : ∀ earlier ∈ merged, ∀ later ∈ spans, earlier.1 ≤ later.1) :
    Apart (spans.foldl add merged) ∧
      covered (spans.foldl add merged) = covered merged ∪ covered spans := by
  induction spans generalizing merged with
  | nil => simp [apart]
  | cons span rest ih =>
    obtain ⟨first, later⟩ := List.pairwise_cons.mp sorted
    have own : ∀ earlier ∈ merged, earlier.1 ≤ span.1 :=
      fun earlier member => started earlier member span List.mem_cons_self
    have next : ∀ earlier ∈ add merged span, ∀ later ∈ rest, earlier.1 ≤ later.1 := by
      intro earlier member later inRest
      exact started_add (fun other inMerged => (own other inMerged).trans (first later inRest))
        (first later inRest) earlier member
    obtain ⟨kept, union⟩ := ih later (apart.add own) next
    refine ⟨kept, ?_⟩
    rw [List.foldl_cons, union, covered_add own, covered_cons, Set.union_assoc]

/-- A strictly monotone map commutes with merging. -/
theorem map_add {f : α → β} (strict : StrictMono f) (merged : List (α × α)) (span : α × α) :
    (add merged span).map (Prod.map f f) = add (merged.map (Prod.map f f)) (Prod.map f f span) := by
  unfold add
  rw [List.getLast?_map]
  simp only [Prod.map_fst, Prod.map_snd, strict.le_iff_le]
  split
  · rfl
  cases merged.getLast? with
  | none => rfl
  | some last =>
    simp only [Option.map_some, Prod.map_fst, Prod.map_snd, strict.le_iff_le]
    split
    · rw [List.map_append, List.map_dropLast, List.map_singleton, Prod.map_apply,
        strict.monotone.map_max]
    · rw [List.map_append, List.map_singleton]

theorem map_foldl_add {f : α → β} (strict : StrictMono f) (spans merged : List (α × α)) :
    (spans.foldl add merged).map (Prod.map f f) =
      (spans.map (Prod.map f f)).foldl add (merged.map (Prod.map f f)) := by
  induction spans generalizing merged with
  | nil => rfl
  | cons span rest ih => rw [List.foldl_cons, ih, map_add strict, List.map_cons, List.foldl_cons]

/-! ## Length -/

open MeasureTheory

theorem measurableSet_covered (spans : List (ℝ × ℝ)) : MeasurableSet (covered spans) := by
  induction spans with
  | nil => simp
  | cons span rest ih =>
    rw [covered_cons]
    exact measurableSet_Ico.union ih

/-- The lengths of spans that are apart add up to the length of their union. -/
theorem Apart.volume_covered {merged : List (ℝ × ℝ)} (apart : Apart merged) :
    volume (covered merged) =
      ENNReal.ofReal (merged.map fun span => span.2 - span.1).sum := by
  induction merged with
  | nil => simp
  | cons span rest ih =>
    obtain ⟨first, later⟩ := List.pairwise_cons.mp apart.ordered
    have proper := apart.proper span List.mem_cons_self
    have others : Apart rest :=
      ⟨fun other member => apart.proper other (List.mem_cons_of_mem _ member), later⟩
    have disjoint : Disjoint (Set.Ico span.1 span.2) (covered rest) := by
      refine Set.disjoint_left.mpr fun instant inside outside => ?_
      obtain ⟨other, member, from_, _⟩ := mem_covered.mp outside
      exact absurd (inside.2.trans (first other member)) (not_lt.mpr from_)
    have nonneg : 0 ≤ (rest.map fun span => span.2 - span.1).sum := by
      refine List.sum_nonneg fun length member => ?_
      obtain ⟨other, inRest, rfl⟩ := List.mem_map.mp member
      exact (sub_pos.mpr (others.proper other inRest)).le
    rw [covered_cons, measure_union disjoint (measurableSet_covered rest), ih others, Real.volume_Ico,
      List.map_cons, List.sum_cons, ENNReal.ofReal_add (sub_pos.mpr proper).le nonneg]

end SpanMerge
