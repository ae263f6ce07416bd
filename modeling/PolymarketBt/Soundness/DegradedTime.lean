import PolymarketBt.Model.Engine
import PolymarketBt.ToMathlib.SpanMerge

/-! # Degraded time is the measure of a union

The engine cuts every quality interval to the span of the replay, sorts the pieces and merges them in
one pass. Cutting can invert a piece, which the pass then skips. What is left is apart and covers the
same instants but for ends, so that its lengths add up to the measure of the union.
-/

namespace PolymarketBt

open MeasureTheory StableSort

/-- The instants that an interval marks; without an end it goes on. -/
def QualityInterval.extent (interval : QualityInterval) : Set ℝ :=
  {instant | interval.startUtcNs ≤ instant ∧ ∀ endUtcNs ∈ interval.endUtcNs, instant ≤ endUtcNs}

/-- The instants of a replay that some interval marks. -/
def degradedInstants (replayStart replayEnd : ℤ) (intervals : List QualityInterval) : Set ℝ :=
  ⋃ interval ∈ intervals, interval.extent ∩ Set.Icc (replayStart : ℝ) replayEnd

/-- The first and the last receipt of the events. -/
structure ReplaySpan (events : List ReplayEvent) (replayStart replayEnd : ℤ) : Prop where
  first : IsLeast {received | ∃ event ∈ events, event.receivedUtcNs = received} replayStart
  last : IsGreatest {received | ∃ event ∈ events, event.receivedUtcNs = received} replayEnd

theorem ReplaySpan.min_max {events : List ReplayEvent} {replayStart replayEnd : ℤ}
    (span : ReplaySpan events replayStart replayEnd) :
    (events.map ReplayEvent.receivedUtcNs).min? = some replayStart ∧
      (events.map ReplayEvent.receivedUtcNs).max? = some replayEnd := by
  rw [List.min?_eq_some_iff, List.max?_eq_some_iff]
  simp only [List.mem_map]
  exact ⟨⟨span.first.1, fun _ received => span.first.2 received⟩,
    span.last.1, fun _ received => span.last.2 received⟩

/-- The spans that the engine merges. -/
def clippedSpans (replayStart replayEnd : ℤ) (intervals : List QualityInterval) : List (ℤ × ℤ) :=
  sortByKey toLex (intervals.map (clipInterval replayStart replayEnd))

/-- The nanoseconds that the merged spans hold. -/
def degradedNs (replayStart replayEnd : ℤ) (intervals : List QualityInterval) : ℤ :=
  (((clippedSpans replayStart replayEnd intervals).foldl mergeSpan []).map
    fun span => span.2 - span.1).sum

theorem mergeSpan_eq_add : mergeSpan = SpanMerge.add := by
  funext merged span
  unfold mergeSpan SpanMerge.add
  cases merged.getLast? <;> rfl

theorem degradedTimePpm_eq {events : List ReplayEvent} {replayStart replayEnd : ℤ}
    (span : ReplaySpan events replayStart replayEnd) (proper : replayStart < replayEnd)
    (intervals : List QualityInterval) :
    degradedTimePpm events intervals = min 1000000
      (degradedNs replayStart replayEnd intervals * 1000000 / (replayEnd - replayStart)) := by
  obtain ⟨first, last⟩ := span.min_max
  unfold degradedTimePpm
  rw [first, last]
  dsimp only
  cases intervals with
  | nil => simp [degradedNs, clippedSpans, sortByKey]
  | cons interval rest =>
    rw [List.isEmpty_cons, if_neg (by decide), if_neg (by omega)]
    rfl

/-- An interval cut to the replay marks the instants of its clipped span, the end included. -/
theorem extent_inter {interval : QualityInterval} (replayStart replayEnd : ℤ)
    (positive : ∀ endUtcNs ∈ interval.endUtcNs, 0 < endUtcNs) :
    interval.extent ∩ Set.Icc (replayStart : ℝ) replayEnd =
      Set.Icc ((clipInterval replayStart replayEnd interval).1 : ℝ)
        (clipInterval replayStart replayEnd interval).2 := by
  unfold clipInterval QualityInterval.extent
  ext instant
  simp only [Set.mem_inter_iff, Set.mem_ofPred_eq, Set.mem_Icc, Int.cast_max, Int.cast_min,
    max_le_iff, le_min_iff]
  cases last : interval.endUtcNs with
  | none =>
    simp only [Option.mem_def, reduceCtorEq, false_implies, implies_true, and_true]
    tauto
  | some endUtcNs =>
    have nonzero : endUtcNs ≠ 0 := (positive endUtcNs last).ne'
    simp only [Option.mem_def, Option.some.injEq, forall_eq', if_neg nonzero]
    tauto

theorem clippedSpans_sorted (replayStart replayEnd : ℤ) (intervals : List QualityInterval) :
    (clippedSpans replayStart replayEnd intervals).Pairwise
      fun earlier later => earlier.1 ≤ later.1 := by
  refine List.Pairwise.imp ?_ (sortByKey_inOrder toLex _)
  exact fun {_ _} inOrder => Prod.Lex.monotone_fst _ _ inOrder

/-- The merged nanoseconds are the measure of the marked instants. -/
theorem degradedNs_eq_volume {replayStart replayEnd : ℤ} {intervals : List QualityInterval}
    (positive : ∀ interval ∈ intervals, ∀ endUtcNs ∈ interval.endUtcNs, 0 < endUtcNs) :
    volume (degradedInstants replayStart replayEnd intervals) =
      ENNReal.ofReal (degradedNs replayStart replayEnd intervals) := by
  let cast : ℤ × ℤ → ℝ × ℝ := Prod.map Int.cast Int.cast
  let spans := clippedSpans replayStart replayEnd intervals
  have sorted : (spans.map cast).Pairwise fun earlier later => earlier.1 ≤ later.1 := by
    refine List.pairwise_map.mpr ((clippedSpans_sorted ..).imp fun {_ _} le => ?_)
    exact Int.cast_le.mpr le
  obtain ⟨apart, union⟩ := SpanMerge.foldl_add sorted ⟨by simp, List.Pairwise.nil⟩ (by simp)
  rw [SpanMerge.covered_nil, Set.empty_union] at union
  have merged : (spans.map cast).foldl SpanMerge.add [] =
      (spans.foldl mergeSpan []).map cast := by
    rw [mergeSpan_eq_add, SpanMerge.map_foldl_add Int.cast_strictMono, List.map_nil]
  rw [merged] at apart union
  have pieces : degradedInstants replayStart replayEnd intervals =ᵐ[volume]
      SpanMerge.covered (spans.map cast) := by
    have listed : SpanMerge.covered (spans.map cast) =
        ⋃ interval ∈ {interval | interval ∈ intervals},
          Set.Ico ((clipInterval replayStart replayEnd interval).1 : ℝ)
            (clipInterval replayStart replayEnd interval).2 := by
      have same : (spans.map cast).Perm
          ((intervals.map (clipInterval replayStart replayEnd)).map cast) :=
        (sortByKey_perm toLex _).map cast
      rw [SpanMerge.covered_perm same]
      simp [SpanMerge.covered, cast]
    rw [listed]
    refine Filter.EventuallyEq.countable_bUnion (intervals.finite_toSet.countable) fun interval member => ?_
    rw [extent_inter replayStart replayEnd (positive interval member)]
    exact Ico_ae_eq_Icc.symm
  rw [measure_congr pieces, ← union, apart.volume_covered, degradedNs, List.map_map]
  congr 1
  push_cast
  rw [List.map_map]
  congr 2
  funext span
  simp [cast]

/-- The marked instants lie in the replay. -/
theorem volume_degraded_le (replayStart replayEnd : ℤ) (intervals : List QualityInterval) :
    volume (degradedInstants replayStart replayEnd intervals) ≤
      ENNReal.ofReal (replayEnd - replayStart) := by
  rw [← Real.volume_Icc]
  exact measure_mono (Set.iUnion₂_subset fun _ _ => Set.inter_subset_right)

theorem degradedNs_nonneg (replayStart replayEnd : ℤ) (intervals : List QualityInterval) :
    0 ≤ degradedNs replayStart replayEnd intervals := by
  obtain ⟨apart, _⟩ := SpanMerge.foldl_add (clippedSpans_sorted replayStart replayEnd intervals)
    ⟨by simp, List.Pairwise.nil⟩ (by simp)
  rw [degradedNs, mergeSpan_eq_add]
  refine List.sum_nonneg fun length member => ?_
  obtain ⟨span, inMerged, rfl⟩ := List.mem_map.mp member
  exact (sub_pos.mpr (apart.proper span inMerged)).le

section Report

variable {events : List ReplayEvent} {replayStart replayEnd : ℤ} {intervals : List QualityInterval}

/-- The report is the share of the measure of the marked instants in the replay, in whole ppm. -/
theorem degradedTimePpm_eq_floor (span : ReplaySpan events replayStart replayEnd)
    (proper : replayStart < replayEnd)
    (positive : ∀ interval ∈ intervals, ∀ endUtcNs ∈ interval.endUtcNs, 0 < endUtcNs) :
    degradedTimePpm events intervals =
      ⌊1000000 * volume.real (degradedInstants replayStart replayEnd intervals) /
        ((replayEnd - replayStart : ℤ) : ℝ)⌋ := by
  have nonneg := degradedNs_nonneg replayStart replayEnd intervals
  have nonneg' : (0 : ℝ) ≤ degradedNs replayStart replayEnd intervals := by exact_mod_cast nonneg
  have measured : volume.real (degradedInstants replayStart replayEnd intervals) =
      degradedNs replayStart replayEnd intervals := by
    rw [measureReal_def, degradedNs_eq_volume positive, ENNReal.toReal_ofReal nonneg']
  have inside : degradedNs replayStart replayEnd intervals ≤ replayEnd - replayStart := by
    have bounded := volume_degraded_le replayStart replayEnd intervals
    have length : (0 : ℝ) ≤ replayEnd - replayStart :=
      sub_nonneg.mpr (Int.cast_le.mpr proper.le)
    rw [degradedNs_eq_volume positive, ENNReal.ofReal_le_ofReal_iff length] at bounded
    exact_mod_cast bounded
  have share : degradedNs replayStart replayEnd intervals * 1000000 / (replayEnd - replayStart) ≤
      1000000 := by
    refine Int.ediv_le_of_le_mul (by omega) ?_
    rw [mul_comm]
    exact Int.mul_le_mul_of_nonneg_left inside (by decide)
  have whole : (1000000 : ℝ) * degradedNs replayStart replayEnd intervals =
      ((degradedNs replayStart replayEnd intervals * 1000000 : ℤ) : ℝ) := by
    push_cast
    ring
  rw [degradedTimePpm_eq span proper, min_eq_right share, measured, whole,
    Int.floor_div_cast_of_nonneg (by omega), Int.floor_intCast]

theorem ReplaySpan.perm {other : List ReplayEvent} (span : ReplaySpan events replayStart replayEnd)
    (same : other.Perm events) : ReplaySpan other replayStart replayEnd := by
  have received : {received | ∃ event ∈ other, event.receivedUtcNs = received} =
      {received | ∃ event ∈ events, event.receivedUtcNs = received} := by
    simp only [same.mem_iff]
  exact ⟨received ▸ span.first, received ▸ span.last⟩

theorem degradedInstants_perm {other : List QualityInterval} (same : other.Perm intervals) :
    degradedInstants replayStart replayEnd other = degradedInstants replayStart replayEnd intervals := by
  simp only [degradedInstants, same.mem_iff]

/-- Degraded time is the measure of the union of the intervals cut to the replay, in ppm of its span:
at most all of it, whatever the order of events and intervals. -/
theorem degradedTimePpm_measures_union (span : ReplaySpan events replayStart replayEnd)
    (proper : replayStart < replayEnd)
    (positive : ∀ interval ∈ intervals, ∀ endUtcNs ∈ interval.endUtcNs, 0 < endUtcNs) :
    degradedTimePpm events intervals =
        ⌊1000000 * volume.real (degradedInstants replayStart replayEnd intervals) /
          ((replayEnd - replayStart : ℤ) : ℝ)⌋ ∧
      degradedTimePpm events intervals ≤ 1000000 ∧
      ∀ (events' : List ReplayEvent) (intervals' : List QualityInterval), events'.Perm events →
        intervals'.Perm intervals →
          degradedTimePpm events' intervals' = degradedTimePpm events intervals := by
  refine ⟨degradedTimePpm_eq_floor span proper positive, ?_, ?_⟩
  · rw [degradedTimePpm_eq span proper]
    exact min_le_left _ _
  · intro events' intervals' sameEvents sameIntervals
    have positive' : ∀ interval ∈ intervals', ∀ endUtcNs ∈ interval.endUtcNs, 0 < endUtcNs :=
      fun interval member => positive interval (sameIntervals.mem_iff.mp member)
    rw [degradedTimePpm_eq_floor (span.perm sameEvents) proper positive',
      degradedTimePpm_eq_floor span proper positive, degradedInstants_perm sameIntervals]

end Report

/-- A record of the collector itself. -/
def recordAt (receivedUtcNs : ℤ) : ReplayEvent where
  exchangeTimestampNs := none
  receivedUtcNs := receivedUtcNs
  receivedMonotonicNs := receivedUtcNs
  connectionId := "connection"
  sequence := receivedUtcNs
  parentChangeIndex := 0
  sourcePriority := 0
  payload := .other "heartbeat" (by decide)

/-- A gap that reaches back before the replay, one inside it, and one that does not end. -/
def exampleGaps : List QualityInterval :=
  [⟨190, none, .unreliable, "disconnect", []⟩, ⟨50, some 140, .degraded, "slow", []⟩,
    ⟨110, some 120, .degraded, "slow", []⟩, ⟨20, some 60, .degraded, "slow", []⟩]

theorem degradedTimePpm_measures_union_gaps :
    degradedTimePpm [recordAt 200, recordAt 100] exampleGaps = 500000 ∧
      ⌊1000000 * volume.real (degradedInstants 100 200 exampleGaps) / ((200 - 100 : ℤ) : ℝ)⌋ =
        500000 := by
  have span : ReplaySpan [recordAt 200, recordAt 100] 100 200 := by
    refine ⟨⟨by simp [recordAt], ?_⟩, by simp [recordAt], ?_⟩
    · rintro _ ⟨event, member, rfl⟩
      rcases List.mem_pair.mp member with rfl | rfl <;> decide
    · rintro _ ⟨event, member, rfl⟩
      rcases List.mem_pair.mp member with rfl | rfl <;> decide
  have value : degradedTimePpm [recordAt 200, recordAt 100] exampleGaps = 500000 := by decide
  have positive : ∀ interval ∈ exampleGaps, ∀ endUtcNs ∈ interval.endUtcNs, 0 < endUtcNs := by
    decide
  have measured := (degradedTimePpm_measures_union span (by decide) positive).1
  exact ⟨value, measured.symm.trans value⟩

end PolymarketBt
