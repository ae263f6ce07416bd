import PolymarketBt.Model.ChartCache
import PolymarketBt.ToMathlib.LatestByKey

/-! # Merging of chart points

Points reach the cache in batches, newest first or from a backlog. A merge keeps for every second
the last of its greatest points, by time and sequence, and a merge of kept points goes on from where
the list was cut, so no cut matters; the order matters only between points that tie.
-/

namespace PolymarketBt

open StableSort LatestByKey

theorem map_point_stored (points : List ChartPoint) :
    (points.map ChartPoint.stored).map StoredPoint.point = points := by
  rw [List.map_map]
  exact List.map_id points

theorem placePoint_eq (buckets : List (ℤ × ChartPoint)) (raw : StoredPoint) :
    placePoint buckets raw = place ChartPoint.bucket ChartPoint.rank buckets raw.point := by
  unfold placePoint place
  split
  · next absent => simp only [absent]
  · next previous found => simp only [found]

/-- The buckets of a merge are the map of the latest points. -/
theorem mergePoints_eq (current incoming : List StoredPoint) :
    mergePoints current incoming =
      latest ChartPoint.bucket ChartPoint.rank ((current ++ incoming).map StoredPoint.point) := by
  have step : placePoint =
      fun buckets raw => place ChartPoint.bucket ChartPoint.rank buckets raw.point :=
    funext₂ placePoint_eq
  unfold mergePoints latest
  rw [List.foldl_map, step]

/-- What a merge of the supplied points has to keep. -/
structure LatestOfSeconds (supplied : List StoredPoint) (kept : List ChartPoint) : Prop where
  /-- Points go up in time, one a second. -/
  increasing : kept.Pairwise fun first second => first.bucket < second.bucket ∧ first.tMs < second.tMs
  /-- Every second with a point has one. -/
  covered : ∀ raw ∈ supplied, ∃ point ∈ kept, point.bucket = raw.point.bucket
  /-- It is the last supplied of the greatest. -/
  selected : ∀ point, point ∈ kept ↔ ∃ earlier raw later, supplied = earlier ++ raw :: later ∧
    raw.point = point ∧
    (∀ other ∈ earlier, other.point.bucket = point.bucket → other.point.rank ≤ point.rank) ∧
    ∀ other ∈ later, other.point.bucket = point.bucket → other.point.rank < point.rank

/-- No two different points share their time and sequence. -/
def Untied (points : List StoredPoint) : Prop :=
  ∀ first ∈ points, ∀ second ∈ points, first.point.rank = second.point.rank →
    first.point = second.point

theorem mergePoints_latestOfSeconds (current incoming : List StoredPoint) :
    LatestOfSeconds (current ++ incoming) (mergePoints current incoming) := by
  rw [mergePoints_eq]
  generalize current ++ incoming = supplied
  refine ⟨?_, ?_, ?_⟩
  · refine (latest_increasing _ _ _).imp fun {first second} below => ⟨below, ?_⟩
    unfold ChartPoint.bucket at below
    omega
  · exact fun raw member => exists_latest (List.mem_map_of_mem member)
  · intro point
    rw [mem_latest_iff]
    constructor
    · rintro ⟨before, after, split, below, above⟩
      obtain ⟨earlier, rest, rfl, rfl, restSplit⟩ := List.map_eq_append_iff.mp split
      obtain ⟨raw, later, rfl, rfl, rfl⟩ := List.map_eq_cons_iff.mp restSplit
      exact ⟨earlier, raw, later, rfl, rfl, fun other member => below _ (List.mem_map_of_mem member),
        fun other member => above _ (List.mem_map_of_mem member)⟩
    · rintro ⟨earlier, raw, later, rfl, rfl, below, above⟩
      refine ⟨earlier.map StoredPoint.point, later.map StoredPoint.point, by simp, ?_, ?_⟩
      · exact List.forall_mem_map.mpr below
      · exact List.forall_mem_map.mpr above

/-- A merge goes on from the points of an earlier one. -/
theorem mergePoints_mergePoints (current first second : List StoredPoint) :
    mergePoints ((mergePoints current first).map ChartPoint.stored) second =
      mergePoints current (first ++ second) := by
  simp only [mergePoints_eq, List.map_append, map_point_stored, latest_append_latest,
    List.append_assoc]

theorem foldl_mergePoints (current first : List StoredPoint) (batches : List (List StoredPoint)) :
    batches.foldl (fun kept batch => mergePoints (kept.map ChartPoint.stored) batch)
      (mergePoints current first) = mergePoints current (first ++ batches.flatten) := by
  induction batches generalizing first with
  | nil => rw [List.foldl_nil, List.flatten_nil, List.append_nil]
  | cons batch rest ih =>
    rw [List.foldl_cons, mergePoints_mergePoints, ih, List.flatten_cons, List.append_assoc]

theorem mergePoints_self (current incoming : List StoredPoint) :
    mergePoints ((mergePoints current incoming).map ChartPoint.stored)
      ((mergePoints current incoming).map ChartPoint.stored) = mergePoints current incoming := by
  simp only [mergePoints_eq, List.map_append, map_point_stored, latest_append_self]

/-- Without ties a merge depends only on which points there are. -/
theorem Untied.mergePoints_congr {points : List StoredPoint} (untied : Untied points)
    {current incoming : List StoredPoint} (same : ∀ raw, raw ∈ current ++ incoming ↔ raw ∈ points) :
    mergePoints current incoming = mergePoints [] points := by
  rw [mergePoints_eq, mergePoints_eq, List.nil_append]
  refine (latest_congr_of_mem (fun point => by simp only [List.mem_map, same]) ?_).symm
  intro first inFirst second inSecond _ rank
  obtain ⟨raw, member, rfl⟩ := List.mem_map.mp inFirst
  obtain ⟨other, otherMember, rfl⟩ := List.mem_map.mp inSecond
  exact untied raw member other otherMember rank

/-- However the points are cut into batches, the merges keep the latest point of every second, and
merging the kept points again changes nothing; without ties neither does their order, nor merging
any of the points again. -/
theorem mergePoints_independent_of_batches :
    (∀ (current first : List StoredPoint) (batches : List (List StoredPoint)),
      batches.foldl (fun kept batch => mergePoints (kept.map ChartPoint.stored) batch)
        (mergePoints current first) = mergePoints current (first ++ batches.flatten)) ∧
    (∀ batches : List (List StoredPoint),
      batches.foldl (fun kept batch => mergePoints (kept.map ChartPoint.stored) batch) [] =
        mergePoints [] batches.flatten) ∧
    (∀ current incoming : List StoredPoint,
      LatestOfSeconds (current ++ incoming) (mergePoints current incoming) ∧
      mergePoints ((mergePoints current incoming).map ChartPoint.stored)
        ((mergePoints current incoming).map ChartPoint.stored) = mergePoints current incoming) ∧
    ∀ points : List StoredPoint, Untied points →
      (∀ other : List StoredPoint, other.Perm points →
        mergePoints [] other = mergePoints [] points) ∧
      ∀ again : List StoredPoint, again ⊆ points →
        mergePoints ((mergePoints [] points).map ChartPoint.stored) again =
          mergePoints [] points := by
  refine ⟨foldl_mergePoints, foldl_mergePoints [] [], fun current incoming =>
    ⟨mergePoints_latestOfSeconds current incoming, mergePoints_self current incoming⟩, ?_⟩
  intro points untied
  refine ⟨fun other perm => untied.mergePoints_congr fun raw => perm.mem_iff, ?_⟩
  intro again within
  rw [mergePoints_mergePoints]
  refine untied.mergePoints_congr fun raw => ?_
  rw [List.nil_append, List.mem_append]
  exact or_iff_left_of_imp fun member => within member

/-- Two points of one second, the later supplied first and one from an older file. -/
def secondPoints : List StoredPoint :=
  [⟨1500, some 8, some 480000, some 520000, some 500000, some 40000⟩,
    ⟨1200, none, none, some 530000, none, none⟩]

theorem mergePoints_independent_of_batches_second :
    mergePoints [] secondPoints.reverse = mergePoints [] secondPoints ∧
    mergePoints ((mergePoints [] secondPoints).map ChartPoint.stored) secondPoints.tail =
      mergePoints [] secondPoints := by
  have untied : Untied secondPoints := by
    unfold Untied
    decide
  have merged := mergePoints_independent_of_batches.2.2.2 secondPoints untied
  exact ⟨merged.1 _ (List.reverse_perm _), merged.2 _ (List.tail_sublist _).subset⟩

end PolymarketBt
