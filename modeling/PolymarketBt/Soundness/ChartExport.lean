import PolymarketBt.Model.ChartExport

/-! # Completeness of the bulk export

Without a series file the exported points come from the downsampler of the chart, which keeps one row
of every bucket. The export asks for so many points that a bucket is a fraction of a millisecond, and
it is complete exactly as long as no two rows of a token are that close.
-/

namespace PolymarketBt

open KeyedList StableSort

namespace ExportMarket

variable {market : ExportMarket} {rows : List TopRow} {outcome : Outcome}

theorem placeRow_of_none {row : TopRow} (maxPoints : ℤ) (buckets : Outcome → List (ℤ × ExportPoint))
    (foreign : market.tokenOutcomes row.tokenId = none) :
    market.placeRow maxPoints buckets row = buckets := by
  unfold placeRow
  rw [foreign]

theorem placeRow_of_some {row : TopRow} (maxPoints : ℤ) (buckets : Outcome → List (ℤ × ExportPoint))
    (own : market.tokenOutcomes row.tokenId = some outcome) :
    market.placeRow maxPoints buckets row = Function.update buckets outcome
      (assign (market.bucket maxPoints row.receivedUtcNs) row.exportPoint (buckets outcome)) := by
  unfold placeRow
  rw [own]

theorem foldl_placeRow (maxPoints : ℤ) :
    rows.foldl (market.placeRow maxPoints) (fun _ => []) outcome =
      fill (fun row => market.bucket maxPoints row.receivedUtcNs) TopRow.exportPoint
        (rows.filter fun row => market.tokenOutcomes row.tokenId = some outcome) := by
  induction rows using List.reverseRecOn with
  | nil => rfl
  | append_singleton front last ih =>
    rw [List.foldl_append, List.foldl_cons, List.foldl_nil, List.filter_append]
    cases kind : market.tokenOutcomes last.tokenId with
    | none =>
      rw [placeRow_of_none maxPoints _ kind, ih]
      simp [kind]
    | some own =>
      rw [placeRow_of_some maxPoints _ kind]
      by_cases same : own = outcome
      · subst same
        have selected : [last].filter (fun row => market.tokenOutcomes row.tokenId = some own) =
            [last] := by simp [kind]
        rw [selected, fill_concat, ← ih]
        exact Function.update_self ..
      · have skipped : [last].filter (fun row => market.tokenOutcomes row.tokenId = some outcome) =
            [] := by simp [kind, same]
        rw [skipped, List.append_nil, ← ih]
        exact Function.update_of_ne (Ne.symm same) ..

theorem width_pos (maxPoints : ℤ) : 0 < market.width maxPoints :=
  Int.lt_of_lt_of_le Int.one_pos (le_max_left _ _)

theorem bucket_mono (maxPoints : ℤ) {first second : ℤ} (le : first ≤ second) :
    market.bucket maxPoints first ≤ market.bucket maxPoints second := by
  have quotient := Int.ediv_le_ediv (market.width_pos maxPoints)
    (Int.sub_le_sub_right le market.marketStartUtcNs)
  unfold bucket
  omega

/-- Of rows in the order of receipt, the buckets keep every one exactly when none share one. -/
theorem sorted_fill_iff (maxPoints : ℤ) (ordered : InOrder TopRow.receivedUtcNs rows) :
    (sortByKey Prod.fst (fill (fun row => market.bucket maxPoints row.receivedUtcNs)
      TopRow.exportPoint rows)).map Prod.snd = rows.map TopRow.exportPoint ↔
      (rows.map fun row => market.bucket maxPoints row.receivedUtcNs).Nodup := by
  constructor
  · intro complete
    have count := congrArg List.length complete
    rw [List.length_map, (sortByKey_perm _ _).length_eq, List.length_map] at count
    exact length_fill_iff.mp count
  · intro apart
    have inOrder : InOrder Prod.fst
        (rows.map fun row => (market.bucket maxPoints row.receivedUtcNs, row.exportPoint)) :=
      List.pairwise_map.mpr (ordered.imp fun le => bucket_mono maxPoints le)
    rw [fill_of_nodup apart, inOrder.sortByKey_eq, List.map_map]
    rfl

theorem tokenOutcomes_eq_iff (distinct : market.upTokenId ≠ market.downTokenId) (tokenId : String) :
    market.tokenOutcomes tokenId = some outcome ↔ tokenId = market.tokenId outcome := by
  unfold tokenOutcomes
  cases outcome with
  | up =>
    split_ifs with down up
    · simp [ExportMarket.tokenId, down, Ne.symm distinct]
    · simp [ExportMarket.tokenId, up]
    · simp [ExportMarket.tokenId, up]
  | down =>
    split_ifs with down up
    · simp [ExportMarket.tokenId, down]
    · simp [ExportMarket.tokenId, down]
    · simp [ExportMarket.tokenId, down]

/-- No two rows of an outcome share a bucket of the export, and one token is not both outcomes. -/
structure Spaced (market : ExportMarket) (rows : List TopRow) : Prop where
  apart : ∀ outcome, ((rows.filter fun row => row.tokenId = market.tokenId outcome).map fun row =>
    market.bucket exportMaxPoints row.receivedUtcNs).Nodup
  tokens : market.upTokenId = market.downTokenId → ∀ row ∈ rows, row.tokenId ≠ market.upTokenId

end ExportMarket

open ExportMarket

/-- Without a series file an outcome's points are those of its token's rows, one by one and in order,
exactly when no two of these rows share a bucket. -/
theorem exportPoints_complete_iff (market : ExportMarket) (rows : List TopRow)
    (ordered : InOrder (fun row => toLex (row.receivedUtcNs, row.sequence)) rows) :
    (∀ outcome, exportPoints market none rows outcome =
      (rows.filter fun row => row.tokenId = market.tokenId outcome).map TopRow.exportPoint) ↔
      market.Spaced rows := by
  have received : InOrder TopRow.receivedUtcNs rows :=
    ordered.imp fun le => (Prod.Lex.toLex_le_toLex.mp le).elim le_of_lt fun same => same.1.le
  have filtered (keep : TopRow → Bool) : InOrder TopRow.receivedUtcNs (rows.filter keep) :=
    received.filter keep
  simp only [exportPoints, downsampleTop, foldl_placeRow]
  by_cases same : market.upTokenId = market.downTokenId
  · have never (tokenId : String) : market.tokenOutcomes tokenId ≠ some .up := by
      unfold tokenOutcomes
      split_ifs with down up
      · simp
      · exact absurd (up.trans same) down
      · simp
    have tokens (outcome : Outcome) : market.tokenId outcome = market.upTokenId := by
      cases outcome
      · rfl
      · exact same.symm
    constructor
    · intro complete
      have none := (complete .up).symm
      have nobody : rows.filter (fun row => market.tokenOutcomes row.tokenId = some .up) = [] := by
        simp [never]
      rw [nobody] at none
      have empty := List.map_eq_nil_iff.mp none
      refine ⟨fun outcome => ?_, fun _ row member own => ?_⟩
      · rw [tokens outcome, ← tokens .up, empty]
        exact List.nodup_nil
      · exact absurd (decide_eq_true own) (List.filter_eq_nil_iff.mp empty row member)
    · intro spaced outcome
      have absent := spaced.tokens same
      have nobody : rows.filter (fun row => market.tokenOutcomes row.tokenId = some outcome) = [] := by
        refine List.filter_eq_nil_iff.mpr fun row member => ?_
        have foreign := absent row member
        unfold tokenOutcomes
        rw [if_neg (same ▸ foreign), if_neg foreign]
        simp
      have empty : rows.filter (fun row => row.tokenId = market.tokenId outcome) = [] := by
        refine List.filter_eq_nil_iff.mpr fun row member => ?_
        rw [tokens outcome]
        simpa using absent row member
      rw [nobody, empty]
      rfl
  · simp only [tokenOutcomes_eq_iff same, sorted_fill_iff _ (filtered _)]
    exact ⟨fun apart => ⟨apart, fun equal => absurd equal same⟩, fun spaced => spaced.apart⟩

/-- A market of fifteen minutes. -/
def exportedMarket : ExportMarket where
  marketStartUtcNs := 1785525300000000000
  marketEndUtcNs := 1785526200000000000
  upTokenId := "up"
  downTokenId := "down"

/-- A row of the up token, so many nanoseconds after the start. -/
def topRowAt (afterNs sequence bid : ℤ) : TopRow where
  conditionId := "condition"
  tokenId := "up"
  receivedUtcNs := 1785525300000000000 + afterNs
  sequence := sequence
  bestBidScaled := some bid
  bestAskScaled := some 520000
  midpointScaled := none
  spreadScaled := none

theorem exportPoints_complete_iff_millisecond :
    exportPoints exportedMarket none [topRowAt 0 1 500000, topRowAt 1000000 2 510000] .up =
      [(topRowAt 0 1 500000).exportPoint, (topRowAt 1000000 2 510000).exportPoint] :=
  (exportPoints_complete_iff exportedMarket [topRowAt 0 1 500000, topRowAt 1000000 2 510000]
    (by unfold InOrder; decide)).mpr ⟨fun outcome => by cases outcome <;> decide, by decide⟩ .up

/-- Two updates of the up token a microsecond apart. -/
def burst : List TopRow := [topRowAt 5000000000 1 500000, topRowAt 5000001000 2 510000]

/-- Of the two updates only the second is exported. -/
theorem burst_exported_once :
    InOrder (fun row => toLex (row.receivedUtcNs, row.sequence)) burst ∧
    exportPoints exportedMarket none burst .up = [(topRowAt 5000001000 2 510000).exportPoint] ∧
    exportPoints exportedMarket none burst .up ≠
      (burst.filter fun row => row.tokenId = exportedMarket.tokenId .up).map TopRow.exportPoint := by
  refine ⟨?_, by decide +kernel, by decide +kernel⟩
  unfold InOrder
  decide

end PolymarketBt
