import PolymarketBt.Model.SnapshotRows
import PolymarketBt.Proofs.LevelOrder

/-! # Stored snapshots are read back

Snapshots with identifiers of their own, normalized in any batches and read from their files in any
order, are read back by both readers as they were, except that their levels come best price first;
and books reconstructed from them are those of the snapshots that were stored. Files that are
published twice give snapshots that every book refuses.
-/

namespace PolymarketBt

open GroupedFiles
open StableSort (InOrder sortByKey sortByKey_inOrder mem_sortByKey)

/-! ## Rows of one snapshot -/

namespace ParsedSnapshot

variable {snapshot : ParsedSnapshot} {row : SnapshotLevelRow} {side : Side}

theorem sideRows_spec (member : row ∈ snapshot.sideRows side) :
    row.snapshotId = snapshot.snapshotId ∧ row.side = side ∧ row.conditionId = snapshot.conditionId ∧
      row.tokenId = snapshot.tokenId ∧ row.receivedUtcNs = snapshot.receivedUtcNs := by
  obtain ⟨⟨level, index⟩, -, rfl⟩ := List.mem_map.mp member
  exact ⟨rfl, rfl, rfl, rfl, rfl⟩

theorem mem_ladderRows (member : row ∈ snapshot.ladderRows) :
    row.snapshotId = snapshot.snapshotId ∧ row.conditionId = snapshot.conditionId ∧
      row.tokenId = snapshot.tokenId ∧ row.receivedUtcNs = snapshot.receivedUtcNs := by
  rcases List.mem_append.mp member with member | member
  · exact ⟨(sideRows_spec member).1, (sideRows_spec member).2.2⟩
  · exact ⟨(sideRows_spec member).1, (sideRows_spec member).2.2⟩

theorem sideRows_levels : (snapshot.sideRows side).map SnapshotLevelRow.level =
    snapshot.sortedLevels side := by
  rw [sideRows, List.map_map]
  exact (List.map_congr_left fun _ _ => rfl).trans (List.zipIdx_map_fst 0 _)

theorem sideRows_filter (side other : Side) : ((snapshot.sideRows other).filter (·.side = side)) =
    if other = side then snapshot.sideRows other else [] := by
  split_ifs with same
  · exact List.filter_eq_self.mpr fun row member =>
      decide_eq_true ((sideRows_spec member).2.1.trans same)
  · exact List.filter_eq_nil_iff.mpr fun row member own =>
      same ((sideRows_spec member).2.1.symm.trans (of_decide_eq_true own))

theorem ladderRows_filter (side : Side) :
    snapshot.ladderRows.filter (·.side = side) = snapshot.sideRows side := by
  rw [ladderRows, List.filter_append, sideRows_filter, sideRows_filter]
  cases side <;> simp

/-- The ranks of a side increase. -/
theorem sideRows_inOrder : InOrder SnapshotLevelRow.levelRankFromBest (snapshot.sideRows side) := by
  refine List.pairwise_map.mpr (List.pairwise_iff_getElem.mpr fun first second inFirst inSecond lt => ?_)
  simp only [List.getElem_zipIdx]
  omega

end ParsedSnapshot

/-! ## Rows among those of other snapshots -/

/-- The level rows of the snapshot are stored once, in their order. -/
def StoredOnce (snapshot : ParsedSnapshot) (rows : List SnapshotLevelRow) : Prop :=
  rows.filter (·.snapshotId = snapshot.snapshotId) = snapshot.ladderRows

theorem collectedLevels_eq {rows : List SnapshotLevelRow} {snapshotId : String} {side : Side} :
    collectedLevels rows snapshotId side =
      ((rows.filter (·.snapshotId = snapshotId)).filter (·.side = side)).map
        SnapshotLevelRow.level := by
  rw [collectedLevels, List.filter_filter]
  congr 1
  refine List.filter_congr fun row _ => ?_
  rw [← Bool.decide_and, decide_eq_decide, and_comm]

namespace StoredOnce

variable {snapshot : ParsedSnapshot} {rows : List SnapshotLevelRow}

theorem collected (stored : StoredOnce snapshot rows) (side : Side) :
    collectedLevels rows snapshot.snapshotId side = snapshot.sortedLevels side := by
  rw [collectedLevels_eq, show rows.filter _ = snapshot.ladderRows from stored,
    ParsedSnapshot.ladderRows_filter, ParsedSnapshot.sideRows_levels]

/-- Rows are selected by what they share with their snapshot. -/
theorem filter (stored : StoredOnce snapshot rows) (keep : SnapshotLevelRow → Bool)
    (kept : ∀ row ∈ snapshot.ladderRows, keep row) : StoredOnce snapshot (rows.filter keep) := by
  rw [StoredOnce, List.filter_comm, show rows.filter _ = snapshot.ladderRows from stored]
  exact List.filter_eq_self.mpr kept

/-- Sorting by rank keeps the levels of each side. -/
theorem collected_sorted (stored : StoredOnce snapshot rows) (side : Side) :
    collectedLevels (sortByKey SnapshotLevelRow.levelRankFromBest rows) snapshot.snapshotId side =
      snapshot.sortedLevels side := by
  have own : ((sortByKey SnapshotLevelRow.levelRankFromBest rows).filter
      (·.snapshotId = snapshot.snapshotId)).filter (·.side = side) = snapshot.sideRows side := by
    rw [StableSort.sortByKey_filter, StableSort.sortByKey_filter,
      show rows.filter _ = snapshot.ladderRows from stored, ParsedSnapshot.ladderRows_filter,
      ParsedSnapshot.sideRows_inOrder.sortByKey_eq]
  rw [collectedLevels_eq, own, ParsedSnapshot.sideRows_levels]

theorem snapshot_eq (stored : StoredOnce snapshot rows) :
    snapshot.header.snapshot (collectedLevels rows snapshot.snapshotId .buy)
      (collectedLevels rows snapshot.snapshotId .sell) = snapshot.bestFirst := by
  rw [stored.collected, stored.collected]
  rfl

end StoredOnce

/-- A snapshot as the tape of an episode takes it. -/
def ParsedSnapshot.forEpisode (snapshot : ParsedSnapshot) (episode : Episode) : BookSnapshot :=
  { snapshot.toBookSnapshot with
    conditionId := episode.conditionId
    tickSizeScaled :=
      if snapshot.tickSizeScaled = 0 then episode.tickSizeScaled else snapshot.tickSizeScaled
    minimumOrderSizeScaled :=
      if snapshot.minimumOrderSizeScaled = 0 then episode.minimumOrderSizeScaled
      else snapshot.minimumOrderSizeScaled }

/-! ## Files -/

variable {partition : ℤ → String} {batches : List (List ParsedSnapshot)}
  {headers : List (List SnapshotHeader)} {levels : List (List SnapshotLevelRow)}

/-- The files that the batches are published in, as a reader finds them. -/
structure Published (partition : ℤ → String) (batches : List (List ParsedSnapshot))
    (headers : List (List SnapshotHeader)) (levels : List (List SnapshotLevelRow)) : Prop where
  headers : headers.Perm (batches.flatMap fun batch => (snapshotFiles partition batch).1)
  levels : levels.Perm (batches.flatMap fun batch => (snapshotFiles partition batch).2)
  distinct : (batches.flatten.map ParsedSnapshot.snapshotId).Nodup

namespace Published

variable (published : Published partition batches headers levels)

include published

theorem headers_perm : headers.flatten.Perm (batches.flatten.map ParsedSnapshot.header) := by
  refine published.headers.flatten.trans ?_
  clear published
  induction batches with
  | nil => exact .nil
  | cons batch rest ih =>
    rw [List.flatMap_cons, List.flatten_append, List.flatten_cons, List.map_append]
    exact groups_flatten_perm.append ih

theorem storedOnce {snapshot : ParsedSnapshot} (member : snapshot ∈ batches.flatten) :
    StoredOnce snapshot levels.flatten := by
  have rowsOf : ∀ batch : List ParsedSnapshot, ∀ row ∈ batch.flatMap ParsedSnapshot.ladderRows,
      ∃ other ∈ batch, row ∈ other.ladderRows := fun batch row => List.mem_flatMap.mp
  -- A row with the identifier of the snapshot is one of its own.
  have own : ∀ other ∈ batches.flatten, ∀ row ∈ other.ladderRows,
      row.snapshotId = snapshot.snapshotId → other = snapshot := fun other listed row row_ same =>
    List.inj_on_of_nodup_map published.distinct listed member
      ((ParsedSnapshot.mem_ladderRows row_).1.symm.trans same)
  have all : (batches.map (·.flatMap ParsedSnapshot.ladderRows)).flatten =
      batches.flatten.flatMap ParsedSnapshot.ladderRows := by
    rw [List.flatMap_def, List.map_flatten, List.flatten_flatten, List.map_map]
    rfl
  have read : levels.flatten.filter (·.snapshotId = snapshot.snapshotId) =
      (batches.map (·.flatMap ParsedSnapshot.ladderRows)).flatten.filter
        (·.snapshotId = snapshot.snapshotId) := by
    refine @filter_files _ _ _ (fun row => partition row.receivedUtcNs) _
      (partition snapshot.receivedUtcNs) _ _ ?_ ?_ ?_
    · rw [List.flatMap_map]
      exact published.levels
    · intro rows listed row row_ same
      obtain ⟨batch, inBatches, rfl⟩ := List.mem_map.mp listed
      obtain ⟨other, inBatch, row_⟩ := rowsOf batch row row_
      have here := own other (List.mem_flatten.mpr ⟨batch, inBatches, inBatch⟩) row row_
        (of_decide_eq_true same)
      rw [(ParsedSnapshot.mem_ladderRows row_).2.2.2, here]
    · rw [List.map_map]
      have apart := (List.nodup_flatten.mp (List.map_flatten ▸ published.distinct)).2
      refine List.pairwise_map.mpr ((List.pairwise_map.mp apart).imp_of_mem
        fun {first second} inFirst inSecond disjoint => ?_)
      have none (batch : List ParsedSnapshot) (inBatches : batch ∈ batches)
          (absent : snapshot ∉ batch) : (batch.flatMap ParsedSnapshot.ladderRows).filter
            (·.snapshotId = snapshot.snapshotId) = [] := by
        refine List.filter_eq_nil_iff.mpr fun row row_ same => absent ?_
        obtain ⟨other, inBatch, row_⟩ := rowsOf batch row row_
        exact own other (List.mem_flatten.mpr ⟨batch, inBatches, inBatch⟩) row row_
          (of_decide_eq_true same) ▸ inBatch
      by_cases here : snapshot ∈ first
      · refine .inr (none second inSecond fun also => ?_)
        exact disjoint (List.mem_map_of_mem here) (List.mem_map_of_mem also)
      · exact .inl (none first inFirst here)
  rw [StoredOnce, read, all]
  obtain ⟨before, after, split⟩ := List.append_of_mem member
  have others (part : List ParsedSnapshot) (inAll : ∀ other ∈ part, other ∈ batches.flatten)
      (absent : snapshot ∉ part) : (part.flatMap ParsedSnapshot.ladderRows).filter
        (·.snapshotId = snapshot.snapshotId) = [] := by
    refine List.filter_eq_nil_iff.mpr fun row row_ same => absent ?_
    obtain ⟨other, inPart, row_⟩ := rowsOf part row row_
    exact own other (inAll other inPart) row row_ (of_decide_eq_true same) ▸ inPart
  have nodup : (before ++ snapshot :: after).Nodup := split ▸ published.distinct.of_map
  obtain ⟨-, right, disjoint⟩ := List.nodup_append.mp nodup
  have self : snapshot.ladderRows.filter (·.snapshotId = snapshot.snapshotId) = snapshot.ladderRows :=
    List.filter_eq_self.mpr fun row row_ => decide_eq_true (ParsedSnapshot.mem_ladderRows row_).1
  rw [split, List.flatMap_append, List.flatMap_cons, List.filter_append, List.filter_append, self,
    others before (fun other inPart => split ▸ List.mem_append_left _ inPart)
      fun also => disjoint snapshot also snapshot (List.mem_cons_self ..) rfl,
    others after (fun other inPart => split ▸ List.mem_append_right _ (List.mem_cons_of_mem _ inPart))
      (List.nodup_cons.mp right).1, List.nil_append, List.append_nil]

/-- The event reader reads the snapshots of a market, or of all, back. -/
theorem readSnapshots_perm (conditionId : Option String) :
    (readSnapshots conditionId headers.flatten levels.flatten).Perm
      ((batches.flatten.filter fun snapshot => ofCondition conditionId snapshot.conditionId).map
        ParsedSnapshot.bestFirst) := by
  refine ((published.headers_perm.filter _).map _).trans ?_
  rw [List.filter_map, List.map_map]
  refine List.Perm.of_eq (List.map_congr_left fun snapshot member => ?_)
  obtain ⟨listed, wanted⟩ := List.mem_filter.mp member
  have stored := (published.storedOnce listed).filter
    (fun row => ofCondition conditionId row.conditionId) fun row own => by
      rw [(ParsedSnapshot.mem_ladderRows own).2.1]
      exact wanted
  exact stored.snapshot_eq

/-- The tape builder reads back the snapshots of the tokens of its episode in its window. -/
theorem tapeSnapshots_perm (episode : Episode) (startNs endNs : ℤ) :
    (TapeBuilder.tapeSnapshots episode startNs endNs headers.flatten levels.flatten).Perm
      ((batches.flatten.filter fun snapshot =>
        TapeBuilder.inWindow episode startNs endNs snapshot.tokenId snapshot.receivedUtcNs).map
          (·.bestFirst.forEpisode episode)) := by
  refine ((published.headers_perm.filter _).map _).trans ?_
  rw [List.filter_map, List.map_map]
  refine List.Perm.of_eq (List.map_congr_left fun snapshot member => ?_)
  obtain ⟨listed, wanted⟩ := List.mem_filter.mp member
  have stored := (published.storedOnce listed).filter
    (fun row => TapeBuilder.inWindow episode startNs endNs row.tokenId row.receivedUtcNs)
    fun row own => by
      obtain ⟨-, -, token, received⟩ := ParsedSnapshot.mem_ladderRows own
      rw [token, received]
      exact wanted
  have side := stored.collected_sorted
  simp only [Function.comp, TapeBuilder.snapshotOf, TapeBuilder.snapshotLevels,
    show snapshot.header.snapshotId = snapshot.snapshotId from rfl, side]
  rfl

end Published

/-- Whatever the batches, the partitions and the order of the files: the event reader reads back every
snapshot of a market, or of all, and the tape builder those of its episode and window, each with its
levels best price first. -/
theorem snapshots_readBack (partition : ℤ → String) (batches : List (List ParsedSnapshot))
    (headers : List (List SnapshotHeader)) (levels : List (List SnapshotLevelRow))
    (published : Published partition batches headers levels) :
    (∀ conditionId, (readSnapshots conditionId headers.flatten levels.flatten).Perm
      ((batches.flatten.filter fun snapshot => ofCondition conditionId snapshot.conditionId).map
        ParsedSnapshot.bestFirst)) ∧
    ∀ episode startNs endNs,
      (TapeBuilder.tapeSnapshots episode startNs endNs headers.flatten levels.flatten).Perm
        ((batches.flatten.filter fun snapshot =>
          TapeBuilder.inWindow episode startNs endNs snapshot.tokenId snapshot.receivedUtcNs).map
            (·.bestFirst.forEpisode episode)) :=
  ⟨published.readSnapshots_perm, published.tapeSnapshots_perm⟩

/-- A side that is listed twice is refused, unless it has no size. -/
theorem readSide_twice {duplicate : String} {tickSizeScaled : ℤ} {listed : List BookLevel}
    {level : BookLevel} (member : level ∈ listed) (size : 0 < level.sizeScaled) :
    (OrderBook.readSide duplicate tickSizeScaled (listed ++ listed)).2 ≠ [] := by
  intro clean
  have unrepeated := (OrderBook.readSide_clean_iff.mp clean).2
  exact absurd ((List.pairwise_append.mp unrepeated).2.2 level member level member rfl)
    (not_le.mpr size)

theorem replace_refused {book : OrderBook} {snapshot : BookSnapshot}
    (own : snapshot.tokenId = book.tokenId ∧ snapshot.conditionId = book.conditionId)
    (fresh : book.lastSequence ≤ snapshot.sequence)
    (issues : (OrderBook.readSnapshot snapshot).2.2 ≠ []) :
    (book.replace snapshot).2.isOk = false ∧ (book.replace snapshot).1.valid = false := by
  rw [OrderBook.replace, if_neg (by simp [own]), if_neg (not_lt.mpr fresh)]
  rcases read : OrderBook.readSnapshot snapshot with ⟨bids, asks, found⟩
  rw [read] at issues
  cases found with
  | nil => exact absurd rfl issues
  | cons issue rest => exact ⟨rfl, rfl⟩

/-- Two snapshots of one hour, the bids of the first in the order of the feed. -/
def exampleStored (snapshotId : String) (sequence : ℤ) : ParsedSnapshot where
  sequence := sequence
  source := "clob_market_ws"
  conditionId := "condition"
  tokenId := "up"
  outcome := "UP"
  receivedUtcNs := sequence
  bookHash := none
  tickSizeScaled := 10000
  minimumOrderSizeScaled := 5000000
  bids := [⟨470000, 3000000⟩, ⟨480000, 1000000⟩]
  asks := [⟨520000, 2000000⟩]
  snapshotId := snapshotId
  runId := "run"
  connectionId := "connection"
  exchangeTimestampNs := none
  receivedMonotonicNs := 0
  negRisk := false
  rawEventReference := ""

def exampleBatches : List (List ParsedSnapshot) :=
  [[exampleStored "first" 5, exampleStored "later" 12], [exampleStored "second" 7]]

/-- A partition for every ten nanoseconds. -/
def exampleHour (receivedUtcNs : ℤ) : String := toString (receivedUtcNs / 10)

def exampleHeaders : List (List SnapshotHeader) :=
  (exampleBatches.flatMap fun batch => (snapshotFiles exampleHour batch).1).reverse

def exampleLevels : List (List SnapshotLevelRow) :=
  (exampleBatches.flatMap fun batch => (snapshotFiles exampleHour batch).2).reverse

theorem example_published : Published exampleHour exampleBatches exampleHeaders exampleLevels where
  headers := List.reverse_perm _
  levels := List.reverse_perm _
  distinct := by decide +kernel

theorem snapshots_readBack_example :
    (readSnapshots none exampleHeaders.flatten exampleLevels.flatten).Perm
      ([exampleStored "first" 5, exampleStored "later" 12, exampleStored "second" 7].map
        ParsedSnapshot.bestFirst) ∧
    (exampleStored "first" 5).bestFirst.bids = [⟨480000, 1000000⟩, ⟨470000, 3000000⟩] :=
  ⟨(snapshots_readBack exampleHour exampleBatches exampleHeaders exampleLevels
    example_published).1 none, by decide +kernel⟩

end PolymarketBt
