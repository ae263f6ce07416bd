import PolymarketBt.Model.Replay
import PolymarketBt.Model.Tape
import PolymarketBt.ToMathlib.GroupedFiles

/-! # Stored snapshots

The normalizer splits a snapshot into a header row and a row for each level, best price first. The
writer groups the rows of a dataset by the partition of their receipt and publishes every group as a
file. Both readers collect the levels of every snapshot again: the event reader as the rows come, the
tape builder by their ranks.
-/

namespace PolymarketBt

open GroupedFiles (groups)
open StableSort (sortByKey)

structure SnapshotLevelRow where
  snapshotId : String
  conditionId : String
  tokenId : String
  outcome : String
  side : Side
  priceScaled : ℤ
  sizeScaled : ℤ
  levelRankFromBest : ℕ
  receivedUtcNs : ℤ
deriving DecidableEq, Repr

/-- A snapshot without its levels. -/
structure SnapshotHeader where
  snapshotId : String
  sequence : ℤ
  runId : String
  connectionId : String
  source : String
  conditionId : String
  tokenId : String
  outcome : String
  exchangeTimestampNs : Option ℤ
  receivedUtcNs : ℤ
  receivedMonotonicNs : ℤ
  bookHash : Option String
  tickSizeScaled : ℤ
  minimumOrderSizeScaled : ℤ
  negRisk : Bool
  rawEventReference : String
deriving DecidableEq, Repr

def SnapshotLevelRow.level (row : SnapshotLevelRow) : BookLevel := ⟨row.priceScaled, row.sizeScaled⟩

/-- The levels of one side, best price first. -/
def BookSnapshot.sortedLevels (snapshot : BookSnapshot) : Side → List BookLevel
  | .buy => sortByKey (fun level => OrderDual.toDual level.priceScaled) snapshot.bids
  | .sell => sortByKey BookLevel.priceScaled snapshot.asks

/-- The same snapshot with its levels listed best price first. -/
def BookSnapshot.bestFirst (snapshot : BookSnapshot) : BookSnapshot :=
  { snapshot with
    bids := snapshot.sortedLevels .buy
    asks := snapshot.sortedLevels .sell }

namespace ParsedSnapshot

variable (snapshot : ParsedSnapshot)

def header : SnapshotHeader where
  snapshotId := snapshot.snapshotId
  sequence := snapshot.sequence
  runId := snapshot.runId
  connectionId := snapshot.connectionId
  source := snapshot.source
  conditionId := snapshot.conditionId
  tokenId := snapshot.tokenId
  outcome := snapshot.outcome
  exchangeTimestampNs := snapshot.exchangeTimestampNs
  receivedUtcNs := snapshot.receivedUtcNs
  receivedMonotonicNs := snapshot.receivedMonotonicNs
  bookHash := snapshot.bookHash
  tickSizeScaled := snapshot.tickSizeScaled
  minimumOrderSizeScaled := snapshot.minimumOrderSizeScaled
  negRisk := snapshot.negRisk
  rawEventReference := snapshot.rawEventReference

def sideRows (side : Side) : List SnapshotLevelRow :=
  (snapshot.sortedLevels side).zipIdx.map fun (level, index) => {
    snapshotId := snapshot.snapshotId
    conditionId := snapshot.conditionId
    tokenId := snapshot.tokenId
    outcome := snapshot.outcome
    side := side
    priceScaled := level.priceScaled
    sizeScaled := level.sizeScaled
    levelRankFromBest := index + 1
    receivedUtcNs := snapshot.receivedUtcNs }

def ladderRows : List SnapshotLevelRow := snapshot.sideRows .buy ++ snapshot.sideRows .sell

def bestFirst : ParsedSnapshot :=
  { snapshot with toBookSnapshot := snapshot.toBookSnapshot.bestFirst }

end ParsedSnapshot

/-! ## Files -/

/-- The files that the rows of one dataset are published in. -/
def writeRows {Row : Type*} (partition : ℤ → String) (receivedUtcNs : Row → ℤ) (rows : List Row) :
    List (List Row) :=
  groups (fun row => partition (receivedUtcNs row)) rows

/-- The header and the level files of the snapshots of one normalization. -/
def snapshotFiles (partition : ℤ → String) (snapshots : List ParsedSnapshot) :
    List (List SnapshotHeader) × List (List SnapshotLevelRow) :=
  (writeRows partition SnapshotHeader.receivedUtcNs (snapshots.map ParsedSnapshot.header),
    writeRows partition SnapshotLevelRow.receivedUtcNs
      (snapshots.flatMap ParsedSnapshot.ladderRows))

/-! ## Readers -/

/-- The levels collected for one side of a snapshot. -/
def collectedLevels (rows : List SnapshotLevelRow) (snapshotId : String) (side : Side) :
    List BookLevel :=
  (rows.filter fun row => row.snapshotId = snapshotId ∧ row.side = side).map SnapshotLevelRow.level

def SnapshotHeader.snapshot (header : SnapshotHeader) (bids asks : List BookLevel) :
    ParsedSnapshot where
  snapshotId := header.snapshotId
  sequence := header.sequence
  runId := header.runId
  connectionId := header.connectionId
  source := header.source
  conditionId := header.conditionId
  tokenId := header.tokenId
  outcome := header.outcome
  exchangeTimestampNs := header.exchangeTimestampNs
  receivedUtcNs := header.receivedUtcNs
  receivedMonotonicNs := header.receivedMonotonicNs
  bookHash := header.bookHash
  tickSizeScaled := header.tickSizeScaled
  minimumOrderSizeScaled := header.minimumOrderSizeScaled
  negRisk := header.negRisk
  rawEventReference := header.rawEventReference
  bids := bids
  asks := asks

/-- A market's rows, or those of all markets. -/
def ofCondition (conditionId : Option String) (rowCondition : String) : Bool :=
  conditionId.all fun wanted => wanted = "" ∨ rowCondition = wanted

/-- The snapshots of the event reader. -/
def readSnapshots (conditionId : Option String) (headers : List SnapshotHeader)
    (rows : List SnapshotLevelRow) : List ParsedSnapshot :=
  let levels := rows.filter fun row => ofCondition conditionId row.conditionId
  (headers.filter fun header => ofCondition conditionId header.conditionId).map fun header =>
    header.snapshot (collectedLevels levels header.snapshotId .buy)
      (collectedLevels levels header.snapshotId .sell)

namespace TapeBuilder

/-- The rows of the tokens of an episode in a window of time. -/
def inWindow (episode : Episode) (startNs endNs : ℤ) (tokenId : String) (receivedUtcNs : ℤ) : Bool :=
  (tokenId = episode.upTokenId ∨ tokenId = episode.downTokenId) ∧
    startNs ≤ receivedUtcNs ∧ receivedUtcNs ≤ endNs

/-- The level rows of the window by their ranks; rows that tie may come in any order. -/
def snapshotLevels (episode : Episode) (startNs endNs : ℤ) (rows : List SnapshotLevelRow) :
    List SnapshotLevelRow :=
  sortByKey SnapshotLevelRow.levelRankFromBest
    (rows.filter fun row => inWindow episode startNs endNs row.tokenId row.receivedUtcNs)

/-- The snapshot of a header, with the sizes of the episode where the header has none. -/
def snapshotOf (episode : Episode) (levels : List SnapshotLevelRow) (header : SnapshotHeader) :
    BookSnapshot where
  sequence := header.sequence
  source := header.source
  conditionId := episode.conditionId
  tokenId := header.tokenId
  outcome := header.outcome
  receivedUtcNs := header.receivedUtcNs
  bookHash := header.bookHash
  tickSizeScaled :=
    if header.tickSizeScaled = 0 then episode.tickSizeScaled else header.tickSizeScaled
  minimumOrderSizeScaled :=
    if header.minimumOrderSizeScaled = 0 then episode.minimumOrderSizeScaled
    else header.minimumOrderSizeScaled
  bids := collectedLevels levels header.snapshotId .buy
  asks := collectedLevels levels header.snapshotId .sell

/-- The snapshots of the tape builder. -/
def tapeSnapshots (episode : Episode) (startNs endNs : ℤ) (headers : List SnapshotHeader)
    (rows : List SnapshotLevelRow) : List BookSnapshot :=
  (headers.filter fun header =>
      inWindow episode startNs endNs header.tokenId header.receivedUtcNs).map
    (snapshotOf episode (snapshotLevels episode startNs endNs rows))

end TapeBuilder

end PolymarketBt
