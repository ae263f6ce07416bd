import PolymarketBt.Model.SnapshotRows

/-! # The events of one episode for the reference engine

The stored rows of an episode's tokens are read in one order by the tape builder and by the
cross-check. The reference engine stops at the first event that a book refuses, so the cross-check
first applies every row to a reconstructor of its own and forwards the rows that it accepts. The
settlement that the pipeline does not record is added from the derived winner.
-/

namespace PolymarketBt

open StableSort (sortByKey)

/-- A stored row of one of the three book datasets. -/
inductive StoredEvent where
  | snapshot (header : SnapshotHeader)
  | tick (row : ParsedTickSizeChange)
  | update (row : ParsedChange)
deriving DecidableEq, Repr

namespace StoredEvent

def kind : StoredEvent → ℕ
  | snapshot _ => 0
  | tick _ => 1
  | update _ => 2

def sourcePriority : StoredEvent → ℕ
  | snapshot _ => 10
  | tick _ => 15
  | update _ => 20

def tokenId : StoredEvent → String
  | snapshot header => header.tokenId
  | tick row => row.tokenId
  | update row => row.tokenId

def exchangeTimestampNs : StoredEvent → Option ℤ
  | snapshot header => header.exchangeTimestampNs
  | tick row => row.exchangeTimestampNs
  | update row => row.exchangeTimestampNs

def receivedUtcNs : StoredEvent → ℤ
  | snapshot header => header.receivedUtcNs
  | tick row => row.receivedUtcNs
  | update row => row.receivedUtcNs

def receivedMonotonicNs : StoredEvent → ℤ
  | snapshot header => header.receivedMonotonicNs
  | tick row => row.receivedMonotonicNs
  | update row => row.receivedMonotonicNs

def connectionId : StoredEvent → String
  | snapshot header => header.connectionId
  | tick row => row.connectionId
  | update row => row.connectionId

def sequence : StoredEvent → ℤ
  | snapshot header => header.sequence
  | tick row => row.sequence
  | update row => row.sequence

def changeIndex : StoredEvent → ℕ
  | snapshot _ | tick _ => 0
  | update row => row.changeIndex

def key (row : StoredEvent) : TapeKey :=
  toLex (row.receivedUtcNs, toLex (row.kind, toLex (row.sequence, row.changeIndex)))

end StoredEvent

/-- The book datasets of an archive. -/
structure BookDatasets where
  snapshots : List SnapshotHeader
  snapshotLevels : List SnapshotLevelRow
  updates : List ParsedChange
  tickSizeChanges : List ParsedTickSizeChange

def BookDatasets.rows (stored : BookDatasets) : List StoredEvent :=
  stored.snapshots.map .snapshot ++ stored.updates.map .update ++ stored.tickSizeChanges.map .tick

namespace TapeBuilder

/-- The rows of the tokens of an episode, in the order in which the tape is built. -/
def iterBookEvents (episode : Episode) (startNs endNs : ℤ) (stored : BookDatasets) :
    List StoredEvent :=
  sortByKey StoredEvent.key
    (stored.rows.filter fun row => inWindow episode startNs endNs row.tokenId row.receivedUtcNs)

def changeOf (episode : Episode) (row : ParsedChange) : BookLevelChange :=
  { row.toBookLevelChange with conditionId := episode.conditionId }

def tickOf (episode : Episode) (row : ParsedTickSizeChange) : TickSizeChange :=
  { row.toTickSizeChange with conditionId := episode.conditionId }

end TapeBuilder

open TapeBuilder (changeOf tickOf snapshotOf snapshotLevels)

namespace StoredEvent

variable (episode : Episode) (levels : List SnapshotLevelRow)

/-- What a row states of a book of the episode. -/
def event : StoredEvent → BookEvent
  | snapshot header => .snapshot (snapshotOf episode levels header)
  | tick row => .tick (tickOf episode row)
  | update row => .update (changeOf episode row)

def payload : StoredEvent → ReplayPayload
  | snapshot header => .bookSnapshot (snapshotOf episode levels header)
  | tick row => .tickSizeChange (tickOf episode row)
  | update row => .bookUpdate (changeOf episode row)

def replayEvent (row : StoredEvent) : ReplayEvent where
  exchangeTimestampNs := row.exchangeTimestampNs
  receivedUtcNs := row.receivedUtcNs
  receivedMonotonicNs := row.receivedMonotonicNs
  connectionId := row.connectionId
  sequence := row.sequence
  parentChangeIndex := row.changeIndex
  sourcePriority := row.sourcePriority
  payload := row.payload episode levels

end StoredEvent

/-! ## The filter -/

/-- The cross-check's own reconstructor, and the events that it has accepted. -/
structure ProbeState where
  probe : BookReconstructor
  events : List ReplayEvent

/-- Forward a row that the probe accepts; a book that refuses a row is no longer valid. -/
def probeRow (episode : Episode) (levels : List SnapshotLevelRow) (state : ProbeState)
    (row : StoredEvent) : ProbeState :=
  match state.probe.applyEvent (row.event episode levels) with
  | (applied, .ok _) => ⟨applied, state.events ++ [row.replayEvent episode levels]⟩
  | (applied, .error _) => ⟨applied.invalidate row.tokenId, state.events⟩

/-- The settlement that the pipeline does not record, with the source of the derived winner. -/
def resolutionEvent (episode : Episode) (winnerSource : String) (resolutionDelayNs : ℤ)
    (winnerTokenId : String) : ReplayEvent where
  exchangeTimestampNs := none
  receivedUtcNs := episode.endUtcNs + resolutionDelayNs
  receivedMonotonicNs := episode.endUtcNs + resolutionDelayNs
  connectionId := "derived-resolution"
  sequence := 2 ^ 62
  parentChangeIndex := 0
  sourcePriority := 50
  payload := .marketResolution {
    conditionId := episode.conditionId
    winningTokenId := winnerTokenId
    winningOutcome := episode.winnerOutcome.getD ""
    exchangeTimestampNs := none
    receivedUtcNs := episode.endUtcNs + resolutionDelayNs
    sequence := 2 ^ 62
    source := s!"derived:{winnerSource}"
    rawEventReference := "" }

def settlementEvents (episode : Episode) (winnerSource : String) (resolutionDelayNs : ℤ)
    (includeResolution : Bool) : List ReplayEvent :=
  if includeResolution then
    (episode.winnerTokenId.filter fun winner => winner ≠ "").toList.map
      (resolutionEvent episode winnerSource resolutionDelayNs)
  else []

/-- Apply the rows to a fresh probe. -/
def probeRows (episode : Episode) (levels : List SnapshotLevelRow) (rows : List StoredEvent) :
    ProbeState :=
  rows.foldl (probeRow episode levels) ⟨.init, []⟩

/-- The rows of an episode, from before its start until after its end. -/
def windowRows (episode : Episode) (preStartNs postEndNs : ℤ) (stored : BookDatasets) :
    List StoredEvent :=
  TapeBuilder.iterBookEvents episode (episode.startUtcNs - preStartNs)
    (episode.endUtcNs + postEndNs) stored

/-- The levels of the snapshots among these rows. -/
def windowLevels (episode : Episode) (preStartNs postEndNs : ℤ) (stored : BookDatasets) :
    List SnapshotLevelRow :=
  snapshotLevels episode (episode.startUtcNs - preStartNs) (episode.endUtcNs + postEndNs)
    stored.snapshotLevels

/-- The events that the tape of the episode is built from. -/
def tapeEvents (episode : Episode) (preStartNs postEndNs : ℤ) (stored : BookDatasets) :
    List BookEvent :=
  (windowRows episode preStartNs postEndNs stored).map
    (StoredEvent.event episode (windowLevels episode preStartNs postEndNs stored))

def episodeEvents (episode : Episode) (preStartNs postEndNs : ℤ) (winnerSource : String)
    (resolutionDelayNs : ℤ) (includeResolution : Bool) (stored : BookDatasets) :
    List ReplayEvent :=
  (probeRows episode (windowLevels episode preStartNs postEndNs stored)
      (windowRows episode preStartNs postEndNs stored)).events ++
    settlementEvents episode winnerSource resolutionDelayNs includeResolution

end PolymarketBt
