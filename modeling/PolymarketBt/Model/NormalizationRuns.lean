import Mathlib.Data.Prod.Lex
import Mathlib.Data.String.Basic
import Mathlib.Logic.Function.Basic
import PolymarketBt.Model.Failure
import PolymarketBt.ToMathlib.KeyedList
import PolymarketBt.ToMathlib.StableSort

/-! # A normalization run as a sequence of commits

A run selects its files and collects their rows before it writes anything. Then it publishes one file
for each dataset and partition, brings the chart cache up to date, marks its raw files one by one, and
sets its checkpoints. Each of these is a commit of its own, and the process can end after any of them.
Rows are kept by their dataset, their partition and their identity.
-/

namespace PolymarketBt

open KeyedList StableSort

/-- The datasets of books, level changes, tick changes and records of the collector itself. -/
inductive EventDataset where
  | bookSnapshots
  | bookSnapshotLevels
  | bookUpdates
  | tickSizeChanges
  | connectionEvents
  | heartbeatEvents
  | restRequests
  | dataQualityEvents
deriving DecidableEq, Repr

/-- An event of a raw file, as the row that it is published as. -/
structure RawEvent where
  dataset : EventDataset
  eventId : String
  partition : List (String × String)
deriving DecidableEq, Repr

def RawEvent.isTickChange (event : RawEvent) : Bool := event.dataset = .tickSizeChanges

/-- The manifest entry of a finalized raw file, with the events that reading the file yields and the
datasets in the order in which the reading first touches them. -/
structure RawEntry where
  relativePath : String
  sha256 : String
  createdUtcNs : ℤ
  closedUtcNs : ℤ
  firstSequence : Option ℤ
  events : List RawEvent
  touched : List EventDataset
deriving DecidableEq, Repr

def RawEntry.isClobMarketWs (entry : RawEntry) : Bool :=
  entry.relativePath.startsWith "raw/source=clob_market_ws/"

def RawEntry.tickChanges (entry : RawEntry) : List RawEvent := entry.events.filter RawEvent.isTickChange

structure PublishedFile where
  dataset : EventDataset
  partition : List (String × String)
  rows : List RawEvent
deriving DecidableEq, Repr

inductive NormalizationCommit where
  | publish (file : PublishedFile)
  | updateChartCache
  | publishRun
  | markRawFileProcessed (relativePath sha256 : String)
  | checkpointBatch (digest : String)
  | exportManifest
  | checkpointTickBackfill
deriving DecidableEq, Repr

/-- What the commits of all runs leave: the published files, the digests of the processed raw files,
and the checkpoints. -/
structure NormalizationState where
  published : List PublishedFile := []
  processed : String → Option String := fun _ => none
  batches : List String := []
  tickBackfilled : Bool := false

/-- The arguments of one call. -/
structure NormalizeOptions where
  date : Option String := none
  maxFiles : Option ℕ := none
  newestFirst : Bool := true
deriving DecidableEq, Repr

namespace NormalizationState

def rows (state : NormalizationState) : List RawEvent := state.published.flatMap PublishedFile.rows

def rawFileProcessed (state : NormalizationState) (entry : RawEntry) : Bool :=
  state.processed entry.relativePath = some entry.sha256

def commit (state : NormalizationState) : NormalizationCommit → NormalizationState
  | .publish file => { state with published := state.published ++ [file] }
  | .markRawFileProcessed relativePath sha256 =>
    { state with processed := Function.update state.processed relativePath (some sha256) }
  | .checkpointBatch digest => { state with batches := state.batches ++ [digest] }
  | .checkpointTickBackfill => { state with tickBackfilled := true }
  | .updateChartCache => state
  | .publishRun => state
  | .exportManifest => state

end NormalizationState

/-- Whether the text occurs in a path. -/
def occursIn (text path : String) : Bool := text.toList <:+: path.toList

namespace NormalizeOptions

variable (options : NormalizeOptions)

def admits (entry : RawEntry) : Bool :=
  options.date.all fun date => occursIn ("date=" ++ date) entry.relativePath

def order (pending : List RawEntry) : List RawEntry :=
  if options.maxFiles.isSome ∧ options.newestFirst then
    sortByKey (fun entry : RawEntry =>
      OrderDual.toDual (toLex (entry.closedUtcNs, entry.relativePath))) pending
  else sortByKey (fun entry : RawEntry => toLex (entry.closedUtcNs, entry.relativePath)) pending

/-- The entries of a run: the ones it admits that are not processed, up to the bound. -/
def select (entries : List RawEntry) (state : NormalizationState) :
    Except PyError (List RawEntry) :=
  let pending := options.order
    (entries.filter fun entry => options.admits entry && !state.rawFileProcessed entry)
  match options.maxFiles with
  | none => .ok pending
  | some count =>
    if count < 1 then .error (.valueError "max_files must be positive") else .ok (pending.take count)

end NormalizeOptions

/-- The tick changes of the market feed that are not published yet, each once. -/
def tickBackfillRows (state : NormalizationState) (entries : List RawEntry) : List RawEvent :=
  let existing := (state.rows.filter RawEvent.isTickChange).map RawEvent.eventId
  let ordered := sortByKey (fun entry : RawEntry =>
    toLex (entry.firstSequence.getD 0, entry.createdUtcNs)) (entries.filter RawEntry.isClobMarketWs)
  firsts RawEvent.eventId
    ((ordered.flatMap RawEntry.tickChanges).filter fun change => change.eventId ∉ existing)

/-- The backfill is made once. -/
def backfillRows (state : NormalizationState) (entries : List RawEntry) : List RawEvent :=
  if state.tickBackfilled then [] else tickBackfillRows state entries

/-- One row for each identity: the last, in the place of the first. -/
def oneForEachId (rows : List RawEvent) : List RawEvent := (fill RawEvent.eventId id rows).map Prod.snd

/-- One file for each dataset and partition that has rows. -/
def publications (touched : List EventDataset) (rows : List RawEvent) : List PublishedFile :=
  (firsts id touched).flatMap fun dataset =>
    let own := rows.filter fun row => row.dataset = dataset
    (firsts id (own.map RawEvent.partition)).map fun partition =>
      ⟨dataset, partition, own.filter fun row => row.partition = partition⟩

section Run

-- the digest of a text
variable (sha256 : String → String)

def batchDigest (selected : List RawEntry) : String :=
  sha256 (String.join (sortByKey id (selected.map RawEntry.sha256)))

/-- The rows that a run collects, tick changes once for each identity. -/
def collectedRows (backfill : List RawEvent) (selected : List RawEntry) : List RawEvent :=
  let read := backfill ++ selected.flatMap RawEntry.events
  read.filter (fun row => !row.isTickChange) ++ oneForEachId (read.filter RawEvent.isTickChange)

/-- The publications of a run, the chart cache, and the row of the run itself. -/
def publishing (state : NormalizationState) (entries selected : List RawEntry) :
    List NormalizationCommit :=
  let touched := (if state.tickBackfilled then [] else [EventDataset.tickSizeChanges]) ++
    selected.flatMap RawEntry.touched
  let rows := collectedRows (backfillRows state entries) selected
  (publications (touched ++ rows.map RawEvent.dataset) rows).map .publish ++
    [.updateChartCache, .publishRun]

def marking (selected : List RawEntry) : List NormalizationCommit :=
  selected.map fun entry => .markRawFileProcessed entry.relativePath entry.sha256

def closing (state : NormalizationState) (selected : List RawEntry) : List NormalizationCommit :=
  (if selected ≠ [] then [.checkpointBatch (batchDigest sha256 selected)] else []) ++
    [.exportManifest] ++ if state.tickBackfilled then [] else [.checkpointTickBackfill]

/-- The commits of a run that has selected its files. -/
def commitsOf (state : NormalizationState) (entries selected : List RawEntry) :
    List NormalizationCommit :=
  if selected ≠ [] ∧ batchDigest sha256 selected ∈ state.batches ∧ state.tickBackfilled then []
  else publishing state entries selected ++ marking selected ++ closing sha256 state selected

/-- A call, and the number of its commits after which the process ends, if it does. -/
structure NormalizationRun where
  options : NormalizeOptions := {}
  crash : Option ℕ := none
deriving DecidableEq, Repr

/-- The commits that a call gets done. -/
def NormalizationRun.done (run : NormalizationRun) (entries : List RawEntry)
    (state : NormalizationState) : List NormalizationCommit :=
  match run.options.select entries state with
  | .error _ => []
  | .ok selected =>
    let commits := commitsOf sha256 state entries selected
    run.crash.elim commits commits.take

/-- One call on the files of the archive. -/
def normalizeStep (entries : List RawEntry) (state : NormalizationState) (run : NormalizationRun) :
    Option NormalizationState :=
  some ((run.done sha256 entries state).foldl .commit state)

end Run

end PolymarketBt
