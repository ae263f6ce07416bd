import PolymarketBt.Model.RawArchive
import PolymarketBt.ToMathlib.KeyedList

/-! # The raw archive's queue and its worker

Envelopes are put into a bounded queue. One worker takes batches from it and hands each to the
archive's only thread, which writes the envelopes to the open file of their partition and rotates
files by the clock. Stopping lets the worker drain the queue up to a timeout and closes all files.
Closing publishes and lists a file in one step here, since every write succeeds.
-/

namespace PolymarketBt

structure RawArchiveConfig where
  rawMaxEvents : ℕ
  writerBatchEvents : ℕ
  rotateMinutes : ℤ
  rotateUncompressedMb : ℕ
  /-- The day and hour directories of an instant. -/
  dateHour : ℤ → String

namespace RawArchiveConfig

variable (config : RawArchiveConfig)

def rotateNs : ℤ := config.rotateMinutes * 60 * 1000000000

def maximumBytes : ℕ := config.rotateUncompressedMb * 1024 * 1024

def partitionFor (envelope : RawEnvelope) : String :=
  let base := "source=" ++ envelope.source.text ++ "/" ++ config.dateHour envelope.receivedUtcNs
  match envelope.marketId with
  | none => base
  | some "" => base
  | some marketId => base ++ "/market=" ++ marketId.map fun c => if c = '/' then '_' else c

end RawArchiveConfig

/-! ## Writing -/

/-- A closed file that the manifest lists. -/
structure RawFile where
  partition : String
  envelopes : List RawEnvelope
deriving DecidableEq, Repr

/-- An open file; what its writer counts is a function of the envelopes in it. -/
structure RawFileWriter where
  partition : String
  createdUtcNs : ℤ
  envelopes : List RawEnvelope
deriving DecidableEq, Repr

namespace RawFileWriter

variable (writer : RawFileWriter)

def closed : RawFile := ⟨writer.partition, writer.envelopes⟩

def counts : PartitionWriter := PartitionWriter.writeAll writer.envelopes

/-- The instant is in a later rotation period than every event of the file. -/
def crossesRotationBoundary (instant rotateNs : ℤ) : Bool :=
  writer.counts.maximumEventTime.any fun maximum => maximum.fdiv rotateNs < instant.fdiv rotateNs

def shouldRotate (now rotateNs : ℤ) (maximumBytes : ℕ) : Bool :=
  writer.crossesRotationBoundary now rotateNs || rotateNs ≤ now - writer.createdUtcNs ||
    maximumBytes ≤ writer.counts.uncompressedBytes

end RawFileWriter

/-- The open files by partition, and the closed ones in the order of closing. -/
structure ArchiveWriters where
  writers : List RawFileWriter
  files : List RawFile
deriving DecidableEq, Repr

namespace ArchiveWriters

variable (archive : ArchiveWriters)

def writer? (partition : String) : Option RawFileWriter :=
  archive.writers.find? fun writer => writer.partition = partition

/-- Close the file of a partition. -/
def close (partition : String) : ArchiveWriters :=
  match archive.writer? partition with
  | none => archive
  | some writer =>
    { writers := KeyedList.without RawFileWriter.partition partition archive.writers
      files := archive.files ++ [writer.closed] }

/-- Make sure that the partition has an open file, and one of the envelope's rotation period. -/
def ready (config : RawArchiveConfig) (envelope : RawEnvelope) (created : ℤ) : ArchiveWriters :=
  let partition := config.partitionFor envelope
  match archive.writer? partition with
  | none => { archive with writers := archive.writers ++ [⟨partition, created, []⟩] }
  | some writer =>
    if writer.crossesRotationBoundary envelope.receivedUtcNs config.rotateNs then
      { writers := KeyedList.replace RawFileWriter.partition partition
          (fun _ => ⟨partition, created, []⟩) archive.writers
        files := archive.files ++ [writer.closed] }
    else archive

def append (partition : String) (envelope : RawEnvelope) : ArchiveWriters :=
  { archive with
    writers := KeyedList.replace RawFileWriter.partition partition
      (fun writer => { writer with envelopes := writer.envelopes ++ [envelope] }) archive.writers }

/-- Close the file of a partition if it is due. -/
def rotate (config : RawArchiveConfig) (now : ℤ) (partition : String) : ArchiveWriters :=
  if (archive.writer? partition).any fun writer =>
      writer.shouldRotate now config.rotateNs config.maximumBytes then
    archive.close partition
  else archive

/-- An envelope of a batch, and the clock when a file is created for it and after it is written. -/
abbrev Stamped := RawEnvelope × ℤ × ℤ

def write (config : RawArchiveConfig) (item : Stamped) : ArchiveWriters :=
  let partition := config.partitionFor item.1
  (((archive.ready config item.1 item.2.1).append partition item.1).rotate config item.2.2 partition)

def writeBatch (config : RawArchiveConfig) (items : List Stamped) : ArchiveWriters :=
  items.foldl (fun current item => current.write config item) archive

/-- The timer closes the files that are due and flushes the others. -/
def flushAll (config : RawArchiveConfig) (now : ℤ) : ArchiveWriters :=
  (archive.writers.map RawFileWriter.partition).foldl
    (fun current partition => current.rotate config now partition) archive

def closeAll : ArchiveWriters :=
  { writers := [], files := archive.files ++ archive.writers.map RawFileWriter.closed }

end ArchiveWriters

/-! ## The queue -/

structure RawWriterStats where
  enqueuedTotal : ℕ := 0
  persistedTotal : ℕ := 0
  droppedTotal : ℕ := 0
  batchesTotal : ℕ := 0
  queueHighWatermark : ℕ := 0
  firstDroppedSequence : Option ℤ := none
  lastDroppedSequence : Option ℤ := none
deriving DecidableEq, Repr

/-- What the worker has handed to the thread. -/
inductive ArchiveJob where
  | write (batch : List RawEnvelope)
  | flush
deriving DecidableEq, Repr

/-- The worker is at its queue, waits for the thread, or has ended. -/
inductive WorkerState where
  | polling
  | waiting
  | ended
deriving DecidableEq, Repr

/-- The archive with the calls of `enqueue` so far, each with its envelope and its result. -/
structure RawArchive where
  queue : List RawEnvelope
  stats : RawWriterStats
  worker : WorkerState
  job : Option ArchiveJob
  archive : ArchiveWriters
  stopping : Bool
  stopped : Bool
  offered : List (RawEnvelope × Bool)
deriving DecidableEq, Repr

inductive ArchiveAction where
  | enqueue (envelope : RawEnvelope)
  /-- The worker takes what it finds up to its deadline. -/
  | takeBatch (count : ℕ)
  /-- No envelope came in time. -/
  | timeout
  /-- The thread performs its job, reading the clock as it goes. -/
  | perform (clock : List (ℤ × ℤ)) (now : ℤ)
  | resume
  /-- The worker finds that the archive is stopping and its queue is empty. -/
  | finish
  | stop
  | drainTimeout
  | closeAll
deriving DecidableEq, Repr

namespace RawArchive

def init : RawArchive := ⟨[], {}, .polling, none, ⟨[], []⟩, false, false, []⟩

variable (config : RawArchiveConfig) (state : RawArchive)

/-- A queue without a positive bound is never full. -/
def full : Bool := 0 < config.rawMaxEvents && config.rawMaxEvents ≤ state.queue.length

def enqueue (envelope : RawEnvelope) : RawArchive :=
  if state.full config then
    { state with
      stats := { state.stats with
        droppedTotal := state.stats.droppedTotal + 1
        firstDroppedSequence := state.stats.firstDroppedSequence.or (some envelope.sequence)
        lastDroppedSequence := some envelope.sequence }
      offered := state.offered ++ [(envelope, false)] }
  else
    { state with
      queue := state.queue ++ [envelope]
      stats := { state.stats with
        enqueuedTotal := state.stats.enqueuedTotal + 1
        queueHighWatermark := max state.stats.queueHighWatermark (state.queue.length + 1) }
      offered := state.offered ++ [(envelope, true)] }

/-- The thread performs a job; a batch is counted after it is written. -/
def performJob (clock : List (ℤ × ℤ)) (now : ℤ) : ArchiveJob → RawArchive
  | .write batch =>
    { state with
      job := none
      archive := state.archive.writeBatch config (batch.zip clock)
      stats := { state.stats with
        persistedTotal := state.stats.persistedTotal + batch.length
        batchesTotal := state.stats.batchesTotal + 1 } }
  | .flush => { state with job := none, archive := state.archive.flushAll config now }

def step : ArchiveAction → Option RawArchive
  | .enqueue envelope => some (state.enqueue config envelope)
  | .takeBatch count =>
    if state.worker = .polling ∧ 1 ≤ count ∧ count ≤ max 1 config.writerBatchEvents ∧
        count ≤ state.queue.length then
      some { state with
        queue := state.queue.drop count
        worker := .waiting
        job := some (.write (state.queue.take count)) }
    else none
  | .timeout =>
    if state.worker = .polling then some { state with worker := .waiting, job := some .flush }
    else none
  | .perform clock now =>
    match state.job with
    | none => none
    | some job =>
      match job with
      | .write batch =>
        if clock.length = batch.length then some (state.performJob config clock now job) else none
      | .flush => some (state.performJob config clock now job)
  | .resume =>
    if state.worker = .waiting ∧ state.job = none then some { state with worker := .polling }
    else none
  | .finish =>
    if state.worker = .polling ∧ state.stopping ∧ state.queue = [] then
      some { state with worker := .ended }
    else none
  | .stop => if state.stopping then none else some { state with stopping := true }
  | .drainTimeout =>
    if state.stopping ∧ state.worker ≠ .ended then some { state with worker := .ended } else none
  | .closeAll =>
    -- the thread comes to it after the job it has
    if state.stopping ∧ state.worker = .ended ∧ state.job = none ∧ ¬ state.stopped then
      some { state with archive := state.archive.closeAll, stopped := true }
    else none

end RawArchive

end PolymarketBt
