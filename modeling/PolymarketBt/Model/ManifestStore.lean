import Mathlib.Data.Prod.Lex
import Mathlib.Data.String.Basic
import PolymarketBt.Model.Failure
import PolymarketBt.ToMathlib.AdjacentPairs
import PolymarketBt.ToMathlib.KeyedList
import PolymarketBt.ToMathlib.StableSort

/-! # Verifying the manifest

The verification opens every file of the manifest. A raw file is read line by line, and the sequence
of each row is kept for its run as soon as the row is read; the range of sequences that an entry
claims is kept for its dataset and directory once its file has been read without an error. What the
files and the libraries that read them give is a record of functions.
-/

namespace PolymarketBt

namespace ManifestStore

open KeyedList StableSort

inductive FileFormat where
  | jsonlZst
  | parquet
deriving DecidableEq, Repr

structure ManifestEntry where
  fileId : String
  relativePath : String
  dataset : String
  rowCount : ℤ
  firstSequence : Option ℤ
  lastSequence : Option ℤ
  sha256 : String
  format : FileFormat
deriving DecidableEq, Repr

/-- What the next line of a raw file gives; a row without a usable sequence names its run first. -/
inductive RawLine where
  | blank
  | row (runId : String) (sequence : ℤ)
  | unnumbered (runId : String) (error : String)
  | broken (error : String)
deriving DecidableEq, Repr

structure ParquetFile where
  numRows : ℤ
  /-- The columns are those of the named schema. -/
  schemaEquals : String → Bool

/-- The storage root as the verification sees it. -/
structure Storage where
  fullPath : String → String
  /-- The directory of a relative path. -/
  parent : String → String
  pathExists : String → Bool
  sha256File : String → Except String String
  parquetFile : String → Except String ParquetFile
  rawLines : String → List RawLine
  schemas : List String
  partialFiles : List String

structure FileResult where
  fileId : String
  path : String
  pathExists : Bool
  checksumOk : Bool := false
  readable : Bool := false
  error : Option String := none
  schemaOk : Option Bool := none
  observedRowCount : Option ℕ := none
deriving DecidableEq, Repr

structure SequenceRange where
  first : ℤ
  last : ℤ
  relativePath : String
deriving DecidableEq, Repr

/-- Ranges sort as triples. -/
def SequenceRange.key (range : SequenceRange) : ℤ ×ₗ ℤ ×ₗ String :=
  toLex (range.first, toLex (range.last, range.relativePath))

/-- What the files read so far have left. -/
structure Scan where
  results : List FileResult
  sequenceRanges : List (String × List SequenceRange)
  rawSequences : List (String × List ℤ)

def Scan.init : Scan := ⟨[], [], []⟩

namespace Storage

variable (storage : Storage)

/-- Count the rows of a raw file and keep their sequences, up to the line that cannot be read. -/
def scanLines : List RawLine → List (String × List ℤ) → ℕ →
    List (String × List ℤ) × Except String ℕ
  | [], runs, rowCount => (runs, .ok rowCount)
  | .blank :: rest, runs, rowCount => scanLines rest runs rowCount
  | .row runId sequence :: rest, runs, rowCount =>
    scanLines rest (collect runId sequence runs) (rowCount + 1)
  | .unnumbered runId error :: _, runs, _ =>
    (assign runId ((runs.lookup runId).getD []) runs, .error error)
  | .broken error :: _, runs, _ => (runs, .error error)

/-- The schema a dataset is written under, compacted or not. -/
def expectedDataset (dataset : String) : String :=
  if dataset.startsWith "compacted/" then String.ofList (dataset.toList.drop 10) else dataset

def schemaOk (file : ParquetFile) (dataset : String) : Bool :=
  if expectedDataset dataset ∈ storage.schemas then file.schemaEquals (expectedDataset dataset)
  else true

/-- The dataset and the directory of an entry in one text. -/
def rangeGroup (entry : ManifestEntry) : String :=
  s!"{entry.dataset}:{storage.parent entry.relativePath}"

def keepRange (entry : ManifestEntry) (ranges : List (String × List SequenceRange)) :
    List (String × List SequenceRange) :=
  match entry.firstSequence, entry.lastSequence with
  | some first, some last =>
    collect (storage.rangeGroup entry) ⟨first, last, entry.relativePath⟩ ranges
  | _, _ => ranges

/-- Open and read the file of one entry. -/
def verifyFile (scan : Scan) (entry : ManifestEntry) : Scan :=
  let path := entry.relativePath
  let result : FileResult :=
    { fileId := entry.fileId, path := path, pathExists := storage.pathExists path }
  let fail (result : FileResult) (runs : List (String × List ℤ)) (error : String) : Scan :=
    ⟨scan.results ++ [{ result with error := some error }], scan.sequenceRanges, runs⟩
  let close (result : FileResult) (runs : List (String × List ℤ)) : Scan :=
    ⟨scan.results ++ [result], storage.keepRange entry scan.sequenceRanges, runs⟩
  if !storage.pathExists path then
    fail result scan.rawSequences s!"FileNotFoundError: {storage.fullPath path}"
  else
    match storage.sha256File path with
    | .error error => fail result scan.rawSequences error
    | .ok digest =>
      let checked := { result with checksumOk := digest = entry.sha256 }
      match entry.format with
      | .parquet =>
        match storage.parquetFile path with
        | .error error => fail checked scan.rawSequences error
        | .ok file =>
          let schemaOk := storage.schemaOk file entry.dataset
          close
            { checked with
              schemaOk := some schemaOk
              readable := file.numRows = entry.rowCount && schemaOk }
            scan.rawSequences
      | .jsonlZst =>
        match scanLines (storage.rawLines path) scan.rawSequences 0 with
        | (runs, .error error) => fail checked runs error
        | (runs, .ok rowCount) =>
          close
            { checked with
              observedRowCount := some rowCount
              readable := (rowCount : ℤ) = entry.rowCount && 0 < rowCount }
            runs

end Storage

/-! ## The report -/

structure RangeOverlap where
  dataset : String
  previous : SequenceRange
  current : SequenceRange
deriving DecidableEq, Repr

structure SequenceDuplicate where
  runId : String
  sequence : ℤ
deriving DecidableEq, Repr

structure SequenceGap where
  runId : String
  firstMissingSequence : ℤ
  lastMissingSequence : ℤ
deriving DecidableEq, Repr

/-- The neighbours of a sorted group that meet. -/
def overlapsOf (group : String × List SequenceRange) : List RangeOverlap :=
  ((sortByKey SequenceRange.key group.2).adjacentPairs.filter
      fun pair => pair.2.first ≤ pair.1.last).map
    fun pair => ⟨group.1, pair.1, pair.2⟩

def duplicatesOf (run : String × List ℤ) : List SequenceDuplicate :=
  ((sortByKey id run.2).adjacentPairs.filter fun pair => pair.2 = pair.1).map
    fun pair => ⟨run.1, pair.2⟩

/-- The neighbours of a sorted run with something between them. -/
def gapsOf (run : String × List ℤ) : List SequenceGap :=
  ((sortByKey id run.2).adjacentPairs.filter
      fun pair => pair.2 ≠ pair.1 && pair.1 + 1 < pair.2).map
    fun pair => ⟨run.1, pair.1 + 1, pair.2 - 1⟩

structure VerificationReport where
  verifiedUtcNs : ℤ
  files : List FileResult
  overlaps : List RangeOverlap
  sequenceDuplicates : List SequenceDuplicate
  sequenceGaps : List SequenceGap
  sequenceScanComplete : Bool
  partialFiles : List String
  ok : Bool
  rawSequenceIntegrityOk : Bool
deriving DecidableEq, Repr

/-- Verify the entries of a manifest against the storage. -/
def verify (storage : Storage) (entries : List ManifestEntry) (verifiedUtcNs : ℤ) :
    VerificationReport :=
  let scan := entries.foldl storage.verifyFile .init
  let overlaps := scan.sequenceRanges.flatMap overlapsOf
  let duplicates := scan.rawSequences.flatMap duplicatesOf
  let gaps := scan.rawSequences.flatMap gapsOf
  let complete := storage.partialFiles.isEmpty
  let integrity := duplicates.isEmpty && (!complete || gaps.isEmpty)
  { verifiedUtcNs := verifiedUtcNs
    files := scan.results
    overlaps := overlaps
    sequenceDuplicates := duplicates
    sequenceGaps := gaps
    sequenceScanComplete := complete
    partialFiles := storage.partialFiles
    ok := (scan.results.all fun row => row.pathExists && row.checksumOk && row.readable) &&
      overlaps.isEmpty && duplicates.isEmpty && (!complete || gaps.isEmpty)
    rawSequenceIntegrityOk := integrity }

end ManifestStore

end PolymarketBt
