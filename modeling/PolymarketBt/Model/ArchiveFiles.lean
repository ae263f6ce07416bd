import Mathlib.Algebra.BigOperators.Group.Multiset.Basic
import PolymarketBt.Model.RawArchive
import PolymarketBt.ToMathlib.KeyedList

/-! # The life of the raw archive's files

A partition file is written under a partial name, renamed on close, and then listed in the
manifest, which is where the normalizer finds it. Recovery scans for partial names, sets each file
aside and lists a copy of its complete lines. Every rename, write and append is one step, and the
process can end between any two.
-/

namespace PolymarketBt

/-- A file below a final name: closed by its writer, or written by recovery. -/
inductive FileName where
  | part (fileId : ℕ)
  | recovered (fileId : ℕ)
deriving DecidableEq, Repr

def FileName.fileId : FileName → ℕ
  | part fileId => fileId
  | recovered fileId => fileId

/-- What of a partial file is on the disk: its complete lines, and a line that is cut off. -/
structure PartialFile where
  fileId : ℕ
  lines : List ByteArray
  tail : ByteArray

/-- What the life cycle needs of a manifest entry. -/
structure ManifestEntry where
  path : FileName
  rowCount : ℕ
  qualityStatus : String
deriving DecidableEq, Repr

/-- An open partition writer, with the lines that its compressor still holds. -/
structure OpenWriter where
  fileId : ℕ
  buffered : List ByteArray

/-- What recovery has done about the partial file it is at. -/
inductive RecoveryStage where
  | scanning
  | setAside (lines : List ByteArray)
  | copied (fileId : ℕ) (rowCount : ℕ)

/-- The process: not running, recovering the partial files it found, or serving; a writer that has
renamed its file has yet to list it. -/
inductive ArchiveProcess where
  | down
  | recovering (found : List ℕ) (stage : RecoveryStage)
  | serving (writers : List OpenWriter) (closing : Option ℕ)

/-- The directory, the manifest and the process; `flushed` records the lines that have reached the
disk. File identifiers are never used twice. -/
structure ArchiveFiles where
  partials : List PartialFile
  files : FileName → Option (List ByteArray)
  abandoned : List PartialFile
  manifest : List ManifestEntry
  nextFileId : ℕ
  process : ArchiveProcess
  flushed : Multiset ByteArray

inductive FileAction where
  /-- The process starts and finds the partial files in some order. -/
  | start (found : List ℕ)
  | setAside
  | copyLines
  | listRecovered
  /-- Recovery is complete. -/
  | serve
  | openPartial
  | write (fileId : ℕ) (line : ByteArray)
  /-- The compressor emits its oldest lines, and perhaps a part of the next one. -/
  | spill (fileId count : ℕ) (tail : ByteArray)
  | flush (fileId : ℕ)
  | rename (fileId : ℕ)
  | listClosed
  | crash

namespace ArchiveFiles

def init : ArchiveFiles := ⟨[], fun _ => none, [], [], 0, .down, 0⟩

variable (archive : ArchiveFiles)

def partialIds : List ℕ := archive.partials.map PartialFile.fileId

/-- The lines of a file in the directory. -/
def linesOf (name : FileName) : List ByteArray := (archive.files name).getD []

/-- Append lines to a partial file; a line that was cut off is among them. -/
def extend (fileId : ℕ) (lines : List ByteArray) (tail : ByteArray) : List PartialFile :=
  KeyedList.replace PartialFile.fileId fileId
    (fun file => { file with lines := file.lines ++ lines, tail := tail }) archive.partials

def withoutPartial (fileId : ℕ) : List PartialFile :=
  KeyedList.without PartialFile.fileId fileId archive.partials

def setBuffer (writers : List OpenWriter) (fileId : ℕ) (buffered : List ByteArray) :
    List OpenWriter :=
  KeyedList.replace OpenWriter.fileId fileId (fun writer => { writer with buffered := buffered })
    writers

/-- The next partial file is read up to its last complete line and set aside. -/
def setAsideNext (fileId : ℕ) (found : List ℕ) : Option ArchiveFiles := do
  let file ← archive.partials.find? fun file => file.fileId = fileId
  return { archive with
    partials := archive.withoutPartial fileId
    abandoned := archive.abandoned ++ [file]
    process := .recovering found (if file.lines = [] then .scanning else .setAside file.lines) }

def step : FileAction → Option ArchiveFiles
  | .crash => some { archive with process := .down }
  | .start found =>
    match archive.process with
    | .down =>
      if found.Perm archive.partialIds then
        some { archive with process := .recovering found .scanning }
      else none
    | _ => none
  | .setAside =>
    match archive.process with
    | .recovering (fileId :: found) .scanning => archive.setAsideNext fileId found
    | _ => none
  | .copyLines =>
    match archive.process with
    | .recovering found (.setAside lines) => some { archive with
        files := Function.update archive.files (.recovered archive.nextFileId) (some lines)
        nextFileId := archive.nextFileId + 1
        process := .recovering found (.copied archive.nextFileId lines.length) }
    | _ => none
  | .listRecovered =>
    match archive.process with
    | .recovering found (.copied fileId rowCount) => some { archive with
        manifest := archive.manifest ++
          [⟨.recovered fileId, rowCount, "partial_recovered_degraded"⟩]
        process := .recovering found .scanning }
    | _ => none
  | .serve =>
    match archive.process with
    | .recovering [] .scanning => some { archive with process := .serving [] none }
    | _ => none
  | .openPartial =>
    match archive.process with
    | .serving writers none => some { archive with
        partials := archive.partials ++ [⟨archive.nextFileId, [], .empty⟩]
        nextFileId := archive.nextFileId + 1
        process := .serving (writers ++ [⟨archive.nextFileId, []⟩]) none }
    | _ => none
  | .write fileId line =>
    match archive.process with
    | .serving writers none => do
      let writer ← writers.find? fun writer => writer.fileId = fileId
      return { archive with
        process := .serving (setBuffer writers fileId (writer.buffered ++ [line])) none }
    | _ => none
  | .spill fileId count tail =>
    match archive.process with
    | .serving writers none => do
      let writer ← writers.find? fun writer => writer.fileId = fileId
      return { archive with
        partials := archive.extend fileId (writer.buffered.take count) tail
        process := .serving (setBuffer writers fileId (writer.buffered.drop count)) none
        flushed := archive.flushed + (writer.buffered.take count : List ByteArray) }
    | _ => none
  | .flush fileId =>
    match archive.process with
    | .serving writers none => do
      let writer ← writers.find? fun writer => writer.fileId = fileId
      return { archive with
        partials := archive.extend fileId writer.buffered .empty
        process := .serving (setBuffer writers fileId []) none
        flushed := archive.flushed + (writer.buffered : List ByteArray) }
    | _ => none
  | .rename fileId =>
    match archive.process with
    | .serving writers none => do
      let writer ← writers.find? fun writer => writer.fileId = fileId
      let file ← archive.partials.find? fun file => file.fileId = fileId
      -- the frame has been flushed
      if writer.buffered = [] then some { archive with
        partials := archive.withoutPartial fileId
        files := Function.update archive.files (.part fileId) (some file.lines)
        process := .serving (KeyedList.without OpenWriter.fileId fileId writers) (some fileId) }
      else none
    | _ => none
  | .listClosed =>
    match archive.process with
    | .serving writers (some fileId) => some { archive with
        manifest := archive.manifest ++
          [⟨.part fileId, (archive.linesOf (.part fileId)).length, "complete"⟩]
        process := .serving writers none }
    | _ => none

end ArchiveFiles

end PolymarketBt
