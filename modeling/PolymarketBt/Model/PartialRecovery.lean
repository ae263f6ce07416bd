import Mathlib.Tactic

/-! # Reading a partial file back

Recovery decompresses a partial file chunk by chunk and keeps the lines that are complete. A read
yields a chunk, or nothing at the end of the input, or fails on damaged data, and reading stops at
either. What precedes a failure within the same read is not yielded.
-/

namespace PolymarketBt

def lineFeed : UInt8 := 10
def carriageReturn : UInt8 := 13

/-- Lines with their ends, cut after a line feed, a carriage return or the pair of them. -/
def splitlinesFrom (line : List UInt8) : List UInt8 → List (List UInt8)
  | [] => if line = [] then [] else [line]
  | 13 :: 10 :: rest => (line ++ [carriageReturn, lineFeed]) :: splitlinesFrom [] rest
  | byte :: rest =>
    if byte = lineFeed ∨ byte = carriageReturn then (line ++ [byte]) :: splitlinesFrom [] rest
    else splitlinesFrom (line ++ [byte]) rest

def splitlinesKeepEnds (bytes : List UInt8) : List (List UInt8) := splitlinesFrom [] bytes

/-- One read of the decompressor. -/
inductive DecompressorRead where
  | chunk (bytes : List UInt8)
  | zstdError
deriving DecidableEq, Repr

/-- The lines kept from a list of reads, after the ones recovered and with a buffer left over. -/
def recoverFrom (buffer : List UInt8) (recovered : List (List UInt8)) :
    List DecompressorRead → List (List UInt8)
  | [] => recovered
  | .zstdError :: _ => recovered
  | .chunk bytes :: later =>
    if bytes = [] then recovered
    else
      let complete := splitlinesKeepEnds (buffer ++ bytes)
      match complete.getLast? with
      | none => recoverFrom [] recovered later
      | some last =>
        if last.getLast? = some lineFeed then recoverFrom [] (recovered ++ complete) later
        else recoverFrom last (recovered ++ complete.dropLast) later

def recoveredLines (reads : List DecompressorRead) : List (List UInt8) := recoverFrom [] [] reads

/-- A recovered file and what its manifest entry says about it. -/
structure RecoveredFile where
  contents : List UInt8
  rowCount : ℕ
  uncompressedBytesEstimate : ℕ
  qualityStatus : String
deriving DecidableEq, Repr

/-- The lines are written one after the other; a file without a complete line is not recovered. -/
def recoverPartial (reads : List DecompressorRead) : Option RecoveredFile :=
  if recoveredLines reads = [] then none
  else some {
    contents := (recoveredLines reads).flatten
    rowCount := (recoveredLines reads).length
    uncompressedBytesEstimate := ((recoveredLines reads).map List.length).sum
    qualityStatus := "partial_recovered_degraded" }

/-- What recovery has listed and counted. -/
structure RecoveryReport where
  manifest : List RecoveredFile
  recoveredPartialFiles : ℕ
  unrecoveredPartialFiles : ℕ
deriving DecidableEq, Repr

def RecoveryReport.add (report : RecoveryReport) (reads : List DecompressorRead) : RecoveryReport :=
  match recoverPartial reads with
  | some file => { report with
      manifest := report.manifest ++ [file]
      recoveredPartialFiles := report.recoveredPartialFiles + 1 }
  | none => { report with unrecoveredPartialFiles := report.unrecoveredPartialFiles + 1 }

def recoverPartials (partials : List (List DecompressorRead)) : RecoveryReport :=
  partials.foldl RecoveryReport.add ⟨[], 0, 0⟩

end PolymarketBt
