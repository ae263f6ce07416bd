import PolymarketBt.Model.PartialRecovery
import PolymarketBt.ToMathlib.Records

/-! # Recovery keeps exactly the complete records

The buffer carried from chunk to chunk is what the stream so far leaves over after its last line
feed, so the lines kept are the complete records of the stream, however it was cut into chunks.
-/

namespace PolymarketBt

open Records

/-- The bytes read before the end of the input or a failure. -/
def delivered : List DecompressorRead → List UInt8
  | [] => []
  | .zstdError :: _ => []
  | .chunk bytes :: later => if bytes = [] then [] else bytes ++ delivered later

/-- The complete records of a stream, and what is left over if anything is. -/
def pieces (parts : List (List UInt8) × List UInt8) : List (List UInt8) :=
  parts.1 ++ if parts.2 = [] then [] else [parts.2]

/-- Without carriage returns, lines are cut after line feeds alone. -/
theorem splitlinesFrom_eq {line bytes : List UInt8} (noReturn : carriageReturn ∉ bytes) :
    splitlinesFrom line bytes = pieces (cutFrom lineFeed line bytes) := by
  induction bytes generalizing line with
  | nil =>
    rw [splitlinesFrom, cutFrom, pieces]
    by_cases empty : line = [] <;> simp [empty]
  | cons byte rest ih =>
    obtain ⟨other, later⟩ := not_or.mp (List.mem_cons.not.mp noReturn)
    rw [splitlinesFrom, cutFrom]
    · split
      · next ends =>
        rw [if_pos (ends.resolve_right (Ne.symm other)), ih later]
        rfl
      · next within =>
        rw [if_neg fun same => within (.inl same), ih later]
    · rintro _ rfl
      exact absurd rfl other

/-- The last line tells whether anything is left over after the complete records. -/
theorem splitlines_last {bytes : List UInt8} (noReturn : carriageReturn ∉ bytes)
    (nonempty : bytes ≠ []) :
    ((cut lineFeed bytes).2 = [] ∧ splitlinesKeepEnds bytes = (cut lineFeed bytes).1 ∧
        ∃ last, (splitlinesKeepEnds bytes).getLast? = some last ∧ last.getLast? = some lineFeed) ∨
      ((splitlinesKeepEnds bytes).getLast? = some (cut lineFeed bytes).2 ∧
        (cut lineFeed bytes).2.getLast? ≠ some lineFeed ∧
        (splitlinesKeepEnds bytes).dropLast = (cut lineFeed bytes).1) := by
  have split : splitlinesKeepEnds bytes = pieces (cut lineFeed bytes) := splitlinesFrom_eq noReturn
  have whole : (cut lineFeed bytes).1.flatten ++ (cut lineFeed bytes).2 = bytes := cutFrom_flatten
  rw [split, pieces]
  by_cases nothing : (cut lineFeed bytes).2 = []
  · rw [if_pos nothing, List.append_nil]
    refine .inl ⟨nothing, rfl, ?_⟩
    rcases List.eq_nil_or_concat (cut lineFeed bytes).1 with none | ⟨front, last, same⟩
    · rw [none, nothing] at whole
      exact absurd whole.symm nonempty
    · have member : last ∈ (cut lineFeed bytes).1 := by
        rw [same]
        simp
      obtain ⟨text, ends, _⟩ := exists_record List.not_mem_nil member
      refine ⟨last, by rw [same]; simp, by rw [ends]; simp⟩
  · rw [if_neg nothing]
    refine .inr ⟨by simp, fun ends => ?_, by simp⟩
    exact not_mem_leftover List.not_mem_nil (List.mem_of_getLast? ends)

/-- Every read goes on from what the stream so far leaves over. -/
theorem recoverFrom_eq {buffer : List UInt8} {recovered : List (List UInt8)}
    {reads : List DecompressorRead} (unended : lineFeed ∉ buffer) (noBuffer : carriageReturn ∉ buffer)
    (noReturn : carriageReturn ∉ delivered reads) :
    recoverFrom buffer recovered reads =
      recovered ++ (cut lineFeed (buffer ++ delivered reads)).1 := by
  induction reads generalizing buffer recovered with
  | nil => rw [recoverFrom, delivered, List.append_nil, cut, cutFrom_unended unended, List.append_nil]
  | cons read later ih =>
    cases read with
    | zstdError =>
      rw [recoverFrom, delivered, List.append_nil, cut, cutFrom_unended unended, List.append_nil]
    | chunk bytes =>
      rw [recoverFrom, delivered]
      rw [delivered] at noReturn
      split
      · rw [List.append_nil, cut, cutFrom_unended unended, List.append_nil]
      next some =>
      rw [if_neg some, List.mem_append, not_or] at noReturn
      have noWhole : carriageReturn ∉ buffer ++ bytes :=
        fun member => (List.mem_append.mp member).elim noBuffer noReturn.1
      have tailEnds : lineFeed ∉ (cut lineFeed (buffer ++ bytes)).2 :=
        not_mem_leftover List.not_mem_nil
      have whole : (cut lineFeed (buffer ++ bytes)).1.flatten ++
          (cut lineFeed (buffer ++ bytes)).2 = buffer ++ bytes := cutFrom_flatten
      have tailReturn : carriageReturn ∉ (cut lineFeed (buffer ++ bytes)).2 := by
        intro member
        rw [← whole] at noWhole
        exact noWhole (List.mem_append_right _ member)
      -- The stream splits into the records of this chunk and those that begin in the next buffer.
      have goesOn : (cut lineFeed (buffer ++ (bytes ++ delivered later))).1 =
          (cut lineFeed (buffer ++ bytes)).1 ++
            (cut lineFeed ((cut lineFeed (buffer ++ bytes)).2 ++ delivered later)).1 := by
        rw [← List.append_assoc, cut, cutFrom_append, ← cut, cutFrom_begun tailEnds]
      rw [goesOn]
      rcases splitlines_last noWhole (by simp [some]) with
        ⟨nothing, lines, last, final, ends⟩ | ⟨final, rest, front⟩
      · simp only [final, ends, if_true]
        rw [ih List.not_mem_nil List.not_mem_nil noReturn.2, lines,
          nothing, List.append_assoc]
      · simp only [final, if_neg rest]
        rw [ih tailEnds tailReturn noReturn.2, front, List.append_assoc]

theorem recoveredLines_eq {reads : List DecompressorRead}
    (noReturn : carriageReturn ∉ delivered reads) :
    recoveredLines reads = (cut lineFeed (delivered reads)).1 :=
  recoverFrom_eq List.not_mem_nil List.not_mem_nil noReturn

/-! ## The recovered file -/

/-- The longest prefix of a stream that is empty or ends in a line feed. -/
structure LongestComplete (stream kept : List UInt8) : Prop where
  isPrefix : kept <+: stream
  complete : Complete lineFeed kept
  longest : ∀ other, other <+: stream → Complete lineFeed other → other <+: kept

/-- Recovery lists a file exactly when the stream has a line feed; it holds the longest complete
prefix of the stream and counts its line feeds, whatever the chunks were. -/
theorem recoverPartial_complete {reads : List DecompressorRead}
    (noReturn : carriageReturn ∉ delivered reads) :
    LongestComplete (delivered reads) (recoveredLines reads).flatten ∧
      (recoveredLines reads).length = (recoveredLines reads).flatten.count lineFeed ∧
      recoverPartial reads =
        (if lineFeed ∈ delivered reads then some {
          contents := (recoveredLines reads).flatten
          rowCount := (recoveredLines reads).flatten.count lineFeed
          uncompressedBytesEstimate := (recoveredLines reads).flatten.length
          qualityStatus := "partial_recovered_degraded" }
        else none) ∧
      ∀ others, delivered others = delivered reads →
        recoveredLines others = recoveredLines reads ∧
          recoverPartial others = recoverPartial reads := by
  have lines := recoveredLines_eq noReturn
  have count : (recoveredLines reads).length = (delivered reads).count lineFeed := by
    rw [lines]
    exact length_records List.not_mem_nil
  have feeds : (recoveredLines reads).flatten.count lineFeed = (delivered reads).count lineFeed := by
    have whole : (cut lineFeed (delivered reads)).1.flatten ++ (cut lineFeed (delivered reads)).2 =
        delivered reads := cutFrom_flatten
    have tail : (cut lineFeed (delivered reads)).2.count lineFeed = 0 :=
      List.count_eq_zero.mpr (not_mem_leftover List.not_mem_nil)
    have total := congrArg (List.count lineFeed) whole
    rw [List.count_append, tail, Nat.add_zero] at total
    rw [lines, total]
  refine ⟨?_, count.trans feeds.symm, ?_, fun others same => ?_⟩
  · rw [lines]
    obtain ⟨inside, complete, longest⟩ := @isLongest_cut _ _ lineFeed (delivered reads)
    exact ⟨inside, complete, longest⟩
  · have empty : recoveredLines reads = [] ↔ lineFeed ∉ delivered reads := by
      rw [← List.length_eq_zero_iff, count, List.count_eq_zero]
    unfold recoverPartial
    by_cases some : lineFeed ∈ delivered reads
    · rw [if_neg fun none => empty.mp none some, if_pos some, feeds, ← count, List.length_flatten]
    · rw [if_pos (empty.mpr some), if_neg some]
  · have kept : recoveredLines others = recoveredLines reads := by
      rw [lines, recoveredLines_eq (same ▸ noReturn), same]
    exact ⟨kept, by rw [recoverPartial, recoverPartial, kept]⟩

theorem recoverPartial_complete_torn :
    LongestComplete (delivered [.chunk [97, 10, 98], .chunk [99, 10, 10], .chunk [100], .zstdError])
      [97, 10, 98, 99, 10, 10] := by
  have noReturn : carriageReturn ∉
      delivered [.chunk [97, 10, 98], .chunk [99, 10, 10], .chunk [100], .zstdError] := by decide
  exact (recoverPartial_complete noReturn).1

/-- Every partial file is listed or counted as lost, in the order of the scan. -/
theorem recoverPartials_eq (partials : List (List DecompressorRead)) :
    recoverPartials partials = {
      manifest := partials.filterMap recoverPartial
      recoveredPartialFiles := (partials.filterMap recoverPartial).length
      unrecoveredPartialFiles := (partials.filter fun reads => recoverPartial reads = none).length } := by
  induction partials using List.reverseRecOn with
  | nil => rfl
  | append_singleton front reads ih =>
    rw [recoverPartials, List.foldl_append, List.foldl_cons, List.foldl_nil, ← recoverPartials, ih,
      RecoveryReport.add]
    cases file : recoverPartial reads <;> simp [file]

end PolymarketBt
