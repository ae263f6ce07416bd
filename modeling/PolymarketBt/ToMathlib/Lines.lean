import Mathlib.Tactic
import PolymarketBt.ToMathlib.ListSplits

/-! # Splitting text into lines

`splitlines` cuts a text at every Unicode line boundary, a carriage return followed by a line feed
counting once. Records framed by line feeds come back unchanged exactly when none of them contains a
boundary of its own; a record that does is torn into at least two lines that are not empty.
-/

namespace Lines

/-- The characters a text is cut at. -/
def isLineBreak (c : Char) : Bool :=
  [0x0A, 0x0B, 0x0C, 0x0D, 0x1C, 0x1D, 0x1E, 0x85, 0x2028, 0x2029].contains c.toNat

/-- The lines of a text whose first line has begun. -/
def splitFrom (line : List Char) : List Char → List (List Char)
  | [] => if line = [] then [] else [line]
  | '\r' :: '\n' :: rest => line :: splitFrom [] rest
  | c :: rest =>
    if isLineBreak c then line :: splitFrom [] rest else splitFrom (line ++ [c]) rest

def splitlines (text : List Char) : List (List Char) := splitFrom [] text

/-- The lines that hold at least one character. -/
def filledLines (text : List Char) : List (List Char) := (splitlines text).filter (· ≠ [])

/-- No character of a record is a line boundary. -/
def Whole (record : List Char) : Prop := ∀ c ∈ record, isLineBreak c = false

theorem Whole.nil : Whole [] := by simp [Whole]

/-- Records, each closed by a line feed. -/
def framed (records : List (List Char)) : List Char := records.flatMap (· ++ ['\n'])

@[simp] theorem framed_nil : framed [] = [] := rfl

@[simp] theorem framed_cons (record : List Char) (rest : List (List Char)) :
    framed (record :: rest) = record ++ '\n' :: framed rest := by simp [framed]

variable {line rest : List Char} {c : Char}

theorem splitFrom_cons (single : c ≠ '\r') :
    splitFrom line (c :: rest) =
      if isLineBreak c then line :: splitFrom [] rest else splitFrom (line ++ [c]) rest := by
  rw [splitFrom]
  rintro other rfl
  exact absurd rfl single

theorem splitFrom_newline : splitFrom line ('\n' :: rest) = line :: splitFrom [] rest := by
  rw [splitFrom_cons (by decide), if_pos (by decide)]

theorem splitFrom_text (text : isLineBreak c = false) :
    splitFrom line (c :: rest) = splitFrom (line ++ [c]) rest := by
  rw [splitFrom_cons, if_neg (by simp [text])]
  rintro rfl
  exact absurd text (by decide)

/-- A whole record extends the line that has begun. -/
theorem splitFrom_whole {record : List Char} (whole : Whole record) :
    splitFrom line (record ++ rest) = splitFrom (line ++ record) rest := by
  induction record generalizing line with
  | nil => simp
  | cons c record ih =>
    rw [List.cons_append, splitFrom_text (whole c (List.mem_cons_self ..)),
      ih fun other member => whole other (List.mem_cons_of_mem _ member)]
    simp

/-- Whole records come back as they were framed. -/
theorem splitlines_framed {records : List (List Char)} (whole : ∀ record ∈ records, Whole record) :
    splitlines (framed records) = records := by
  induction records with
  | nil => rfl
  | cons record others ih =>
    rw [splitlines, framed_cons, splitFrom_whole (whole record (List.mem_cons_self ..)),
      splitFrom_newline, List.nil_append]
    exact congrArg (record :: ·) (ih fun other member => whole other (List.mem_cons_of_mem _ member))

/-- What is closed by a line feed yields its own lines, one of them filled if it has any text. -/
theorem splitFrom_terminated {text : List Char} (noReturn : '\r' ∉ text) :
    ∃ lines, splitFrom line (text ++ '\n' :: rest) = lines ++ splitFrom [] rest ∧
      ((line ≠ [] ∨ ∃ c ∈ text, isLineBreak c = false) → ∃ own ∈ lines, own ≠ []) := by
  induction text generalizing line with
  | nil =>
    refine ⟨[line], splitFrom_newline, ?_⟩
    rintro (begun | ⟨c, none, _⟩)
    · exact ⟨line, List.mem_singleton_self _, begun⟩
    · cases none
  | cons c text ih =>
    have later : '\r' ∉ text := fun member => noReturn (List.mem_cons_of_mem _ member)
    have single : c ≠ '\r' := fun same => noReturn (same ▸ List.mem_cons_self ..)
    rw [List.cons_append, splitFrom_cons single]
    cases boundary : isLineBreak c with
    | true =>
      obtain ⟨lines, split, filled⟩ := @ih [] later
      refine ⟨line :: lines, by simp [split], ?_⟩
      rintro (begun | ⟨d, member, text⟩)
      · exact ⟨line, List.mem_cons_self .., begun⟩
      · rcases List.mem_cons.mp member with rfl | inText
        · rw [boundary] at text
          cases text
        · obtain ⟨own, inLines, nonempty⟩ := filled (.inr ⟨d, inText, text⟩)
          exact ⟨own, List.mem_cons_of_mem _ inLines, nonempty⟩
    | false =>
      obtain ⟨lines, split, filled⟩ := @ih (line ++ [c]) later
      exact ⟨lines, by simpa using split, fun _ => filled (.inl (by simp))⟩

/-- A record that opens and closes with text, as a serialised object does. -/
structure Enclosed (record : List Char) : Prop where
  noReturn : '\r' ∉ record
  ends : ∃ first middle last, record = first :: middle ++ [last] ∧ isLineBreak first = false ∧
    isLineBreak last = false

theorem length_filter_pos {lines : List (List Char)} (filled : ∃ own ∈ lines, own ≠ []) :
    1 ≤ (lines.filter (· ≠ [])).length := by
  obtain ⟨own, member, nonempty⟩ := filled
  exact List.length_pos_of_mem (List.mem_filter.mpr ⟨member, by simpa using nonempty⟩)

/-- The first boundary of a torn record. -/
theorem exists_first_break {record : List Char} (torn : ¬ Whole record) :
    ∃ before c after, record = before ++ c :: after ∧ Whole before ∧ isLineBreak c = true := by
  induction record with
  | nil => exact absurd Whole.nil torn
  | cons c record ih =>
    cases boundary : isLineBreak c with
    | true => exact ⟨[], c, record, rfl, Whole.nil, boundary⟩
    | false =>
      have later : ¬ Whole record := fun whole => torn fun d member => by
        rcases List.mem_cons.mp member with rfl | inRecord
        · exact boundary
        · exact whole d inRecord
      obtain ⟨before, d, after, rfl, whole, found⟩ := ih later
      refine ⟨c :: before, d, after, rfl, fun e member => ?_, found⟩
      rcases List.mem_cons.mp member with rfl | inBefore
      · exact boundary
      · exact whole e inBefore

/-- An enclosed record yields a filled line, and a torn one two. -/
theorem length_filledLines_cons {record : List Char} (enclosed : Enclosed record)
    (others : List (List Char)) :
    1 + (filledLines (framed others)).length ≤ (filledLines (framed (record :: others))).length ∧
      (¬ Whole record → 2 + (filledLines (framed others)).length ≤
        (filledLines (framed (record :: others))).length) := by
  obtain ⟨noReturn, first, middle, last, shape, opens, closes⟩ := enclosed
  simp only [filledLines, splitlines, framed_cons]
  constructor
  · obtain ⟨lines, split, filled⟩ :=
      splitFrom_terminated noReturn
    have some := length_filter_pos (filled (.inr ⟨first, by simp [shape], opens⟩))
    rw [split, List.filter_append, List.length_append]
    omega
  · intro torn
    obtain ⟨before, c, after, split, whole, boundary⟩ := exists_first_break torn
    have begun : before ≠ [] := by
      rintro rfl
      rw [shape] at split
      obtain ⟨rfl, _⟩ := List.cons.inj split
      rw [opens] at boundary
      cases boundary
    have unfinished : ∃ d ∈ after, isLineBreak d = false := by
      refine ⟨last, ?_, closes⟩
      rw [shape] at split
      rcases List.concat_eq_append_cons_iff.mp split with ⟨_, _, rfl⟩ | ⟨front, rfl, _⟩
      · rw [closes] at boundary
        cases boundary
      · simp
    have afterReturn : '\r' ∉ after := fun member => noReturn (by simp [split, member])
    have single : c ≠ '\r' := by
      rintro rfl
      exact noReturn (by simp [split])
    obtain ⟨lines, rest, filled⟩ :=
      splitFrom_terminated afterReturn
    have some := length_filter_pos (filled (.inr unfinished))
    rw [split, List.append_assoc, splitFrom_whole whole, List.cons_append, splitFrom_cons single,
      if_pos boundary, rest, List.nil_append, List.filter_cons_of_pos (by simpa using begun),
      List.filter_append, List.length_cons, List.length_append]
    omega

/-- Enclosed records yield as many filled lines as there are records only if none is torn. -/
theorem whole_of_length_filledLines {records : List (List Char)}
    (enclosed : ∀ record ∈ records, Enclosed record)
    (length : (filledLines (framed records)).length ≤ records.length) :
    ∀ record ∈ records, Whole record := by
  have least : ∀ records : List (List Char), (∀ record ∈ records, Enclosed record) →
      records.length ≤ (filledLines (framed records)).length := by
    intro records enclosed
    induction records with
    | nil => exact Nat.zero_le _
    | cons record others ih =>
      have := ih fun other member => enclosed other (List.mem_cons_of_mem _ member)
      have := (length_filledLines_cons (enclosed record (List.mem_cons_self ..)) others).1
      rw [List.length_cons]
      omega
  induction records with
  | nil => intro record member; cases member
  | cons record others ih =>
    have later : ∀ other ∈ others, Enclosed other :=
      fun other member => enclosed other (List.mem_cons_of_mem _ member)
    have all := least others later
    obtain ⟨one, two⟩ := length_filledLines_cons (enclosed record (List.mem_cons_self ..)) others
    rw [List.length_cons] at length
    intro other member
    rcases List.mem_cons.mp member with rfl | inOthers
    · by_contra torn
      have := two torn
      omega
    · exact ih later (by omega) other inOthers

end Lines
