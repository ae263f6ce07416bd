import Mathlib.Data.Bool.AllAny
import PolymarketBt.Machine.Loop
import PolymarketBt.Model.RawArchive

/-! # Reading back what was archived

The writer closes a record with one newline byte; the reader cuts the decoded text at every Unicode
line boundary. JSON escapes the boundaries among the control characters and leaves the other three
raw, so a file is read back as it was written exactly when no text field contains one of those.
-/

namespace PolymarketBt

open Lines

/-- The line boundaries that JSON does not escape. -/
def rawLineBreak (c : Char) : Bool := [0x85, 0x2028, 0x2029].contains c.toNat

theorem rawLineBreak_eq_false {c : Char} :
    rawLineBreak c = false ↔ (0x80 ≤ c.toNat → isLineBreak c = false) := by
  simp only [rawLineBreak, isLineBreak, List.contains_eq_mem, List.mem_cons, List.not_mem_nil,
    or_false, decide_eq_false_iff_not]
  omega

namespace Json

section Rendered

variable {P : Char → Prop} (ascii : ∀ c : Char, 0x20 ≤ c.toNat → c.toNat < 0x80 → P c)

theorem controlEscape_ascii :
    ∀ code < 0x20, ∀ c ∈ controlEscape code, 0x20 ≤ c.toNat ∧ c.toNat < 0x80 := by
  simp only [← List.all_iff_forall_prop]
  decide

include ascii

/-- Escaping leaves printable characters and what lies above them. -/
theorem forall_escapeChar {c : Char} :
    (∀ d ∈ escapeChar c, P d) ↔ (0x80 ≤ c.toNat → P c) := by
  unfold escapeChar
  split
  · next quote =>
    subst quote
    have : P '\\' ∧ P '"' := ⟨ascii _ (by decide) (by decide), ascii _ (by decide) (by decide)⟩
    simp [this]
  split
  · next slash =>
    subst slash
    have : P '\\' := ascii _ (by decide) (by decide)
    simp [this]
  split
  · next control =>
    constructor
    · intro _ large
      omega
    · intro _ d member
      obtain ⟨lower, upper⟩ := controlEscape_ascii c.toNat control d member
      exact ascii d lower upper
  · next printable =>
    simp only [List.mem_singleton, forall_eq]
    constructor
    · exact fun holds _ => holds
    · intro above
      by_cases large : 0x80 ≤ c.toNat
      · exact above large
      · exact ascii c (by omega) (by omega)

theorem forall_quoted {text : String} :
    (∀ d ∈ quoted text, P d) ↔ ∀ c ∈ text.toList, 0x80 ≤ c.toNat → P c := by
  have quote : P '"' := ascii _ (by decide) (by decide)
  simp only [quoted, List.cons_append, List.mem_cons, List.mem_append, List.mem_flatMap,
    List.not_mem_nil, or_false]
  constructor
  · intro all c member
    exact (forall_escapeChar ascii).mp fun d inEscape => all d (.inr (.inl ⟨c, member, inEscape⟩))
  · rintro texts d (rfl | ⟨c, member, inEscape⟩ | rfl)
    · exact quote
    · exact (forall_escapeChar ascii).mpr (texts c member) d inEscape
    · exact quote

theorem forall_int {value : ℤ} : ∀ d ∈ (Value.int value).render, P d := by
  have digits : ∀ n : ℕ, ∀ d ∈ n.repr.toList, P d := by
    intro n d member
    rw [Nat.toList_repr] at member
    have digit := Nat.isDigit_of_mem_toDigits (by decide) (by decide) member
    simp only [Char.isDigit, Bool.and_eq_true, decide_eq_true_eq, ge_iff_le, UInt32.le_iff_toNat_le]
      at digit
    have lower : 48 ≤ d.toNat := digit.1
    have upper : d.toNat ≤ 57 := digit.2
    exact ascii d (by omega) (by omega)
  cases value with
  | ofNat n => exact digits n
  | negSucc n =>
    intro d member
    simp only [Value.render, toString, Int.repr, String.toList_append, List.mem_append] at member
    rcases member with sign | digit
    · simp only [String.reduceToList, List.mem_singleton] at sign
      subst sign
      exact ascii _ (by decide) (by decide)
    · exact digits _ d digit

/-- The text of a value, if it is one. -/
def Value.texts : Value → List String
  | .text value => [value]
  | _ => []

theorem forall_render {value : Value} :
    (∀ d ∈ value.render, P d) ↔ ∀ text ∈ value.texts, ∀ c ∈ text.toList, 0x80 ≤ c.toNat → P c := by
  cases value with
  | null =>
    have null : ∀ d ∈ ['n', 'u', 'l', 'l'], 0x20 ≤ d.toNat ∧ d.toNat < 0x80 := by
      simp only [← List.all_iff_forall_prop]
      decide
    simp only [Value.texts, List.not_mem_nil, IsEmpty.forall_iff, implies_true, iff_true]
    exact fun d member => ascii d (null d member).1 (null d member).2
  | int value => simpa [Value.texts] using forall_int ascii
  | text value => simpa [Value.texts, Value.render] using forall_quoted ascii

theorem forall_intercalate {parts : List (List Char)} :
    (∀ d ∈ [','].intercalate parts, P d) ↔ ∀ part ∈ parts, ∀ d ∈ part, P d := by
  have comma : P ',' := ascii _ (by decide) (by decide)
  induction parts with
  | nil => simp
  | cons part rest ih =>
    cases rest with
    | nil => simp
    | cons next rest =>
      rw [List.intercalate_cons_cons, List.forall_mem_append, List.forall_mem_append,
        List.forall_mem_singleton]
      constructor
      · rintro ⟨⟨first, _⟩, others⟩
        exact List.forall_mem_cons.mpr ⟨first, ih.mp others⟩
      · intro all
        obtain ⟨first, others⟩ := List.forall_mem_cons.mp all
        exact ⟨⟨first, comma⟩, ih.mpr others⟩

/-- A rendered object has the property when its texts do above the printable characters. -/
theorem forall_object {fields : List (String × Value)}
    (keys : ∀ field ∈ fields, ∀ c ∈ field.1.toList, c.toNat < 0x80) :
    (∀ d ∈ object fields, P d) ↔ ∀ field ∈ fields, ∀ text ∈ field.2.texts, ∀ c ∈ text.toList,
      0x80 ≤ c.toNat → P c := by
  have punctuation : P '{' ∧ P '}' ∧ P ':' := ⟨ascii _ (by decide) (by decide),
    ascii _ (by decide) (by decide), ascii _ (by decide) (by decide)⟩
  have each : ∀ field ∈ fields, (∀ d ∈ member field, P d) ↔
      ∀ text ∈ field.2.texts, ∀ c ∈ text.toList, 0x80 ≤ c.toNat → P c := by
    intro field inFields
    have key := (forall_quoted ascii).mpr fun c inKey large => by
      have := keys field inFields c inKey
      omega
    rw [member, List.forall_mem_append, List.forall_mem_cons, forall_render ascii]
    exact ⟨fun all => all.2.2, fun texts => ⟨key, punctuation.2.2, texts⟩⟩
  rw [object, List.cons_append, List.forall_mem_cons, List.forall_mem_append,
    forall_intercalate ascii, List.forall_mem_map, List.forall_mem_singleton]
  constructor
  · rintro ⟨_, members, _⟩ field inFields
    exact (each field inFields).mp (members field inFields)
  · intro texts
    exact ⟨punctuation.1, fun field inFields => (each field inFields).mpr (texts field inFields),
      punctuation.2.1⟩

end Rendered

theorem object_enclosed {fields : List (String × Value)}
    (keys : ∀ field ∈ fields, ∀ c ∈ field.1.toList, c.toNat < 0x80) : Enclosed (object fields) := by
  refine ⟨fun member => ?_, '{', [','].intercalate (fields.map Json.member), '}', rfl,
    by decide, by decide⟩
  have ascii : ∀ c : Char, 0x20 ≤ c.toNat → c.toNat < 0x80 → c ≠ '\r' := by
    rintro c large _ rfl
    exact absurd large (by decide)
  refine (forall_object ascii keys).mpr (fun _ _ _ _ c _ large => ?_) '\r' member rfl
  rintro rfl
  exact absurd large (by decide)

end Json

namespace RawEnvelope

variable (envelope : RawEnvelope)

/-- The fields that hold arbitrary text. -/
def textFields : List String :=
  [envelope.collectorVersion, envelope.runId, envelope.connectionId, envelope.stream,
    envelope.payloadRaw] ++
  [envelope.eventTypeHint, envelope.sourceTimestampRaw, envelope.marketId, envelope.tokenId].filterMap id

/-- The record has no line boundary of its own. -/
def Unbroken : Prop := ∀ text ∈ envelope.textFields, ∀ c ∈ text.toList, rawLineBreak c = false

theorem unbroken_iff :
    envelope.Unbroken ↔
      (envelope.textFields.all fun text => text.toList.all fun c => !rawLineBreak c) = true := by
  simp [Unbroken]

instance : Decidable envelope.Unbroken := decidable_of_iff' _ envelope.unbroken_iff

theorem keys_ascii : ∀ field ∈ envelope.fields, ∀ c ∈ field.1.toList, c.toNat < 0x80 := by
  simp only [fields, List.forall_mem_cons, List.not_mem_nil, IsEmpty.forall_iff, implies_true, and_true,
    ← List.all_iff_forall_prop]
  decide

theorem forall_ofOption {Q : String → Prop} {value : Option String} :
    (∀ text ∈ (Json.Value.ofOption value).texts, Q text) ↔ ∀ text ∈ value, Q text := by
  cases value <;> simp [Json.Value.ofOption, Json.Value.texts]

/-- The texts of a record are its text fields and its constants. -/
theorem forall_fields {Q : String → Prop} (source : Q envelope.source.text)
    (content : Q envelope.contentType.text) (encoding : Q envelope.payloadEncoding.text)
    (status : Q envelope.parseStatus.text) :
    (∀ field ∈ envelope.fields, ∀ text ∈ field.2.texts, Q text) ↔
      ∀ text ∈ envelope.textFields, Q text := by
  simp only [fields, List.forall_mem_cons, forall_ofOption]
  simp only [Json.Value.texts, List.mem_singleton, forall_eq, List.not_mem_nil, IsEmpty.forall_iff,
    implies_true, and_true, true_and, source, content, encoding, status, textFields,
    List.forall_mem_append, List.forall_mem_cons, List.mem_filterMap, id, exists_eq_right]
  simp only [List.mem_cons, List.not_mem_nil, or_false]
  constructor
  · rintro ⟨collector, run, connection, stream, hint, stamp, market, token, payload⟩
    refine ⟨⟨collector, run, connection, stream, payload⟩, ?_⟩
    rintro text (same | same | same | same)
    · exact hint text same.symm
    · exact stamp text same.symm
    · exact market text same.symm
    · exact token text same.symm
  · rintro ⟨⟨collector, run, connection, stream, payload⟩, optional⟩
    exact ⟨collector, run, connection, stream, fun text same => optional text (.inl same.symm),
      fun text same => optional text (.inr (.inl same.symm)),
      fun text same => optional text (.inr (.inr (.inl same.symm))),
      fun text same => optional text (.inr (.inr (.inr same.symm))), payload⟩

/-- The characters of a record, as a list. -/
theorem toList_modelDumpJson : envelope.modelDumpJson.toList = Json.object envelope.fields :=
  String.toList_ofList

/-- A record is whole exactly when no text field holds an unescaped boundary. -/
theorem whole_modelDumpJson : Whole envelope.modelDumpJson.toList ↔ envelope.Unbroken := by
  have ascii : ∀ c : Char, 0x20 ≤ c.toNat → c.toNat < 0x80 → isLineBreak c = false := by
    intro c lower upper
    simp only [isLineBreak, List.contains_eq_mem, List.mem_cons, List.not_mem_nil, or_false,
      decide_eq_false_iff_not]
    omega
  rw [toList_modelDumpJson, Whole, Json.forall_object ascii envelope.keys_ascii]
  simp only [Unbroken, rawLineBreak_eq_false]
  -- The constants hold no character outside the ASCII range.
  refine envelope.forall_fields ?_ ?_ ?_ ?_
  · cases envelope.source <;> exact List.all_iff_forall_prop.mp (by decide)
  · cases envelope.contentType <;> exact List.all_iff_forall_prop.mp (by decide)
  · cases envelope.payloadEncoding <;> exact List.all_iff_forall_prop.mp (by decide)
  · cases envelope.parseStatus <;> exact List.all_iff_forall_prop.mp (by decide)

theorem enclosed_modelDumpJson : Enclosed envelope.modelDumpJson.toList := by
  rw [toList_modelDumpJson]
  exact Json.object_enclosed envelope.keys_ascii

end RawEnvelope

/-! ## The file -/

/-- The records of a file as texts. -/
def recordsOf (envelopes : List RawEnvelope) : List (List Char) :=
  envelopes.map fun envelope => envelope.modelDumpJson.toList

namespace PartitionWriter

theorem contents_foldl (envelopes : List RawEnvelope) (writer : PartitionWriter) :
    (envelopes.foldl write writer).contents =
      writer.contents ++ (String.ofList (framed (recordsOf envelopes))).toUTF8 := by
  induction envelopes generalizing writer with
  | nil => simp [recordsOf, framed]
  | cons envelope rest ih =>
    have record : (String.ofList (framed (recordsOf (envelope :: rest)))).toUTF8 =
        envelope.jsonLine ++ (String.ofList (framed (recordsOf rest))).toUTF8 := by
      simp [recordsOf, framed, RawEnvelope.jsonLine, ByteArray.append_assoc]
    rw [List.foldl_cons, ih, record]
    simp [write, ByteArray.append_assoc]

/-- A file holds its records, each closed by a newline, in UTF-8. -/
theorem contents_writeAll (envelopes : List RawEnvelope) :
    (writeAll envelopes).contents = (String.ofList (framed (recordsOf envelopes))).toUTF8 := by
  rw [writeAll, contents_foldl]
  simp [init]

/-- The manifest of a file counts its envelopes and its bytes. -/
theorem writeAll_counts (envelopes : List RawEnvelope) :
    (writeAll envelopes).rows = envelopes.length ∧
      (writeAll envelopes).uncompressedBytes = (writeAll envelopes).contents.size := by
  suffices general : ∀ writer : PartitionWriter, writer.uncompressedBytes = writer.contents.size →
      (envelopes.foldl write writer).rows = writer.rows + envelopes.length ∧
        (envelopes.foldl write writer).uncompressedBytes =
          (envelopes.foldl write writer).contents.size by
    simpa [writeAll, init] using general init rfl
  induction envelopes with
  | nil => exact fun writer same => ⟨rfl, same⟩
  | cons envelope rest ih =>
    intro writer same
    obtain ⟨rows, bytes⟩ := ih (writer.write envelope) (by simp [write, same])
    refine ⟨?_, bytes⟩
    rw [List.foldl_cons, rows, List.length_cons]
    simp only [write]
    omega

end PartitionWriter

/-- The envelopes of a file with the line numbers they were written on. -/
def referenced (fileId : String) (envelopes : List RawEnvelope) : List (RawEnvelope × String) :=
  (envelopes.zipIdx 1).map fun numbered => (numbered.1, rawReference fileId numbered.2)

section Reading

variable {validateJson : String → Except PyError RawEnvelope} {fileId : String}
  {envelopes : List RawEnvelope}

/-- Reading a file reads its filled lines one by one. -/
theorem readEnvelopes_writeAll {read : List (RawEnvelope × String)} :
    readEnvelopes validateJson fileId (PartitionWriter.writeAll envelopes).contents = .ok read ↔
      List.Forall₂ (fun line entry => validateJson (String.ofList line.1) = .ok entry.1 ∧
          entry.2 = rawReference fileId line.2)
        (((splitlines (framed (recordsOf envelopes))).zipIdx 1).filter fun line => line.1 ≠ [])
        read := by
  have decoded : String.fromUTF8? (PartitionWriter.writeAll envelopes).contents =
      some (String.ofList (framed (recordsOf envelopes))) := by
    rw [PartitionWriter.contents_writeAll]
    exact dif_pos (String.isValidUTF8 _)
  rw [readEnvelopes, decoded]
  dsimp only
  rw [String.toList_ofList, Except.mapM_eq_ok]
  refine iff_of_eq (congrArg (List.Forall₂ · _ _) ?_)
  funext line entry
  simp only [Except.bind_eq_ok, Except.pure_eq_ok]
  refine propext ?_
  constructor
  · rintro ⟨envelope, ran, rfl⟩
    exact ⟨ran, rfl⟩
  · rintro ⟨ran, reference⟩
    exact ⟨entry.1, ran, Prod.ext rfl reference.symm⟩

/-- A file none of whose records is torn is read back as it was written. -/
theorem readEnvelopes_of_unbroken
    (reads : ∀ envelope ∈ envelopes, validateJson envelope.modelDumpJson = .ok envelope)
    (unbroken : ∀ envelope ∈ envelopes, envelope.Unbroken) :
    readEnvelopes validateJson fileId (PartitionWriter.writeAll envelopes).contents =
      .ok (referenced fileId envelopes) := by
  have whole : ∀ record ∈ recordsOf envelopes, Whole record := by
    intro record member
    obtain ⟨envelope, inEnvelopes, rfl⟩ := List.mem_map.mp member
    exact envelope.whole_modelDumpJson.mpr (unbroken envelope inEnvelopes)
  have filled : ∀ line ∈ (recordsOf envelopes).zipIdx 1, decide (line.1 ≠ []) = true := by
    intro line member
    obtain ⟨envelope, _, same⟩ := List.mem_map.mp (List.fst_mem_of_mem_zipIdx member)
    rw [← same, decide_eq_true_eq, RawEnvelope.toList_modelDumpJson]
    simp [Json.object]
  rw [readEnvelopes_writeAll, splitlines_framed whole, List.filter_eq_self.mpr filled, recordsOf,
    List.zipIdx_map, referenced, List.forall₂_map_left_iff, List.forall₂_map_right_iff,
    List.forall₂_same]
  intro numbered member
  refine ⟨?_, rfl⟩
  simpa using reads numbered.1 (List.fst_mem_of_mem_zipIdx member)

/-- Whatever the JSON reader accepts, a file read back with one envelope a record has no torn one. -/
theorem unbroken_of_readEnvelopes
    (read : readEnvelopes validateJson fileId (PartitionWriter.writeAll envelopes).contents =
      .ok (referenced fileId envelopes)) : ∀ envelope ∈ envelopes, envelope.Unbroken := by
  have lengths := (readEnvelopes_writeAll.mp read).length_eq
  have lines : (((splitlines (framed (recordsOf envelopes))).zipIdx 1).filter fun line =>
      line.1 ≠ []).length = (filledLines (framed (recordsOf envelopes))).length := by
    rw [filledLines, ← List.zipIdx_map_fst 1 (splitlines (framed (recordsOf envelopes))),
      List.filter_map, List.length_map, List.zipIdx_map_fst]
    rfl
  have enclosed : ∀ record ∈ recordsOf envelopes, Enclosed record := by
    intro record member
    obtain ⟨envelope, _, rfl⟩ := List.mem_map.mp member
    exact envelope.enclosed_modelDumpJson
  have whole := whole_of_length_filledLines enclosed (by
    rw [← lines, lengths]
    simp [referenced, recordsOf])
  intro envelope member
  exact envelope.whole_modelDumpJson.mp (whole _ (List.mem_map_of_mem member))

/-- A file is read back as it was written exactly when no text field of any of its envelopes holds a
line boundary that JSON leaves raw. -/
theorem readEnvelopes_eq_referenced_iff
    (reads : ∀ envelope ∈ envelopes, validateJson envelope.modelDumpJson = .ok envelope) :
    readEnvelopes validateJson fileId (PartitionWriter.writeAll envelopes).contents =
        .ok (referenced fileId envelopes) ↔
      ∀ envelope ∈ envelopes, envelope.Unbroken :=
  ⟨unbroken_of_readEnvelopes, readEnvelopes_of_unbroken reads⟩

end Reading

/-- A message of the given text, as the collector archives it. -/
def exampleEnvelope (payloadRaw : String) : RawEnvelope where
  collectorVersion := "1"
  runId := "run"
  connectionId := "connection"
  sequence := 1
  source := .clobMarketWs
  stream := "market"
  receivedUtcNs := 1
  receivedMonotonicNs := 1
  payloadRaw := payloadRaw

/-- A reader that knows the record of one envelope. -/
def readerOf (envelope : RawEnvelope) (line : String) : Except PyError RawEnvelope :=
  if line = envelope.modelDumpJson then .ok envelope
  else .error (.valueError "validation error for RawEnvelope")

/-- A line feed in a payload is escaped, and the envelope is read back. -/
theorem readEnvelopes_eq_referenced_newline :
    readEnvelopes (readerOf (exampleEnvelope "a\nb")) "f"
        (PartitionWriter.writeAll [exampleEnvelope "a\nb"]).contents =
      .ok (referenced "f" [exampleEnvelope "a\nb"]) :=
  (readEnvelopes_eq_referenced_iff fun envelope member => by
    obtain rfl := List.mem_singleton.mp member
    exact if_pos rfl).mpr fun envelope member => by
      obtain rfl := List.mem_singleton.mp member
      decide

/-- The same message with a line separator comes back torn, although its record reads back. -/
theorem line_separator_tears_record :
    readerOf (exampleEnvelope "a\u2028b") (exampleEnvelope "a\u2028b").modelDumpJson =
        .ok (exampleEnvelope "a\u2028b") ∧
      readEnvelopes (readerOf (exampleEnvelope "a\u2028b")) "f"
          (PartitionWriter.writeAll [exampleEnvelope "a\u2028b"]).contents ≠
        .ok (referenced "f" [exampleEnvelope "a\u2028b"]) := by
  refine ⟨if_pos rfl, fun read => ?_⟩
  have torn : ¬ (exampleEnvelope "a\u2028b").Unbroken := by decide
  exact torn (unbroken_of_readEnvelopes read _ (List.mem_singleton_self _))

end PolymarketBt
