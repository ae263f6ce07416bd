import PolymarketBt.Model.ManifestStore

/-! # What a verified manifest says

The verification compares neighbours only, in sorted lists. On ranges that are not inverted this covers
every pair of a group, and on the sequences of a run it finds every repetition and every hole. A file
that fails leaves its range out, but then the report is not in order anyway.
-/

namespace PolymarketBt

namespace ManifestStore

open KeyedList StableSort AdjacentPairs

/-! ## What the files hold -/

/-- The run and the sequence of a line, if it is a row that can be read. -/
def RawLine.numbered : RawLine → Option (String × ℤ)
  | .row runId sequence => some (runId, sequence)
  | _ => none

/-- The line raises no error. -/
def RawLine.Reads : RawLine → Prop
  | .blank => True
  | .row _ _ => True
  | .unnumbered _ _ => False
  | .broken _ => False

def ManifestEntry.range (entry : ManifestEntry) : Option SequenceRange :=
  match entry.firstSequence, entry.lastSequence with
  | some first, some last => some ⟨first, last, entry.relativePath⟩
  | _, _ => none

namespace Storage

variable (storage : Storage)

/-- A raw file that can be read to its end. -/
structure ReadsRaw (path : String) : Prop where
  pathExists : storage.pathExists path = true
  digested : ∃ digest, storage.sha256File path = .ok digest
  lines : ∀ line ∈ storage.rawLines path, line.Reads

/-- The rows of the file of an entry, if it is a raw file. -/
def rowsOf (entry : ManifestEntry) : List (String × ℤ) :=
  match entry.format with
  | .jsonlZst => (storage.rawLines entry.relativePath).filterMap RawLine.numbered
  | .parquet => []

/-- The sequences that the raw files of a manifest record for a run. -/
def recorded (entries : List ManifestEntry) (runId : String) : List ℤ :=
  ((entries.flatMap storage.rowsOf).filter fun row => row.1 = runId).map Prod.snd

/-- The ranges that the entries of one dataset and directory claim. -/
def rangesIn (entries : List ManifestEntry) (dataset directory : String) : List SequenceRange :=
  (entries.filter fun entry =>
    entry.dataset = dataset ∧ storage.parent entry.relativePath = directory).filterMap
      ManifestEntry.range

def rangesOfGroup (entries : List ManifestEntry) (group : String) : List SequenceRange :=
  (entries.filter fun entry => storage.rangeGroup entry = group).filterMap ManifestEntry.range

end Storage

/-- No two ranges share a sequence. -/
def DisjointRanges (ranges : List SequenceRange) : Prop :=
  ranges.Pairwise fun first second =>
    Disjoint (Set.Icc first.first first.last) (Set.Icc second.first second.last)

/-! ## Reading the files -/

theorem scanLines_of_reads {lines : List RawLine} (reads : ∀ line ∈ lines, line.Reads)
    (runs : List (String × List ℤ)) (rowCount : ℕ) :
    ∃ total, Storage.scanLines lines runs rowCount =
      ((lines.filterMap RawLine.numbered).foldl (fun runs row => collect row.1 row.2 runs) runs,
        .ok total) := by
  induction lines generalizing runs rowCount with
  | nil => exact ⟨rowCount, rfl⟩
  | cons line rest ih =>
    have later : ∀ line ∈ rest, line.Reads :=
      fun other member => reads other (List.mem_cons_of_mem _ member)
    have own := reads line List.mem_cons_self
    cases line with
    | blank => exact ih later runs rowCount
    | row runId sequence => exact ih later (collect runId sequence runs) (rowCount + 1)
    | unnumbered runId error => exact own.elim
    | broken error => exact own.elim

def FileResult.Sound (row : FileResult) : Prop :=
  (row.pathExists && row.checksumOk && row.readable) = true

/-- The scan of some entries: the sequences of their rows, and, unless a file failed, their ranges. -/
structure Scanned (storage : Storage) (past : List ManifestEntry) (scan : Scan) : Prop where
  runs : ∀ runId, (scan.rawSequences.lookup runId).getD [] = storage.recorded past runId
  runsDistinct : (scan.rawSequences.map Prod.fst).Nodup
  ranges : (∀ row ∈ scan.results, row.Sound) →
    ∀ group, (scan.sequenceRanges.lookup group).getD [] = storage.rangesOfGroup past group
  rangesDistinct : (scan.sequenceRanges.map Prod.fst).Nodup
  proper : ∀ group, ∀ range ∈ (scan.sequenceRanges.lookup group).getD [],
    ∃ entry ∈ past, entry.range = some range

/-- Reading a file adds its rows, and its range where nothing fails. -/
theorem verifyFile_cases {storage : Storage} {entry : ManifestEntry}
    (readable : entry.format = .jsonlZst → storage.ReadsRaw entry.relativePath) (scan : Scan) :
    ∃ result runs, runs = (storage.rowsOf entry).foldl (fun runs row => collect row.1 row.2 runs)
        scan.rawSequences ∧
      (storage.verifyFile scan entry =
          ⟨scan.results ++ [result], storage.keepRange entry scan.sequenceRanges, runs⟩ ∨
        storage.verifyFile scan entry = ⟨scan.results ++ [result], scan.sequenceRanges, runs⟩ ∧
          ¬result.Sound) := by
  unfold Storage.verifyFile Storage.rowsOf
  cases format : entry.format with
  | jsonlZst =>
    obtain ⟨present, ⟨digest, digested⟩, lines⟩ := readable format
    obtain ⟨total, scanned⟩ := scanLines_of_reads lines scan.rawSequences 0
    simp only [present, digested, scanned, Bool.not_true, Bool.false_eq_true, ↓reduceIte]
    exact ⟨_, _, rfl, .inl rfl⟩
  | parquet =>
    dsimp only [List.foldl_nil]
    split
    · exact ⟨_, _, rfl, .inr ⟨rfl, by simp [FileResult.Sound]⟩⟩
    split
    · exact ⟨_, _, rfl, .inr ⟨rfl, by simp [FileResult.Sound]⟩⟩
    split
    · exact ⟨_, _, rfl, .inr ⟨rfl, by simp [FileResult.Sound]⟩⟩
    · exact ⟨_, _, rfl, .inl rfl⟩

theorem keepRange_lookup (storage : Storage) (entry : ManifestEntry)
    (ranges : List (String × List SequenceRange)) (group : String) :
    ((storage.keepRange entry ranges).lookup group).getD [] =
      (ranges.lookup group).getD [] ++ storage.rangesOfGroup [entry] group := by
  unfold Storage.keepRange Storage.rangesOfGroup ManifestEntry.range
  cases first : entry.firstSequence with
  | none => by_cases own : storage.rangeGroup entry = group <;> simp [own, first]
  | some first' =>
    cases last : entry.lastSequence with
    | none => by_cases own : storage.rangeGroup entry = group <;> simp [own, first, last]
    | some last' =>
      dsimp only
      rw [lookup_collect]
      by_cases own : storage.rangeGroup entry = group
      · simp [own, first, last]
      · simp [own, Ne.symm own]

theorem keepRange_nodup (storage : Storage) (entry : ManifestEntry)
    {ranges : List (String × List SequenceRange)} (distinct : (ranges.map Prod.fst).Nodup) :
    ((storage.keepRange entry ranges).map Prod.fst).Nodup := by
  unfold Storage.keepRange
  split
  · exact nodup_collect distinct
  · exact distinct

theorem Storage.rangesOfGroup_append (storage : Storage) (past later : List ManifestEntry)
    (group : String) : storage.rangesOfGroup (past ++ later) group =
      storage.rangesOfGroup past group ++ storage.rangesOfGroup later group := by
  simp [Storage.rangesOfGroup]

theorem Storage.mem_rangesOfGroup {storage : Storage} {entries : List ManifestEntry}
    {group : String} {range : SequenceRange} (member : range ∈ storage.rangesOfGroup entries group) :
    ∃ entry ∈ entries, entry.range = some range := by
  obtain ⟨entry, inGroup, same⟩ := List.mem_filterMap.mp member
  exact ⟨entry, List.mem_of_mem_filter inGroup, same⟩

variable {storage : Storage} {entries : List ManifestEntry}

theorem Scanned.verifyFile {past : List ManifestEntry} {scan : Scan} {entry : ManifestEntry}
    (scanned : Scanned storage past scan)
    (readable : entry.format = .jsonlZst → storage.ReadsRaw entry.relativePath) :
    Scanned storage (past ++ [entry]) (storage.verifyFile scan entry) := by
  obtain ⟨result, runs, same, cases⟩ := verifyFile_cases readable scan
  have rows (runId : String) :
      (runs.lookup runId).getD [] = storage.recorded (past ++ [entry]) runId := by
    rw [same, lookup_foldl_collect, scanned.runs]
    simp [Storage.recorded]
  have distinct : (runs.map Prod.fst).Nodup := by
    rw [same]
    exact nodup_foldl_collect _ scanned.runsDistinct
  have earlier (group : String) : ∀ range ∈ (scan.sequenceRanges.lookup group).getD [],
      ∃ other ∈ past ++ [entry], other.range = some range := by
    intro range member
    obtain ⟨other, inPast, own⟩ := scanned.proper group range member
    exact ⟨other, List.mem_append_left _ inPast, own⟩
  rcases cases with closed | ⟨failed, unsound⟩
  · rw [closed]
    refine ⟨rows, distinct, fun sound group => ?_, keepRange_nodup storage entry
      scanned.rangesDistinct, fun group range member => ?_⟩
    · rw [keepRange_lookup, scanned.ranges fun row inResults => sound row (by simp [inResults]),
        Storage.rangesOfGroup_append]
    · rw [keepRange_lookup] at member
      rcases List.mem_append.mp member with inPast | inLast
      · exact earlier group range inPast
      · obtain ⟨other, inLast, own⟩ := Storage.mem_rangesOfGroup inLast
        exact ⟨other, List.mem_append_right _ inLast, own⟩
  · rw [failed]
    refine ⟨rows, distinct, fun sound => absurd (sound result (by simp)) unsound,
      scanned.rangesDistinct, earlier⟩

/-- Reading all files of a manifest. -/
theorem scanned_all (readable : ∀ entry ∈ entries, entry.format = .jsonlZst →
    storage.ReadsRaw entry.relativePath) :
    Scanned storage entries (entries.foldl storage.verifyFile .init) := by
  induction entries using List.reverseRecOn with
  | nil =>
    refine ⟨fun _ => rfl, List.nodup_nil, fun _ _ => rfl, List.nodup_nil, fun group range member => ?_⟩
    cases member
  | append_singleton past entry ih =>
    rw [List.foldl_append, List.foldl_cons, List.foldl_nil]
    refine Scanned.verifyFile (ih fun other member => ?_) (readable entry (by simp))
    exact readable other (List.mem_append_left _ member)

/-! ## Comparing neighbours -/

theorem sorted_sequences (values : List ℤ) : (sortByKey id values).Pairwise (· ≤ ·) :=
  sortByKey_inOrder id values

theorem sorted_ranges (ranges : List SequenceRange) :
    (sortByKey SequenceRange.key ranges).Pairwise fun first second => first.first ≤ second.first := by
  refine List.Pairwise.imp ?_ (sortByKey_inOrder SequenceRange.key ranges)
  exact fun {first second} inOrder => Prod.Lex.monotone_fst _ _ inOrder

theorem DisjointRanges.perm {ranges other : List SequenceRange} (same : ranges.Perm other) :
    DisjointRanges ranges ↔ DisjointRanges other :=
  same.pairwise_iff fun disjoint => disjoint.symm

/-- No neighbours of a group meet exactly when no two ranges do. -/
theorem overlapsOf_eq_nil_iff {group : String} {ranges : List SequenceRange}
    (proper : ∀ range ∈ ranges, range.first ≤ range.last) :
    overlapsOf (group, ranges) = [] ↔ DisjointRanges ranges := by
  have apart := @adjacent_apart_iff_disjoint SequenceRange ℤ _ SequenceRange.first
    SequenceRange.last (sortByKey SequenceRange.key ranges)
    (fun range member => proper range (mem_sortByKey.mp member)) (sorted_ranges ranges)
  rw [← DisjointRanges.perm (sortByKey_perm SequenceRange.key ranges), DisjointRanges, ← apart]
  unfold overlapsOf
  rw [List.map_eq_nil_iff, List.filter_eq_nil_iff]
  simp only [decide_eq_true_eq, not_le]

theorem duplicatesOf_eq_nil_iff {runId : String} {values : List ℤ} :
    duplicatesOf (runId, values) = [] ↔ values.Nodup := by
  rw [← (sortByKey_perm id values).nodup_iff, ← adjacent_ne_iff_nodup (sorted_sequences values)]
  unfold duplicatesOf
  rw [List.map_eq_nil_iff, List.filter_eq_nil_iff]
  simp only [decide_eq_true_eq, ne_eq]

/-- A sequence the values miss between the first and the last of them. -/
def Missing (values : List ℤ) (sequence : ℤ) : Prop :=
  sequence ∉ values ∧ (∃ first ∈ values, first < sequence) ∧ ∃ last ∈ values, sequence < last

/-- The gaps of a run hold exactly the sequences it misses. -/
theorem mem_gapsOf_iff {runId : String} {values : List ℤ} {sequence : ℤ} :
    (∃ gap ∈ gapsOf (runId, values), gap.firstMissingSequence ≤ sequence ∧
      sequence ≤ gap.lastMissingSequence) ↔ Missing values sequence := by
  have between := @exists_adjacent_between_iff ℤ _ (sortByKey id values) (sorted_sequences values)
    sequence
  simp only [mem_sortByKey] at between
  rw [Missing, ← between]
  unfold gapsOf
  constructor
  · rintro ⟨_, member, lower, upper⟩
    obtain ⟨pair, inPairs, rfl⟩ := List.mem_map.mp member
    dsimp only at lower upper
    exact ⟨pair, List.mem_of_mem_filter inPairs, by omega, by omega⟩
  · rintro ⟨pair, inPairs, lower, upper⟩
    refine ⟨_, List.mem_map_of_mem (List.mem_filter.mpr ⟨inPairs, ?_⟩), ?_, ?_⟩
    · simp only [Bool.and_eq_true, decide_eq_true_eq]
      omega
    · exact lower
    · change sequence ≤ pair.2 - 1
      omega

theorem gapsOf_proper {run : String × List ℤ} {gap : SequenceGap} (member : gap ∈ gapsOf run) :
    gap.runId = run.1 ∧ gap.firstMissingSequence ≤ gap.lastMissingSequence := by
  obtain ⟨pair, inPairs, rfl⟩ := List.mem_map.mp member
  have apart := (List.mem_filter.mp inPairs).2
  simp only [Bool.and_eq_true, decide_eq_true_eq] at apart
  exact ⟨rfl, by dsimp only; omega⟩

theorem gapsOf_eq_nil_iff {runId : String} {values : List ℤ} :
    gapsOf (runId, values) = [] ↔ {sequence | sequence ∈ values}.OrdConnected := by
  rw [ordConnected_iff, List.eq_nil_iff_forall_not_mem]
  constructor
  · intro none sequence missing
    obtain ⟨gap, member, _⟩ := mem_gapsOf_iff.mpr missing
    exact none gap member
  · intro complete gap member
    have proper := (gapsOf_proper member).2
    exact complete gap.firstMissingSequence (mem_gapsOf_iff.mp ⟨gap, member, le_rfl, proper⟩)

/-! ## The groups of the report -/

/-- The ranges of a dataset and directory are all in one group. -/
theorem Storage.rangesIn_sublist (storage : Storage) (entries : List ManifestEntry)
    (dataset directory : String) :
    (storage.rangesIn entries dataset directory).Sublist
      (storage.rangesOfGroup entries s!"{dataset}:{directory}") := by
  refine List.Sublist.filterMap _ (List.monotone_filter_right entries fun entry inDirectory => ?_)
  simp only [decide_eq_true_eq] at inDirectory ⊢
  rw [Storage.rangeGroup, inDirectory.1, inDirectory.2]

variable {scan : Scan}

/-- No file failed and no neighbours meet exactly when no two ranges of a group do. -/
theorem overlaps_eq_nil_iff (scanned : Scanned storage entries scan)
    (proper : ∀ entry ∈ entries, ∀ range ∈ entry.range, range.first ≤ range.last)
    (sound : ∀ row ∈ scan.results, row.Sound) :
    scan.sequenceRanges.flatMap overlapsOf = [] ↔
      ∀ group, DisjointRanges (storage.rangesOfGroup entries group) := by
  have groups := @forall_group_iff _ _ _ scan.sequenceRanges
    (fun group ranges => overlapsOf (group, ranges) = []) scanned.rangesDistinct fun _ => rfl
  rw [List.flatMap_eq_nil_iff, groups]
  refine forall_congr' fun group => ?_
  rw [overlapsOf_eq_nil_iff, scanned.ranges sound]
  intro range member
  obtain ⟨entry, inEntries, own⟩ := scanned.proper group range member
  exact proper entry inEntries range own

theorem duplicates_eq_nil_iff (scanned : Scanned storage entries scan) :
    scan.rawSequences.flatMap duplicatesOf = [] ↔
      ∀ runId, (storage.recorded entries runId).Nodup := by
  have runs := @forall_group_iff _ _ _ scan.rawSequences
    (fun runId values => duplicatesOf (runId, values) = []) scanned.runsDistinct fun _ => rfl
  rw [List.flatMap_eq_nil_iff, runs]
  exact forall_congr' fun runId => by rw [duplicatesOf_eq_nil_iff, scanned.runs]

theorem gaps_eq_nil_iff (scanned : Scanned storage entries scan) :
    scan.rawSequences.flatMap gapsOf = [] ↔
      ∀ runId, {sequence | sequence ∈ storage.recorded entries runId}.OrdConnected := by
  have runs := @forall_group_iff _ _ _ scan.rawSequences
    (fun runId values => gapsOf (runId, values) = []) scanned.runsDistinct fun _ => rfl
  rw [List.flatMap_eq_nil_iff, runs]
  exact forall_congr' fun runId => by rw [gapsOf_eq_nil_iff, scanned.runs]

/-- The gaps reported for a run hold exactly the sequences missing from its records. -/
theorem mem_gaps_iff (scanned : Scanned storage entries scan) {runId : String} {sequence : ℤ} :
    (∃ gap ∈ scan.rawSequences.flatMap gapsOf, gap.runId = runId ∧
      gap.firstMissingSequence ≤ sequence ∧ sequence ≤ gap.lastMissingSequence) ↔
        Missing (storage.recorded entries runId) sequence := by
  have runs := @exists_group_iff _ _ _ scan.rawSequences
    (fun own values => ∃ gap ∈ gapsOf (own, values), gap.runId = runId ∧
      gap.firstMissingSequence ≤ sequence ∧ sequence ≤ gap.lastMissingSequence)
    scanned.runsDistinct fun _ none => by simp [gapsOf, sortByKey] at none
  have flat : (∃ gap ∈ scan.rawSequences.flatMap gapsOf, gap.runId = runId ∧
      gap.firstMissingSequence ≤ sequence ∧ sequence ≤ gap.lastMissingSequence) ↔
        ∃ run ∈ scan.rawSequences, ∃ gap ∈ gapsOf (run.1, run.2), gap.runId = runId ∧
          gap.firstMissingSequence ≤ sequence ∧ sequence ≤ gap.lastMissingSequence := by
    simp only [List.mem_flatMap]
    tauto
  rw [flat, runs, ← scanned.runs runId, ← @mem_gapsOf_iff runId]
  constructor
  · rintro ⟨own, gap, member, same, within⟩
    obtain rfl : runId = own := same.symm.trans (gapsOf_proper member).1
    exact ⟨gap, member, within⟩
  · rintro ⟨gap, member, within⟩
    exact ⟨runId, gap, member, (gapsOf_proper member).1, within⟩

/-! ## The verdict -/

theorem verify_ok_iff {verifiedUtcNs : ℤ} {scan : Scan}
    (scanned : entries.foldl storage.verifyFile .init = scan) :
    (verify storage entries verifiedUtcNs).ok = true ↔
      (∀ row ∈ scan.results, row.Sound) ∧ scan.sequenceRanges.flatMap overlapsOf = [] ∧
        scan.rawSequences.flatMap duplicatesOf = [] ∧
          (storage.partialFiles = [] → scan.rawSequences.flatMap gapsOf = []) := by
  subst scanned
  simp only [verify, Bool.and_eq_true, List.all_eq_true, List.isEmpty_iff, Bool.or_eq_true,
    Bool.not_eq_true', List.isEmpty_eq_false_iff, and_assoc, FileResult.Sound]
  tauto

/-- What a report in order promises: the ranges of a dataset and directory are disjoint, no run has a
sequence twice, and no run leaves a hole once nothing is being written. -/
structure InOrder (storage : Storage) (entries : List ManifestEntry) : Prop where
  disjoint : ∀ dataset directory, DisjointRanges (storage.rangesIn entries dataset directory)
  distinct : ∀ runId, (storage.recorded entries runId).Nodup
  contiguous : storage.partialFiles = [] →
    ∀ runId, {sequence | sequence ∈ storage.recorded entries runId}.OrdConnected

theorem inOrder_of_ok {verifiedUtcNs : ℤ}
    (proper : ∀ entry ∈ entries, ∀ range ∈ entry.range, range.first ≤ range.last)
    (readable : ∀ entry ∈ entries, entry.format = .jsonlZst →
      storage.ReadsRaw entry.relativePath)
    (ok : (verify storage entries verifiedUtcNs).ok = true) : InOrder storage entries := by
  have scanned := scanned_all readable
  obtain ⟨sound, apart, single, complete⟩ := (verify_ok_iff rfl).mp ok
  have groups := (overlaps_eq_nil_iff scanned proper sound).mp apart
  refine ⟨fun dataset directory => ?_, (duplicates_eq_nil_iff scanned).mp single,
    fun closed => (gaps_eq_nil_iff scanned).mp (complete closed)⟩
  exact (groups _).sublist (storage.rangesIn_sublist entries dataset directory)

/-- The verification is sound: a report in order says that the ranges and the sequences are, and any
overlap, duplicate or hole makes it fail. The gaps it reports are the sequences missing from the runs. -/
theorem verify_sound (storage : Storage) (entries : List ManifestEntry) (verifiedUtcNs : ℤ)
    (proper : ∀ entry ∈ entries, ∀ first ∈ entry.firstSequence, ∀ last ∈ entry.lastSequence,
      first ≤ last)
    (readable : ∀ entry ∈ entries, entry.format = .jsonlZst →
      storage.ReadsRaw entry.relativePath) :
    let report := verify storage entries verifiedUtcNs
    (report.ok = true → InOrder storage entries) ∧
      ((∃ dataset directory, ¬DisjointRanges (storage.rangesIn entries dataset directory)) →
        report.ok = false) ∧
      ((∃ runId, ¬(storage.recorded entries runId).Nodup) → report.ok = false) ∧
      (storage.partialFiles = [] →
        (∃ runId, ¬{sequence | sequence ∈ storage.recorded entries runId}.OrdConnected) →
          report.ok = false) ∧
      (∀ gap ∈ report.sequenceGaps, gap.firstMissingSequence ≤ gap.lastMissingSequence) ∧
      ∀ runId sequence, (∃ gap ∈ report.sequenceGaps, gap.runId = runId ∧
        gap.firstMissingSequence ≤ sequence ∧ sequence ≤ gap.lastMissingSequence) ↔
          Missing (storage.recorded entries runId) sequence := by
  intro report
  have inOrder : report.ok = true → InOrder storage entries := by
    refine inOrder_of_ok (fun entry member range own => ?_) readable
    unfold ManifestEntry.range at own
    split at own
    case h_1 first last hasFirst hasLast =>
      obtain rfl := Option.some.inj own
      exact proper entry member first hasFirst last hasLast
    case h_2 => cases own
  have fails (broken : ¬InOrder storage entries) : report.ok = false :=
    Bool.eq_false_iff.mpr fun ok => broken (inOrder ok)
  refine ⟨inOrder, ?_, ?_, ?_, fun gap reported => ?_, fun runId sequence => ?_⟩
  · rintro ⟨dataset, directory, meet⟩
    exact fails fun sound => meet (sound.disjoint dataset directory)
  · rintro ⟨runId, twice⟩
    exact fails fun sound => twice (sound.distinct runId)
  · rintro closed ⟨runId, hole⟩
    exact fails fun sound => hole (sound.contiguous closed runId)
  · obtain ⟨run, -, member⟩ := List.mem_flatMap.mp reported
    exact (gapsOf_proper member).2
  · exact mem_gaps_iff (scanned_all readable)

/-- Two raw files of one run, the second of which starts after a hole. -/
def holedStorage : Storage where
  fullPath := id
  parent := fun _ => "raw"
  pathExists := fun _ => true
  sha256File := fun path => .ok path
  parquetFile := fun _ => .error "ArrowInvalid"
  rawLines := fun path =>
    if path = "raw/a" then [.row "run" 1, .row "run" 2] else [.blank, .row "run" 5]
  schemas := []
  partialFiles := []

def holedEntries : List ManifestEntry :=
  [⟨"a", "raw/a", "raw", 2, some 1, some 2, "raw/a", .jsonlZst⟩,
    ⟨"b", "raw/b", "raw", 1, some 5, some 5, "raw/b", .jsonlZst⟩]

theorem verify_sound_holed :
    let report := verify holedStorage holedEntries 7
    (report.ok = true → InOrder holedStorage holedEntries) ∧
      (∀ gap ∈ report.sequenceGaps, gap.firstMissingSequence ≤ gap.lastMissingSequence) ∧
      (verify holedStorage holedEntries 7).sequenceGaps = [⟨"run", 3, 4⟩] ∧
      ∀ sequence, (∃ gap ∈ report.sequenceGaps, gap.runId = "run" ∧
        gap.firstMissingSequence ≤ sequence ∧ sequence ≤ gap.lastMissingSequence) ↔
          Missing [1, 2, 5] sequence := by
  have readable : ∀ entry ∈ holedEntries, entry.format = .jsonlZst →
      holedStorage.ReadsRaw entry.relativePath := by
    intro entry member _
    refine ⟨rfl, ⟨entry.relativePath, rfl⟩, fun line inFile => ?_⟩
    dsimp only [holedStorage] at inFile
    split at inFile <;> simp at inFile <;> rcases inFile with rfl | rfl <;> trivial
  have sound := verify_sound holedStorage holedEntries 7 (by decide) readable
  exact ⟨sound.1, sound.2.2.2.2.1, by decide +kernel, sound.2.2.2.2.2 "run"⟩

end ManifestStore

end PolymarketBt
