import PolymarketBt.Proofs.Normalizer

/-! # Normalization in batches

Every complete schedule of runs cuts the files, in their closing order, into batches that are read
forwards or backwards. A batch deduplicates its own trades only and starts without remembered tick
sizes, so the rows of all runs are the same for every schedule exactly when no deduplication key
crosses two files and no snapshot leans on a tick size that an earlier file of a batch can change.
-/

namespace PolymarketBt

open StickyWord StableSort

namespace Normalizer

variable (normalizer : Normalizer)

/-! ## What independence demands -/

/-- The runs together publish the same rows. -/
structure SameRows (first second : List NormalizedRows) : Prop where
  trades : ∀ trade, (∃ rows ∈ first, trade ∈ rows.trades) ↔ ∃ rows ∈ second, trade ∈ rows.trades
  snapshots : ∀ snapshot, (∃ rows ∈ first, snapshot ∈ rows.snapshots) ↔
    ∃ rows ∈ second, snapshot ∈ rows.snapshots
  updates : ∀ update, (∃ rows ∈ first, update ∈ rows.updates) ↔
    ∃ rows ∈ second, update ∈ rows.updates

/-- Any two schedules that process all files publish the same rows. -/
def BatchIndependent (files : List FinalizedFile) : Prop :=
  ∀ schedule other runs otherRuns, normalizer.normalize schedule files = .ok (runs, []) →
    normalizer.normalize other files = .ok (otherRuns, []) → SameRows runs otherRuns

/-- The manifest lists a file once, and a file numbers its lines. -/
structure Archived (files : List FinalizedFile) : Prop where
  paths : (files.map FinalizedFile.relativePath).Nodup
  fileIds : (files.map FinalizedFile.fileId).Nodup
  lines : ∀ file ∈ files, (file.envelopes.map Prod.snd).Nodup

/-- The files in their closing order. -/
def chronological (files : List FinalizedFile) : List FinalizedFile :=
  sortByKey (fun file : FinalizedFile => toLex (file.closedUtcNs, file.relativePath)) files

/-- The last tick size that the files state of a token, if any, is that of its market. -/
def EndsAtMarketTick (files : List FinalizedFile) (tokenId : String) : Prop :=
  (lastStated tokenId (files.flatMap normalizer.fileWords)).getD
    (normalizer.parser.marketTick tokenId) = normalizer.parser.marketTick tokenId

/-- No deduplication key occurs in two files, and where a file reads a snapshot under a tick size
that it has not stated itself, neither the files before it nor the files after it, read backwards,
end at another tick size than that of the market. -/
structure Separable (files : List FinalizedFile) : Prop where
  trades : ∀ file ∈ files, ∀ other ∈ files, ∀ trade ∈ normalizer.fileTrades file,
    ∀ again ∈ normalizer.fileTrades other,
      tradeDeduplicationKey trade = tradeDeduplicationKey again → file = other
  ticks : ∀ before file after tokenId row, chronological files = before ++ file :: after →
    LeansOn (normalizer.fileWords file) tokenId row →
      normalizer.EndsAtMarketTick before tokenId ∧
        normalizer.EndsAtMarketTick after.reverse tokenId

variable {normalizer} {files batch rest : List FinalizedFile}

/-! ## The batches of a schedule -/

theorem chronological_perm : (chronological files).Perm files := sortByKey_perm _ files

theorem order_eq (options : RunOptions) (paths : (files.map FinalizedFile.relativePath).Nodup) :
    options.order files = chronological files ∨
      options.order files = (chronological files).reverse := by
  unfold RunOptions.order
  split
  · refine .inr (sortByKey_toDual (List.Nodup.of_map (fun key => (ofLex key).2) ?_))
    rw [List.map_map]
    exact paths
  · exact .inl rfl

theorem select_eq {options : RunOptions} (selected : options.select files = .ok batch) :
    batch <+: options.order files := by
  unfold RunOptions.select at selected
  split at selected
  · cases selected
    exact List.prefix_refl _
  · split at selected
    · cases selected
    · cases selected
      exact List.take_prefix _ _

/-- Without the files of a batch the rest is left. -/
theorem filter_batch (paths : ((batch ++ rest).map FinalizedFile.relativePath).Nodup) :
    (batch ++ rest).filter
      (fun file => file.relativePath ∉ batch.map FinalizedFile.relativePath) = rest := by
  rw [List.map_append, List.nodup_append] at paths
  have gone : batch.filter
      (fun file => file.relativePath ∉ batch.map FinalizedFile.relativePath) = [] :=
    List.filter_eq_nil_iff.mpr fun file member => by simpa using ⟨file, member, rfl⟩
  have kept : rest.filter
      (fun file => file.relativePath ∉ batch.map FinalizedFile.relativePath) = rest := by
    refine List.filter_eq_self.mpr fun file member => decide_eq_true fun also => ?_
    exact paths.2.2 _ also _ (List.mem_map_of_mem member) rfl
  rw [List.filter_append, gone, kept]
  rfl

/-- After a run the pending files are those of the order behind its batch. -/
theorem pending_after {options : RunOptions}
    (paths : (files.map FinalizedFile.relativePath).Nodup)
    (selected : options.select files = .ok batch) :
    (batch <:+: chronological files ∨ batch <:+: (chronological files).reverse) ∧
      chronological (files.filter fun file =>
        file.relativePath ∉ batch.map FinalizedFile.relativePath) <:+: chronological files ∧
      (batch ++ files.filter fun file =>
        file.relativePath ∉ batch.map FinalizedFile.relativePath).Perm files := by
  obtain ⟨rest, split⟩ := select_eq selected
  have sorted : (chronological files).Perm files := chronological_perm
  have left : chronological (files.filter fun file =>
      file.relativePath ∉ batch.map FinalizedFile.relativePath) =
      (chronological files).filter fun file =>
        file.relativePath ∉ batch.map FinalizedFile.relativePath :=
    (sortByKey_filter _ _ files).symm
  have ordered : (batch ++ rest).Perm files := by
    rw [split]
    rcases order_eq options paths with same | same
    · exact same ▸ sorted
    · exact same ▸ (List.reverse_perm _).trans sorted
  have orderedPaths := (ordered.map FinalizedFile.relativePath).nodup_iff.mpr paths
  have others : (files.filter fun file =>
      file.relativePath ∉ batch.map FinalizedFile.relativePath).Perm rest := by
    have kept := ordered.filter fun file =>
      decide (file.relativePath ∉ batch.map FinalizedFile.relativePath)
    rw [filter_batch orderedPaths] at kept
    exact kept.symm
  refine ⟨?_, ?_, (List.Perm.append_left batch others).trans ordered⟩
  · rcases order_eq options paths with same | same
    · exact .inl ⟨[], rest, by rw [List.nil_append, split, same]⟩
    · exact .inr ⟨[], rest, by rw [List.nil_append, split, same]⟩
  · rw [left]
    rcases order_eq options paths with same | same
    · rw [← same, ← split, filter_batch orderedPaths]
      exact ⟨batch, [], by simp⟩
    · have backwards : chronological files = rest.reverse ++ batch.reverse := by
        rw [← List.reverse_append, split, same, List.reverse_reverse]
      have kept := filter_batch orderedPaths
      rw [← List.reverse_inj, ← List.filter_reverse, split, same, List.reverse_reverse] at kept
      rw [kept, backwards]
      exact ⟨[], batch.reverse, by simp⟩

/-- A schedule cuts the files into batches of neighbours, read forwards or backwards. -/
theorem normalize_batches {schedule : List RunOptions} {runs : List NormalizedRows}
    {left : List FinalizedFile} (paths : (files.map FinalizedFile.relativePath).Nodup)
    (ran : normalizer.normalize schedule files = .ok (runs, left)) :
    ∃ batches : List (List FinalizedFile), runs = batches.map normalizer.runRows ∧
      (batches.flatten ++ left).Perm files ∧
      ∀ batch ∈ batches, batch <:+: chronological files ∨ batch <:+: (chronological files).reverse := by
  induction schedule generalizing files runs with
  | nil =>
    cases ran
    exact ⟨[], rfl, List.Perm.refl _, List.forall_mem_nil _⟩
  | cons options schedule ih =>
    unfold normalize at ran
    simp only [Except.bind_eq_ok, Except.pure_eq_ok, Prod.mk.injEq] at ran
    obtain ⟨batch, selected, ⟨later, pending⟩, continued, rfl, rfl⟩ := ran
    obtain ⟨place, within, parts⟩ := pending_after paths selected
    obtain ⟨batches, rfl, perm, places⟩ :=
      ih (paths.sublist (List.filter_sublist.map FinalizedFile.relativePath)) continued
    refine ⟨batch :: batches, rfl, ?_, List.forall_mem_cons.mpr ⟨place, fun other member => ?_⟩⟩
    · rw [List.flatten_cons, List.append_assoc]
      exact (List.Perm.append_left batch perm).trans parts
    · exact (places other member).imp (·.trans within) (·.trans (List.reverse_infix.mpr within))

/-! ## The rows of a batch -/

theorem mem_runRows_trades (separable : normalizer.Separable files) (within : batch ⊆ files)
    (distinct : batch.Nodup) {trade : TradeEvent} :
    trade ∈ (normalizer.runRows batch).trades ↔
      ∃ file ∈ batch, trade ∈ KeyedList.firsts tradeDeduplicationKey (normalizer.fileTrades file) := by
  rw [runRows_eq]
  unfold deduplicateTrades
  rw [mem_sortByKey]
  exact KeyedList.mem_firsts_flatMap distinct fun file inBatch other otherInBatch =>
    separable.trades file (within inBatch) other (within otherInBatch)

theorem EndsAtMarketTick.suffix {earlier later : List FinalizedFile} {tokenId : String}
    (ends : normalizer.EndsAtMarketTick (earlier ++ later) tokenId) :
    normalizer.EndsAtMarketTick later tokenId := by
  unfold EndsAtMarketTick at ends ⊢
  rw [List.flatMap_append, lastStated_append] at ends
  cases stated : lastStated tokenId (later.flatMap normalizer.fileWords) with
  | none => rfl
  | some tick =>
    rw [stated] at ends
    exact ends

/-- Nothing that a batch has read before a file changes what the file leans on. -/
theorem ends_before (separable : normalizer.Separable files)
    (place : batch <:+: chronological files ∨ batch <:+: (chronological files).reverse)
    {before after : List FinalizedFile} {file : FinalizedFile} (split : batch = before ++ file :: after)
    {tokenId : String} {row : ℤ → NormalizedSnapshot}
    (leansOn : LeansOn (normalizer.fileWords file) tokenId row) :
    normalizer.EndsAtMarketTick before tokenId := by
  subst split
  rcases place with ⟨earlier, later, cut⟩ | ⟨earlier, later, cut⟩
  · have whole : chronological files = (earlier ++ before) ++ file :: (after ++ later) := by
      rw [← cut]
      simp
    exact (separable.ticks _ _ _ _ _ whole leansOn).1.suffix
  · have whole : chronological files =
        (after ++ later).reverse ++ file :: (earlier ++ before).reverse := by
      rw [← List.reverse_inj, ← cut]
      simp
    have ends := (separable.ticks _ _ _ _ _ whole leansOn).2
    rw [List.reverse_reverse] at ends
    exact ends.suffix

theorem mem_runRows_snapshots (separable : normalizer.Separable files)
    (place : batch <:+: chronological files ∨ batch <:+: (chronological files).reverse)
    {snapshot : NormalizedSnapshot} :
    snapshot ∈ (normalizer.runRows batch).snapshots ↔
      ∃ file ∈ batch,
        snapshot ∈ (run normalizer.parser.marketTick (normalizer.fileWords file)).2 := by
  have alone {before after : List FinalizedFile} {file : FinalizedFile}
      (split : batch = before ++ file :: after) :
      (run (run normalizer.parser.marketTick (before.flatMap normalizer.fileWords)).1
        (normalizer.fileWords file)).2 =
      (run normalizer.parser.marketTick (normalizer.fileWords file)).2 := by
    refine run_rows_congr fun tokenId row leansOn => congrArg row ?_
    rw [run_settings]
    exact ends_before separable place split leansOn
  rw [runRows_eq, mem_rows_flatMap]
  constructor
  · rintro ⟨before, file, after, split, member⟩
    rw [alone split] at member
    exact ⟨file, split ▸ by simp, member⟩
  · rintro ⟨file, inBatch, member⟩
    obtain ⟨before, after, split⟩ := List.append_of_mem inBatch
    exact ⟨before, file, after, split, by rwa [alone split]⟩

/-- What a complete schedule publishes is what the files yield one by one. -/
theorem sameRows_of_separable (archived : Archived files) (separable : normalizer.Separable files) :
    normalizer.BatchIndependent files := by
  have each {schedule : List RunOptions} {runs : List NormalizedRows}
      (ran : normalizer.normalize schedule files = .ok (runs, [])) :
      (∀ trade, (∃ rows ∈ runs, trade ∈ rows.trades) ↔ ∃ file ∈ files,
          trade ∈ KeyedList.firsts tradeDeduplicationKey (normalizer.fileTrades file)) ∧
        (∀ snapshot, (∃ rows ∈ runs, snapshot ∈ rows.snapshots) ↔ ∃ file ∈ files,
          snapshot ∈ (run normalizer.parser.marketTick (normalizer.fileWords file)).2) ∧
        ∀ update, (∃ rows ∈ runs, update ∈ rows.updates) ↔ ∃ file ∈ files,
          update ∈ normalizer.fileUpdates file := by
    obtain ⟨batches, rfl, perm, places⟩ := normalize_batches archived.paths ran
    rw [List.append_nil] at perm
    have distinct : batches.flatten.Nodup :=
      perm.nodup_iff.mpr (List.Nodup.of_map _ archived.paths)
    have member (p : FinalizedFile → Prop) :
        (∃ batch ∈ batches, ∃ file ∈ batch, p file) ↔ ∃ file ∈ files, p file := by
      simp only [← perm.mem_iff, List.mem_flatten]
      exact ⟨fun ⟨batch, inBatches, file, inBatch, holds⟩ => ⟨file, ⟨batch, inBatches, inBatch⟩, holds⟩,
        fun ⟨file, ⟨batch, inBatches, inBatch⟩, holds⟩ => ⟨batch, inBatches, file, inBatch, holds⟩⟩
    have published (p : NormalizedRows → Prop) : (∃ rows ∈ batches.map normalizer.runRows, p rows) ↔
        ∃ batch ∈ batches, p (normalizer.runRows batch) := by simp
    refine ⟨fun trade => ?_, fun snapshot => ?_, fun update => ?_⟩
    · rw [published, ← member]
      refine exists_congr fun batch => and_congr_right fun inBatches => ?_
      refine mem_runRows_trades separable (fun file inBatch => ?_)
        ((List.nodup_flatten.mp distinct).1 batch inBatches)
      exact perm.mem_iff.mp (List.mem_flatten.mpr ⟨batch, inBatches, inBatch⟩)
    · rw [published, ← member]
      exact exists_congr fun batch => and_congr_right fun inBatches =>
        mem_runRows_snapshots separable (places batch inBatches)
    · rw [published, ← member]
      refine exists_congr fun batch => and_congr_right fun inBatches => ?_
      rw [runRows_eq, List.mem_flatMap]
  intro schedule other runs otherRuns ran otherRan
  obtain ⟨trades, snapshots, updates⟩ := each ran
  obtain ⟨otherTrades, otherSnapshots, otherUpdates⟩ := each otherRan
  exact ⟨fun trade => (trades trade).trans (otherTrades trade).symm,
    fun snapshot => (snapshots snapshot).trans (otherSnapshots snapshot).symm,
    fun update => (updates update).trans (otherUpdates update).symm⟩

/-! ## Three schedules -/

/-- A run that takes all files is a complete schedule. -/
theorem normalize_whole {options : RunOptions} (selected : options.select files = .ok batch)
    (all : batch.Perm files) :
    normalizer.normalize [options] files = .ok ([normalizer.runRows batch], []) := by
  have nothing : (files.filter fun file =>
      file.relativePath ∉ batch.map FinalizedFile.relativePath) = [] :=
    List.filter_eq_nil_iff.mpr fun file member => by
      simpa using ⟨file, all.mem_iff.mpr member, rfl⟩
  unfold normalize
  rw [selected, Except.ok_bind, nothing]
  rfl

theorem normalize_forwards :
    normalizer.normalize [⟨none, false⟩] files =
      .ok ([normalizer.runRows (chronological files)], []) :=
  normalize_whole rfl chronological_perm

theorem normalize_backwards (paths : (files.map FinalizedFile.relativePath).Nodup) :
    normalizer.normalize [⟨some (files.length + 1), true⟩] files =
      .ok ([normalizer.runRows (chronological files).reverse], []) := by
  have order : (⟨some (files.length + 1), true⟩ : RunOptions).order files =
      (chronological files).reverse := by
    refine (if_pos ⟨rfl, rfl⟩).trans (sortByKey_toDual ?_)
    refine List.Nodup.of_map (fun key => (ofLex key).2) ?_
    rw [List.map_map]
    exact paths
  have length : (chronological files).reverse.length ≤ files.length + 1 := by
    rw [List.length_reverse, chronological_perm.length_eq]
    exact Nat.le_succ _
  refine normalize_whole ?_ ((List.reverse_perm _).trans chronological_perm)
  unfold RunOptions.select
  rw [order]
  dsimp only
  rw [List.take_of_length_le length]
  exact if_neg (by simp)

/-- The oldest file alone, again and again. -/
theorem normalize_singly {sorted : List FinalizedFile}
    (paths : (files.map FinalizedFile.relativePath).Nodup) (inOrder : chronological files = sorted) :
    normalizer.normalize (List.replicate sorted.length ⟨some 1, false⟩) files =
      .ok (sorted.map fun file => normalizer.runRows [file], []) := by
  induction sorted generalizing files with
  | nil =>
    have empty : files = [] :=
      List.perm_nil.mp (inOrder ▸ chronological_perm.symm)
    rw [empty]
    rfl
  | cons file sorted ih =>
    have perm : (file :: sorted).Perm files := inOrder ▸ chronological_perm
    have selected : (⟨some 1, false⟩ : RunOptions).select files = .ok [file] := by
      have order : (⟨some 1, false⟩ : RunOptions).order files = file :: sorted := inOrder
      unfold RunOptions.select
      rw [order]
      rfl
    have sortedPaths : (([file] ++ sorted).map FinalizedFile.relativePath).Nodup :=
      (perm.map FinalizedFile.relativePath).nodup_iff.mpr paths
    have rest : chronological (files.filter fun other =>
        other.relativePath ∉ [file].map FinalizedFile.relativePath) = sorted := by
      unfold chronological at inOrder ⊢
      rw [← sortByKey_filter, inOrder]
      exact filter_batch sortedPaths
    rw [List.length_cons, List.replicate_succ]
    unfold normalize
    rw [selected, Except.ok_bind,
      ih (paths.sublist (List.filter_sublist.map FinalizedFile.relativePath)) rest]
    rfl

/-! ## What independence needs -/

theorem fileId_inj (archived : Archived files) {file other : FinalizedFile} (member : file ∈ files)
    (also : other ∈ files) {line otherLine : ℕ}
    (same : rawReference file.fileId line = rawReference other.fileId otherLine) : file = other :=
  List.inj_on_of_nodup_map archived.fileIds member also (rawReference_inj same).1

theorem trades_apart (archived : Archived files) (independent : normalizer.BatchIndependent files)
    {file other : FinalizedFile} (member : file ∈ files) (also : other ∈ files)
    {trade again : TradeEvent} (inFile : trade ∈ normalizer.fileTrades file)
    (inOther : again ∈ normalizer.fileTrades other)
    (shared : tradeDeduplicationKey trade = tradeDeduplicationKey again) : file = other := by
  have same := independent _ _ _ _ (normalize_singly archived.paths rfl) normalize_forwards
  have sorted : (chronological files).Perm files := chronological_perm
  -- the first trade of the key in each file is published by the run of that file alone
  have published {source : FinalizedFile} {first : TradeEvent} (inFiles : source ∈ files)
      (kept : first ∈ KeyedList.firsts tradeDeduplicationKey (normalizer.fileTrades source)) :
      first ∈ KeyedList.firsts tradeDeduplicationKey
        ((chronological files).flatMap normalizer.fileTrades) := by
    have alone : first ∈ (normalizer.runRows [source]).trades := by
      rw [runRows_eq]
      simpa [deduplicateTrades] using kept
    obtain ⟨rows, once, inRows⟩ := (same.trades first).mp
      ⟨_, List.mem_map_of_mem (sorted.mem_iff.mpr inFiles), alone⟩
    obtain rfl := List.mem_singleton.mp once
    rw [runRows_eq] at inRows
    exact mem_sortByKey.mp inRows
  have keyed : ∃ first ∈ KeyedList.firsts tradeDeduplicationKey (normalizer.fileTrades file),
      tradeDeduplicationKey first = tradeDeduplicationKey trade := KeyedList.exists_mem_firsts inFile
  have otherKeyed : ∃ first ∈ KeyedList.firsts tradeDeduplicationKey (normalizer.fileTrades other),
      tradeDeduplicationKey first = tradeDeduplicationKey again := KeyedList.exists_mem_firsts inOther
  obtain ⟨first, kept, key⟩ := keyed
  obtain ⟨second, otherKept, otherKey⟩ := otherKeyed
  obtain rfl : first = second := KeyedList.firsts_key_inj (published member kept)
    (published also otherKept) (key.trans (shared.trans otherKey.symm))
  obtain ⟨line, named⟩ := fileTrades_reference (KeyedList.mem_of_mem_firsts kept)
  obtain ⟨otherLine, otherNamed⟩ := fileTrades_reference (KeyedList.mem_of_mem_firsts otherKept)
  exact fileId_inj archived member also (named.symm.trans otherNamed)

/-- A snapshot that is read in one run over some files is read under the tick size of its market. -/
theorem ends_of_whole (archived : Archived files) (independent : normalizer.BatchIndependent files)
    (collisionFree : Function.Injective normalizer.parser.library.uuid5) {schedule : List RunOptions}
    (ran : normalizer.normalize schedule files = .ok ([normalizer.runRows batch], []))
    {before after : List FinalizedFile} {file : FinalizedFile} (split : batch = before ++ file :: after)
    (member : file ∈ files) {tokenId : String} {row : ℤ → NormalizedSnapshot}
    (leansOn : LeansOn (normalizer.fileWords file) tokenId row) :
    normalizer.EndsAtMarketTick before tokenId := by
  have same := independent _ _ _ _ ran (normalize_singly archived.paths rfl)
  have sorted : (chronological files).Perm files := chronological_perm
  have inBatch : row ((run normalizer.parser.marketTick
      (before.flatMap normalizer.fileWords)).1 tokenId) ∈
      (run (run normalizer.parser.marketTick (before.flatMap normalizer.fileWords)).1
        (normalizer.fileWords file)).2 := leansOn.mem_rows
  have published : row ((run normalizer.parser.marketTick
      (before.flatMap normalizer.fileWords)).1 tokenId) ∈ (normalizer.runRows batch).snapshots := by
    rw [runRows_eq]
    exact mem_rows_flatMap.mpr ⟨before, file, after, split, inBatch⟩
  obtain ⟨rows, alone, inRows⟩ :=
    (same.snapshots _).mp ⟨_, List.mem_singleton_self _, published⟩
  obtain ⟨other, inSorted, rfl⟩ := List.mem_map.mp alone
  have inFiles := sorted.mem_iff.mp inSorted
  rw [runRows_eq, List.flatMap_singleton] at inRows
  obtain ⟨line, _, named⟩ :=
    (fileWords_identity collisionFree file (archived.lines file member)).2 _ inBatch
  obtain ⟨distinct, names⟩ := @fileWords_identity normalizer normalizer.parser.marketTick
    collisionFree other (archived.lines other inFiles)
  obtain ⟨otherLine, _, otherNamed⟩ := names _ inRows
  obtain rfl := fileId_inj archived member inFiles (named.symm.trans otherNamed)
  obtain ⟨snapshot, rfl⟩ := leansOn_copies leansOn
  have told := leansOn.eq_of_identity distinct inRows rfl
  have ticks := congrArg (fun read : NormalizedSnapshot => read.tickSizeScaled) told
  dsimp only at ticks
  rw [run_settings] at ticks
  exact ticks

def repeatedTrade : JsonValue :=
  .object [("event_type", .text "last_trade_price"), ("market", .text "0x0f"),
    ("asset_id", .text "17"), ("price", .text "0.48"), ("size", .text "100"), ("side", .text "BUY"),
    ("transaction_hash", .text "0xab")]

/-- The libraries as they behave on that trade. -/
def repeatedTradeNormalizer : Normalizer where
  parser := {
    library := {
      loads := fun _ => .ok repeatedTrade
      render := fun _ => ""
      repr := fun _ => "Decimal('48.00')"
      decimal := fun
        | "0.48" => some (.finite (48 / 100))
        | "100" => some (.finite 100)
        | _ => none
      looksNumeric := fun _ => false
      isoparse := fun _ => .error ⟨.valueError, "ISO string too short"⟩
      upper := fun text => text.map Char.toUpper
      uuid5 := id }
    marketForToken := fun tokenId =>
      if tokenId = "17" then
        some ⟨"0x0f", 10000, 5000000, false,
          fun tokenId => if tokenId = "17" then some "UP" else none⟩
      else none }
  marketById := fun _ => none

def repeatedTradeEnvelope (sequence : ℕ) : RawEnvelope where
  collectorVersion := "1"
  runId := "run-1"
  connectionId := "connection-1"
  sequence := sequence + 1
  sequence_pos := by omega
  source := .clobMarketWs
  stream := "market"
  receivedUtcNs := 1000 + sequence
  receivedMonotonicNs := 1000 + sequence
  payloadRaw := "\x7b\"event_type\":\"last_trade_price\",\"market\":\"0x0f\"," ++
    "\"asset_id\":\"17\",\"price\":\"0.48\",\"size\":\"100\",\"side\":\"BUY\"," ++
    "\"transaction_hash\":\"0xab\"\x7d"

def firstTradeFile : FinalizedFile := ⟨"f1", "raw/hour=00/part-1", 2000, [(repeatedTradeEnvelope 0, 1)]⟩

def secondTradeFile : FinalizedFile :=
  ⟨"f2", "raw/hour=01/part-2", 3000, [(repeatedTradeEnvelope 1, 1)]⟩

theorem tradeFiles_archived : Archived [firstTradeFile, secondTradeFile] where
  paths := by decide
  fileIds := by decide
  lines := by decide

end Normalizer

end PolymarketBt
