import PolymarketBt.Machine.Transition
import PolymarketBt.Model.ArchiveFiles

/-! # Crash recovery of the raw archive

Every line on the disk is in a partial file, in a listed file, or in the one file that a close or a
recovery is at. A crash loses track of the third kind only: recovery finds the first, and the
normalizer finds the second.
-/

namespace PolymarketBt

namespace ArchiveFiles

variable {archive : ArchiveFiles}

/-- The lines of the files that the manifest lists. -/
def listedLines (archive : ArchiveFiles) : Multiset ByteArray :=
  (archive.manifest.map fun entry => (archive.linesOf entry.path : Multiset ByteArray)).sum

/-- The lines of the partial files. -/
def partialLines (archive : ArchiveFiles) : Multiset ByteArray :=
  (archive.partials.map fun file => (file.lines : Multiset ByteArray)).sum

/-- The lines that are in neither: a close has renamed their file and not listed it, or recovery
has set their file aside and not listed its copy. -/
def inHand (archive : ArchiveFiles) : Multiset ByteArray :=
  match archive.process with
  | .serving _ (some fileId) => archive.linesOf (.part fileId)
  | .recovering _ (.setAside lines) => lines
  | .recovering _ (.copied fileId _) => archive.linesOf (.recovered fileId)
  | _ => 0

/-- Every line that reached the disk is in a listed file, exactly once. -/
structure Complete (archive : ArchiveFiles) : Prop where
  once : (archive.manifest.map ManifestEntry.path).Nodup
  lines : archive.listedLines = archive.flushed

/-- Crashes happen only when no close or recovery has lines in hand. -/
def CrashesBetweenFiles (archive : ArchiveFiles) (action : FileAction) : Prop :=
  action = .crash → archive.inHand = 0

/-! ## The invariant -/

/-- The file is in the directory, and the manifest does not list it. -/
structure Unlisted (archive : ArchiveFiles) (name : FileName) : Prop where
  stored : (archive.files name).isSome
  notListed : name ∉ archive.manifest.map ManifestEntry.path

/-- Recovery has yet to come to the partial files that are left; the writers own the partial files;
and a file that is about to be listed is not listed. -/
def ProcessFits (archive : ArchiveFiles) : Prop :=
  match archive.process with
  | .down => True
  | .recovering found stage => found.Perm archive.partialIds ∧
    ∀ fileId rowCount, stage = .copied fileId rowCount → archive.Unlisted (.recovered fileId)
  | .serving writers closing => writers.map OpenWriter.fileId = archive.partialIds ∧
    ∀ fileId, closing = some fileId → archive.Unlisted (.part fileId)

structure Accounted (archive : ArchiveFiles) : Prop where
  freshPartials : ∀ fileId ∈ archive.partialIds, fileId < archive.nextFileId
  freshFiles : ∀ name, (archive.files name).isSome → name.fileId < archive.nextFileId
  distinct : archive.partialIds.Nodup
  apart : ∀ fileId ∈ archive.partialIds, archive.files (.part fileId) = none
  stored : ∀ name ∈ archive.manifest.map ManifestEntry.path, (archive.files name).isSome
  once : (archive.manifest.map ManifestEntry.path).Nodup
  fits : archive.ProcessFits
  balance : archive.flushed = archive.listedLines + archive.partialLines + archive.inHand

theorem init_accounted : init.Accounted where
  freshPartials := by simp [init, partialIds]
  freshFiles := by simp [init]
  distinct := by simp [init, partialIds]
  apart := by simp [init, partialIds]
  stored := by simp [init]
  once := by simp [init]
  fits := trivial
  balance := rfl

/-! ## Steps -/

theorem linesOf_update {name other : FileName} {lines : List ByteArray} (distinct : other ≠ name) :
    (Function.update archive.files name (some lines) other).getD [] = archive.linesOf other := by
  rw [Function.update_of_ne distinct]
  rfl

/-- A new file below a final name changes no listed file. -/
theorem listedLines_update {name : FileName} (lines : List ByteArray)
    (notListed : name ∉ archive.manifest.map ManifestEntry.path) :
    (archive.manifest.map fun entry =>
      (((Function.update archive.files name (some lines) entry.path).getD [] : List ByteArray) :
        Multiset ByteArray)).sum = archive.listedLines := by
  unfold listedLines
  congr 1
  refine List.map_congr_left fun entry member => ?_
  have other : entry.path ≠ name := by
    rintro rfl
    exact notListed (List.mem_map_of_mem member)
  rw [linesOf_update other]

theorem isSome_update {name other : FileName} {lines : List ByteArray}
    (stored : (archive.files other).isSome) :
    (Function.update archive.files name (some lines) other).isSome := by
  by_cases own : other = name
  · rw [own, Function.update_self]
    rfl
  · rwa [Function.update_of_ne own]

theorem eq_or_isSome_of_update {name other : FileName} {lines : List ByteArray}
    (stored : (Function.update archive.files name (some lines) other).isSome) :
    other = name ∨ (archive.files other).isSome := by
  by_cases own : other = name
  · exact .inl own
  · rw [Function.update_of_ne own] at stored
    exact .inr stored

theorem Accounted.crash (accounted : archive.Accounted) (idle : archive.inHand = 0) :
    ({ archive with process := .down } : ArchiveFiles).Accounted where
  freshPartials := accounted.freshPartials
  freshFiles := accounted.freshFiles
  distinct := accounted.distinct
  apart := accounted.apart
  stored := accounted.stored
  once := accounted.once
  fits := trivial
  balance := by
    have balance := accounted.balance
    rw [idle] at balance
    exact balance

/-- The file that recovery or a close was at is listed. -/
theorem Accounted.list (accounted : archive.Accounted) {name : FileName} {rowCount : ℕ}
    {qualityStatus : String} {process : ArchiveProcess} (unlisted : archive.Unlisted name)
    (hand : archive.inHand = archive.linesOf name)
    (fits : ({ archive with
      manifest := archive.manifest ++ [⟨name, rowCount, qualityStatus⟩]
      process := process } : ArchiveFiles).ProcessFits)
    (idle : ({ archive with
      manifest := archive.manifest ++ [⟨name, rowCount, qualityStatus⟩]
      process := process } : ArchiveFiles).inHand = 0) :
    ({ archive with
      manifest := archive.manifest ++ [⟨name, rowCount, qualityStatus⟩]
      process := process } : ArchiveFiles).Accounted where
  freshPartials := accounted.freshPartials
  freshFiles := accounted.freshFiles
  distinct := accounted.distinct
  apart := accounted.apart
  stored := by
    intro other member
    rw [List.map_append, List.mem_append] at member
    rcases member with listed | own
    · exact accounted.stored other listed
    · obtain rfl := List.mem_singleton.mp own
      exact unlisted.stored
  once := by
    rw [List.map_append, List.nodup_append]
    refine ⟨accounted.once, List.nodup_singleton _, ?_⟩
    rintro other listed _ own rfl
    obtain rfl := List.mem_singleton.mp own
    exact unlisted.notListed listed
  fits := fits
  balance := by
    have listed : ({ archive with
        manifest := archive.manifest ++ [⟨name, rowCount, qualityStatus⟩]
        process := process } : ArchiveFiles).listedLines =
          archive.listedLines + (archive.linesOf name : Multiset ByteArray) := by
      unfold listedLines
      rw [List.map_append, List.sum_append]
      simp [linesOf]
    rw [idle, listed]
    have balance := accounted.balance
    rw [hand] at balance
    rw [add_zero, add_right_comm]
    exact balance

theorem Accounted.setAside (accounted : archive.Accounted) {fileId : ℕ} {found : List ℕ}
    {after : ArchiveFiles} (recovering : archive.process = .recovering (fileId :: found) .scanning)
    (stepped : archive.setAsideNext fileId found = some after) : after.Accounted := by
  unfold setAsideNext at stepped
  simp only [bind, Option.bind_eq_some_iff, pure, Option.some.injEq] at stepped
  obtain ⟨file, listed, rfl⟩ := stepped
  have fits := accounted.fits
  unfold ProcessFits at fits
  rw [recovering] at fits
  have ids : ({ archive with partials := archive.withoutPartial fileId } : ArchiveFiles).partialIds =
      archive.partialIds.filter (· ≠ fileId) := KeyedList.map_key_without
  have subset (other : ℕ) (member : other ∈ archive.partialIds.filter (· ≠ fileId)) :
      other ∈ archive.partialIds := List.mem_of_mem_filter member
  have remaining : found.Perm (archive.partialIds.filter (· ≠ fileId)) := by
    have filtered := fits.1.filter (· ≠ fileId)
    have fresh : fileId ∉ found := (List.nodup_cons.mp (fits.1.nodup_iff.mpr accounted.distinct)).1
    rw [List.filter_cons_of_neg (by simp)] at filtered
    rwa [List.filter_eq_self.mpr fun other member => by
      simpa using fun same : other = fileId => fresh (same ▸ member)] at filtered
  refine ⟨fun other member => accounted.freshPartials other (subset other (ids ▸ member)),
    accounted.freshFiles, ?_, fun other member => accounted.apart other (subset other (ids ▸ member)),
    accounted.stored, accounted.once, ⟨?_, ?_⟩, ?_⟩
  · exact ids ▸ accounted.distinct.filter _
  · exact ids ▸ remaining
  · intro other rowCount copied
    split at copied <;> cases copied
  · have split := KeyedList.sum_without (fun file : PartialFile => (file.lines : Multiset ByteArray))
      accounted.distinct listed
    have balance := accounted.balance
    unfold inHand at balance
    rw [recovering] at balance
    change archive.flushed = archive.listedLines + (archive.partials.map fun file =>
      (file.lines : Multiset ByteArray)).sum + 0 at balance
    rw [split, add_zero] at balance
    change archive.flushed = archive.listedLines +
      ((archive.withoutPartial fileId).map fun file => (file.lines : Multiset ByteArray)).sum + _
    rw [balance, add_assoc]
    congr 1
    unfold inHand
    by_cases empty : file.lines = []
    · simp [empty, withoutPartial]
    · simp only [empty, ↓reduceIte]
      exact add_comm _ _

theorem Accounted.copyLines (accounted : archive.Accounted) {found : List ℕ}
    {lines : List ByteArray} (recovering : archive.process = .recovering found (.setAside lines)) :
    ({ archive with
      files := Function.update archive.files (.recovered archive.nextFileId) (some lines)
      nextFileId := archive.nextFileId + 1
      process := .recovering found (.copied archive.nextFileId lines.length) } :
        ArchiveFiles).Accounted := by
  have fits := accounted.fits
  unfold ProcessFits at fits
  rw [recovering] at fits
  have notListed : FileName.recovered archive.nextFileId ∉
      archive.manifest.map ManifestEntry.path := fun listed =>
    (lt_irrefl _) (accounted.freshFiles _ (accounted.stored _ listed))
  refine ⟨fun other member => (accounted.freshPartials other member).trans (Nat.lt_succ_self _),
    fun name stored => ?_, accounted.distinct, fun other member => ?_,
    fun name listed => isSome_update (accounted.stored name listed), accounted.once, ⟨fits.1, ?_⟩, ?_⟩
  · rcases eq_or_isSome_of_update stored with rfl | old
    · exact Nat.lt_succ_self _
    · exact (accounted.freshFiles name old).trans (Nat.lt_succ_self _)
  · have different : FileName.part other ≠ .recovered archive.nextFileId := nofun
    exact (Function.update_of_ne different (some lines) archive.files).trans
      (accounted.apart other member)
  · intro fileId rowCount copied
    cases copied
    exact ⟨by simp, notListed⟩
  · have balance := accounted.balance
    unfold inHand at balance
    rw [recovering] at balance
    have listed := listedLines_update lines notListed
    change archive.flushed = (archive.manifest.map fun entry =>
      (((Function.update archive.files (.recovered archive.nextFileId) (some lines)
        entry.path).getD [] : List ByteArray) : Multiset ByteArray)).sum + archive.partialLines +
      (((Function.update archive.files (.recovered archive.nextFileId) (some lines)
        (.recovered archive.nextFileId)).getD [] : List ByteArray) : Multiset ByteArray)
    rw [listed, Function.update_self]
    exact balance

theorem Accounted.openPartial (accounted : archive.Accounted) {writers : List OpenWriter}
    (serving : archive.process = .serving writers none) :
    ({ archive with
      partials := archive.partials ++ [⟨archive.nextFileId, [], .empty⟩]
      nextFileId := archive.nextFileId + 1
      process := .serving (writers ++ [⟨archive.nextFileId, []⟩]) none } :
        ArchiveFiles).Accounted := by
  have fits := accounted.fits
  unfold ProcessFits at fits
  rw [serving] at fits
  have ids : ({ archive with
      partials := archive.partials ++ [⟨archive.nextFileId, [], .empty⟩] } : ArchiveFiles).partialIds =
      archive.partialIds ++ [archive.nextFileId] := by
    unfold partialIds
    rw [List.map_append]
    rfl
  have unused : archive.nextFileId ∉ archive.partialIds := fun member =>
    lt_irrefl _ (accounted.freshPartials _ member)
  refine ⟨fun other member => ?_, fun name stored =>
      (accounted.freshFiles name stored).trans (Nat.lt_succ_self _), ?_, fun other member => ?_,
    accounted.stored, accounted.once, ⟨?_, fun _ closing => nomatch closing⟩, ?_⟩
  · rcases List.mem_append.mp (ids ▸ member) with old | own
    · exact (accounted.freshPartials other old).trans (Nat.lt_succ_self _)
    · obtain rfl := List.mem_singleton.mp own
      exact Nat.lt_succ_self _
  · refine ids ▸ List.nodup_append.mpr ⟨accounted.distinct, List.nodup_singleton _, ?_⟩
    rintro other old _ own rfl
    obtain rfl := List.mem_singleton.mp own
    exact unused old
  · rcases List.mem_append.mp (ids ▸ member) with old | own
    · exact accounted.apart other old
    · obtain rfl := List.mem_singleton.mp own
      by_contra used
      exact lt_irrefl _ (accounted.freshFiles _ (Option.isSome_iff_ne_none.mpr used))
  · exact ids ▸ by rw [List.map_append, fits.1]; rfl
  · have balance := accounted.balance
    unfold inHand at balance
    rw [serving] at balance
    have more : ({ archive with
        partials := archive.partials ++ [⟨archive.nextFileId, [], .empty⟩] } :
          ArchiveFiles).partialLines = archive.partialLines := by
      unfold partialLines
      rw [List.map_append, List.sum_append]
      exact add_zero _
    change archive.flushed = archive.listedLines + ({ archive with
      partials := archive.partials ++ [⟨archive.nextFileId, [], .empty⟩] } :
        ArchiveFiles).partialLines + 0
    rw [more]
    exact balance

/-- A writer hands the oldest lines of its buffer to the disk. -/
theorem Accounted.emit (accounted : archive.Accounted) {writers : List OpenWriter} {fileId : ℕ}
    {writer : OpenWriter} (serving : archive.process = .serving writers none)
    (found : writers.find? (fun writer => writer.fileId = fileId) = some writer)
    (lines rest : List ByteArray) (tail : ByteArray) :
    ({ archive with
      partials := archive.extend fileId lines tail
      process := .serving (setBuffer writers fileId rest) none
      flushed := archive.flushed + (lines : List ByteArray) } : ArchiveFiles).Accounted := by
  have fits := accounted.fits
  unfold ProcessFits at fits
  rw [serving] at fits
  have ids : ({ archive with partials := archive.extend fileId lines tail } :
      ArchiveFiles).partialIds = archive.partialIds :=
    KeyedList.map_key_replace fun _ same => same
  have writerIds : (setBuffer writers fileId rest).map OpenWriter.fileId =
      writers.map OpenWriter.fileId := KeyedList.map_key_replace fun _ same => same
  have member : fileId ∈ archive.partialIds := by
    obtain ⟨own, same⟩ := KeyedList.find_spec found
    rw [← fits.1, ← same]
    exact List.mem_map_of_mem own
  obtain ⟨file, listed⟩ := KeyedList.exists_find member
  refine ⟨fun other own => accounted.freshPartials other (ids ▸ own), accounted.freshFiles,
    ids ▸ accounted.distinct, fun other own => accounted.apart other (ids ▸ own), accounted.stored,
    accounted.once, ⟨(writerIds.trans fits.1).trans ids.symm, fun _ closing => nomatch closing⟩, ?_⟩
  have grown : ({ archive with partials := archive.extend fileId lines tail } :
      ArchiveFiles).partialLines = archive.partialLines + (lines : Multiset ByteArray) :=
    KeyedList.sum_replace (fun file : PartialFile => (file.lines : Multiset ByteArray))
      accounted.distinct listed (Multiset.coe_add _ _).symm
  have balance := accounted.balance
  unfold inHand at balance
  rw [serving] at balance
  change archive.flushed + (lines : Multiset ByteArray) = archive.listedLines +
    ({ archive with partials := archive.extend fileId lines tail } : ArchiveFiles).partialLines + 0
  rw [grown, balance]
  simp [add_assoc]

theorem Accounted.rename (accounted : archive.Accounted) {writers : List OpenWriter} {fileId : ℕ}
    {file : PartialFile} (serving : archive.process = .serving writers none)
    (listed : archive.partials.find? (fun file => file.fileId = fileId) = some file) :
    ({ archive with
      partials := archive.withoutPartial fileId
      files := Function.update archive.files (.part fileId) (some file.lines)
      process := .serving (KeyedList.without OpenWriter.fileId fileId writers) (some fileId) } :
        ArchiveFiles).Accounted := by
  have fits := accounted.fits
  unfold ProcessFits at fits
  rw [serving] at fits
  have ids : ({ archive with partials := archive.withoutPartial fileId } : ArchiveFiles).partialIds =
      archive.partialIds.filter (· ≠ fileId) := KeyedList.map_key_without
  have writerIds : (KeyedList.without OpenWriter.fileId fileId writers).map OpenWriter.fileId =
      (writers.map OpenWriter.fileId).filter (· ≠ fileId) := KeyedList.map_key_without
  have subset (other : ℕ) (member : other ∈ archive.partialIds.filter (· ≠ fileId)) :
      other ∈ archive.partialIds ∧ other ≠ fileId :=
    ⟨List.mem_of_mem_filter member, of_decide_eq_true (List.mem_filter.mp member).2⟩
  have own : fileId ∈ archive.partialIds := by
    obtain ⟨member, same⟩ := KeyedList.find_spec listed
    rw [← same]
    exact List.mem_map_of_mem member
  have notListed : FileName.part fileId ∉ archive.manifest.map ManifestEntry.path := fun known => by
    have stored := accounted.stored _ known
    rw [accounted.apart fileId own] at stored
    cases stored
  refine ⟨fun other member => accounted.freshPartials other (subset other (ids ▸ member)).1,
    fun name stored => ?_, ids ▸ accounted.distinct.filter _, fun other member => ?_,
    fun name known => isSome_update (accounted.stored name known), accounted.once, ⟨?_, ?_⟩, ?_⟩
  · rcases eq_or_isSome_of_update stored with rfl | old
    · exact accounted.freshPartials fileId own
    · exact accounted.freshFiles name old
  · obtain ⟨old, distinct⟩ := subset other (ids ▸ member)
    have different : FileName.part other ≠ .part fileId := fun same =>
      distinct (congrArg FileName.fileId same)
    exact (Function.update_of_ne different (some file.lines) archive.files).trans
      (accounted.apart other old)
  · exact (writerIds.trans (congrArg _ fits.1)).trans ids.symm
  · rintro _ ⟨⟩
    exact ⟨by simp, notListed⟩
  · have split := KeyedList.sum_without (fun file : PartialFile => (file.lines : Multiset ByteArray))
      accounted.distinct listed
    have balance := accounted.balance
    unfold inHand at balance
    rw [serving] at balance
    change archive.flushed = archive.listedLines + (archive.partials.map fun file =>
      (file.lines : Multiset ByteArray)).sum + 0 at balance
    have unchanged := listedLines_update file.lines notListed
    change archive.flushed = (archive.manifest.map fun entry =>
      (((Function.update archive.files (.part fileId) (some file.lines)
        entry.path).getD [] : List ByteArray) : Multiset ByteArray)).sum +
      ((archive.withoutPartial fileId).map fun file => (file.lines : Multiset ByteArray)).sum +
      (((Function.update archive.files (.part fileId) (some file.lines)
        (.part fileId)).getD [] : List ByteArray) : Multiset ByteArray)
    rw [unchanged, Function.update_self, balance, split, add_zero, add_assoc]
    congr 1
    exact add_comm _ _

/-- Every step but a crash with lines in hand keeps the account. -/
theorem step_accounted (accounted : archive.Accounted) {action : FileAction} {after : ArchiveFiles}
    (admitted : archive.CrashesBetweenFiles action) (stepped : archive.step action = some after) :
    after.Accounted := by
  have fits := accounted.fits
  have balance := accounted.balance
  unfold ProcessFits at fits
  unfold inHand at balance
  cases action with
  | crash =>
    cases stepped
    exact accounted.crash (admitted rfl)
  | start found =>
    unfold step at stepped
    dsimp only at stepped
    split at stepped
    · next down =>
      rw [down] at balance
      split at stepped
      · next listed =>
        cases stepped
        exact ⟨accounted.freshPartials, accounted.freshFiles, accounted.distinct, accounted.apart,
          accounted.stored, accounted.once, ⟨listed, fun _ _ copied => nomatch copied⟩, balance⟩
      · cases stepped
    · cases stepped
  | setAside =>
    unfold step at stepped
    dsimp only at stepped
    split at stepped
    · next recovering => exact accounted.setAside recovering stepped
    · cases stepped
  | copyLines =>
    unfold step at stepped
    dsimp only at stepped
    split at stepped
    · next recovering =>
      cases stepped
      exact accounted.copyLines recovering
    · cases stepped
  | listRecovered =>
    unfold step at stepped
    dsimp only at stepped
    split at stepped
    · next recovering =>
      rw [recovering] at fits
      cases stepped
      refine accounted.list (fits.2 _ _ rfl) ?_ ⟨fits.1, fun _ _ copied => nomatch copied⟩ rfl
      unfold inHand
      rw [recovering]
    · cases stepped
  | serve =>
    unfold step at stepped
    dsimp only at stepped
    split at stepped
    · next recovering =>
      rw [recovering] at fits balance
      cases stepped
      exact ⟨accounted.freshPartials, accounted.freshFiles, accounted.distinct, accounted.apart,
        accounted.stored, accounted.once,
        ⟨(List.nil_perm.mp fits.1).symm, fun _ closing => nomatch closing⟩, balance⟩
    · cases stepped
  | openPartial =>
    unfold step at stepped
    dsimp only at stepped
    split at stepped
    · next serving =>
      cases stepped
      exact accounted.openPartial serving
    · cases stepped
  | write fileId line =>
    unfold step at stepped
    dsimp only at stepped
    split at stepped
    · next writers serving =>
      rw [serving] at fits balance
      simp only [bind, Option.bind_eq_some_iff, pure, Option.some.injEq] at stepped
      obtain ⟨writer, _, rfl⟩ := stepped
      have writerIds : (setBuffer writers fileId (writer.buffered ++ [line])).map OpenWriter.fileId =
          writers.map OpenWriter.fileId := KeyedList.map_key_replace fun _ same => same
      exact ⟨accounted.freshPartials, accounted.freshFiles, accounted.distinct, accounted.apart,
        accounted.stored, accounted.once,
        ⟨writerIds.trans fits.1, fun _ closing => nomatch closing⟩, balance⟩
    · cases stepped
  | spill fileId count tail =>
    unfold step at stepped
    dsimp only at stepped
    split at stepped
    · next serving =>
      simp only [bind, Option.bind_eq_some_iff, pure, Option.some.injEq] at stepped
      obtain ⟨writer, found, rfl⟩ := stepped
      exact accounted.emit serving found _ _ tail
    · cases stepped
  | flush fileId =>
    unfold step at stepped
    dsimp only at stepped
    split at stepped
    · next serving =>
      simp only [bind, Option.bind_eq_some_iff, pure, Option.some.injEq] at stepped
      obtain ⟨writer, found, rfl⟩ := stepped
      exact accounted.emit serving found _ _ .empty
    · cases stepped
  | rename fileId =>
    unfold step at stepped
    dsimp only at stepped
    split at stepped
    · next serving =>
      simp only [bind, Option.bind_eq_some_iff] at stepped
      obtain ⟨writer, _, file, listed, stepped⟩ := stepped
      split at stepped
      · cases stepped
        exact accounted.rename serving listed
      · cases stepped
    · cases stepped
  | listClosed =>
    unfold step at stepped
    dsimp only at stepped
    split at stepped
    · next serving =>
      rw [serving] at fits
      cases stepped
      refine accounted.list (fits.2 _ rfl) ?_ ⟨fits.1, fun _ closing => nomatch closing⟩ rfl
      unfold inHand
      rw [serving]
    · cases stepped

/-- In every run whose crashes find no lines in hand, a completed recovery leaves every line that
ever reached the disk in exactly one listed file. -/
theorem recovered_complete {actions : List FileAction}
    (run : Transition.Run step CrashesBetweenFiles init (actions ++ [.serve]) archive) :
    archive.Complete := by
  obtain ⟨before, earlier, admitted, served⟩ := Transition.Run.snoc_iff.mp run
  have accounted := earlier.invariant init_accounted fun _ _ _ admitted stepped accounted =>
    step_accounted accounted admitted stepped
  have after := step_accounted accounted admitted served
  refine ⟨after.once, ?_⟩
  -- recovery ends when it has come to every partial file
  unfold step at served
  dsimp only at served
  split at served
  · next recovering =>
    have fits := accounted.fits
    unfold ProcessFits at fits
    rw [recovering] at fits
    have none : before.partials = [] := List.map_eq_nil_iff.mp (List.nil_perm.mp fits.1)
    have balance := after.balance
    cases served
    unfold partialLines inHand at balance
    rw [none] at balance
    simp only [List.map_nil, List.sum_nil, add_zero] at balance
    exact balance.symm
  · cases served

/-! ## A crash between the rename and the manifest -/

/-- One line is written and flushed, and its file is renamed. -/
def closingActions : List FileAction :=
  [.start [], .serve, .openPartial, .write 0 "\x7b\x7d\n".toUTF8, .flush 0, .rename 0]

/-- The line is on the disk below a final name, and recovery does not list it. -/
theorem closing_crash_not_complete : ∃ archive,
    Transition.Run step (fun _ _ => True) init (closingActions ++ [.crash, .start [], .serve])
      archive ∧ ¬ archive.Complete := by
  refine ⟨_, .cons trivial rfl <| .cons trivial rfl <| .cons trivial rfl <| .cons trivial rfl <|
    .cons trivial rfl <| .cons trivial rfl <| .cons trivial rfl <| .cons trivial rfl <|
    .cons trivial rfl <| .nil _, ?_⟩
  intro complete
  have counts := congrArg Multiset.card complete.lines
  exact absurd counts (by decide)

/-- A crash after the file is listed, and one while it is open, lose nothing. -/
theorem listed_crash_complete : ∃ archive,
    Transition.Run step CrashesBetweenFiles init
      ((closingActions ++ [.listClosed, .openPartial, .write 1 "[]\n".toUTF8, .flush 1, .crash,
        .start [1], .setAside, .copyLines, .listRecovered]) ++ [.serve]) archive ∧
      archive.Complete := by
  have ran : Transition.Run step CrashesBetweenFiles init
      ((closingActions ++ [.listClosed, .openPartial, .write 1 "[]\n".toUTF8, .flush 1, .crash,
        .start [1], .setAside, .copyLines, .listRecovered]) ++ [.serve]) _ :=
    .cons nofun rfl <| .cons nofun rfl <| .cons nofun rfl <| .cons nofun rfl <|
    .cons nofun rfl <| .cons nofun rfl <| .cons nofun rfl <| .cons nofun rfl <|
    .cons nofun rfl <| .cons nofun rfl <| .cons (fun _ => rfl) rfl <| .cons nofun rfl <|
    .cons nofun rfl <| .cons nofun rfl <| .cons nofun rfl <| .cons nofun rfl <| .nil _
  exact ⟨_, ran, recovered_complete ran⟩

end ArchiveFiles

end PolymarketBt
