import PolymarketBt.Machine.Transition
import PolymarketBt.Model.NormalizationRuns

/-! # Events across crashes of the normalizer

A run marks its raw files only after it has published all of their rows, so a process that ends
between the first publication and the last mark leaves published rows of files that the next run takes
again. Between such points the published rows are those of the marked files, each once. The backfill of
tick changes is the other way to publish rows of files that stay unmarked.
-/

namespace PolymarketBt

open KeyedList StableSort

/-! ## What a run publishes -/

theorem RawEvent.mem_tickChanges {change : RawEvent} {entry : RawEntry} :
    change ∈ entry.tickChanges ↔ change ∈ entry.events ∧ change.isTickChange = true :=
  List.mem_filter

theorem oneForEachId_ids (rows : List RawEvent) :
    ((oneForEachId rows).map RawEvent.eventId).Nodup := by
  have keys : (oneForEachId rows).map RawEvent.eventId =
      (fill RawEvent.eventId id rows).map Prod.fst := by
    rw [oneForEachId, List.map_map]
    refine List.map_congr_left fun entry member => ?_
    obtain ⟨row, _, rfl⟩ := mem_fill member
    rfl
  rw [keys]
  exact nodup_fill

/-- Rows that their identities tell apart are kept once each. -/
theorem oneForEachId_perm {backfill rows : List RawEvent} (distinct : (rows.map RawEvent.eventId).Nodup)
    (within : backfill ⊆ rows) : (oneForEachId (backfill ++ rows)).Perm rows := by
  rw [List.perm_ext_iff_of_nodup (oneForEachId_ids _).of_map distinct.of_map]
  have contained : ∀ row ∈ oneForEachId (backfill ++ rows), row ∈ rows := by
    intro row kept
    obtain ⟨entry, member, rfl⟩ := List.mem_map.mp kept
    obtain ⟨item, inBoth, rfl⟩ := mem_fill member
    exact (List.mem_append.mp inBoth).elim (fun earlier => within earlier) id
  refine fun row => ⟨contained row, fun member => ?_⟩
  have key : row.eventId ∈ (fill RawEvent.eventId id (backfill ++ rows)).map Prod.fst :=
    mem_fill_keys.mpr (List.mem_map_of_mem (List.mem_append_right _ member))
  obtain ⟨⟨eventId, other⟩, inFill, same⟩ := List.mem_map.mp key
  obtain ⟨item, _, pair⟩ := mem_fill inFill
  cases pair
  have kept : item ∈ oneForEachId (backfill ++ rows) := List.mem_map.mpr ⟨_, inFill, rfl⟩
  rwa [← List.inj_on_of_nodup_map distinct (contained item kept) member same]

/-- Grouping the rows by dataset and partition keeps every occurrence. -/
theorem publications_perm (touched : List EventDataset) (rows : List RawEvent) :
    ((publications (touched ++ rows.map RawEvent.dataset) rows).flatMap PublishedFile.rows).Perm rows := by
  have covers : ∀ row ∈ rows, row.dataset ∈ touched ++ rows.map RawEvent.dataset :=
    fun row member => List.mem_append_right _ (List.mem_map_of_mem member)
  have files : (publications (touched ++ rows.map RawEvent.dataset) rows).flatMap PublishedFile.rows =
      (firsts id (touched ++ rows.map RawEvent.dataset)).flatMap fun dataset =>
        (firsts id ((rows.filter fun row => row.dataset = dataset).map RawEvent.partition)).flatMap
          fun partition => (rows.filter fun row => row.dataset = dataset).filter
            fun row => row.partition = partition := by
    simp only [publications, List.flatMap_assoc, List.flatMap_map]
  rw [files]
  refine List.Perm.trans (List.Perm.flatMap_left _ fun dataset _ => ?_) (groups_perm covers)
  exact groups_perm fun row member => List.mem_map_of_mem member

/-- What a commit adds to the published rows. -/
def NormalizationCommit.rows : NormalizationCommit → List RawEvent
  | .publish file => file.rows
  | _ => []

namespace NormalizationState

variable {state : NormalizationState} {commits : List NormalizationCommit}

theorem rows_foldl : (commits.foldl commit state).rows =
    state.rows ++ commits.flatMap NormalizationCommit.rows := by
  induction commits generalizing state with
  | nil => simp
  | cons first rest ih =>
    rw [List.foldl_cons, ih, List.flatMap_cons, ← List.append_assoc]
    congr 1
    cases first with
    | publish file => simp [commit, rows, NormalizationCommit.rows]
    | _ => simp [commit, rows, NormalizationCommit.rows]

/-- Commits whose marks name files of the archive mark exactly these. -/
theorem processed_foldl {entries : List RawEntry} (paths : (entries.map RawEntry.relativePath).Nodup)
    (marks : ∀ path digest, .markRawFileProcessed path digest ∈ commits →
      ∃ entry ∈ entries, entry.relativePath = path ∧ entry.sha256 = digest)
    {entry : RawEntry} (member : entry ∈ entries) :
    (commits.foldl commit state).rawFileProcessed entry = true ↔
      state.rawFileProcessed entry = true ∨
        .markRawFileProcessed entry.relativePath entry.sha256 ∈ commits := by
  induction commits using List.reverseRecOn with
  | nil => simp
  | append_singleton front last ih =>
    have ih := ih fun path digest inFront => marks path digest (List.mem_append_left _ inFront)
    rw [List.foldl_append, List.foldl_cons, List.foldl_nil, List.mem_append, List.mem_singleton,
      ← or_assoc, ← ih]
    cases last with
    | markRawFileProcessed path digest =>
      obtain ⟨other, inEntries, rfl, rfl⟩ := marks _ _ (List.mem_append_right _ List.mem_cons_self)
      by_cases same : entry.relativePath = other.relativePath
      · obtain rfl := List.inj_on_of_nodup_map paths member inEntries same
        simp [rawFileProcessed, commit]
      · have apart : NormalizationCommit.markRawFileProcessed entry.relativePath entry.sha256 ≠
            .markRawFileProcessed other.relativePath other.sha256 := by simp [same]
        simp [rawFileProcessed, commit, same]
    | _ => exact (or_iff_left (by simp)).symm

end NormalizationState

/-! ## Crashes -/

section Crashes

variable {sha256 : String → String} {entries selected : List RawEntry} {state after : NormalizationState}
  {run : NormalizationRun}

/-- The files of the archive have distinct paths, and their tick changes distinct identities. -/
structure RawArchived (entries : List RawEntry) : Prop where
  paths : (entries.map RawEntry.relativePath).Nodup
  tickIds : ((entries.flatMap RawEntry.tickChanges).map RawEvent.eventId).Nodup

/-- Once every file is marked, every event is published once. -/
def ExactlyOnce (entries : List RawEntry) (state : NormalizationState) : Prop :=
  (∀ entry ∈ entries, state.rawFileProcessed entry = true) →
    state.rows.Perm (entries.flatMap RawEntry.events)

/-- The published rows are those of the marked files. -/
def Settled (entries : List RawEntry) (state : NormalizationState) : Prop :=
  state.rows.Perm ((entries.filter state.rawFileProcessed).flatMap RawEntry.events)

/-- The process ends before the first publication or after the last mark, if it ends early, and a
backfill of tick changes that is published leaves no file unmarked that has any. -/
def Harmless (sha256 : String → String) (entries : List RawEntry) (state : NormalizationState)
    (run : NormalizationRun) : Prop :=
  (∀ file, .publish file ∉ run.done sha256 entries state) ∨
  ∃ selected, run.options.select entries state = .ok selected ∧
    (∀ count ∈ run.crash, (publishing state entries selected ++ marking selected).length ≤ count) ∧
    (state.tickBackfilled = false → ∀ entry ∈ entries, entry.isClobMarketWs = true →
      state.rawFileProcessed entry = false → entry ∉ selected → entry.tickChanges = [])

theorem Settled.exactlyOnce (settled : Settled entries state) : ExactlyOnce entries state := by
  intro marked
  rwa [Settled, List.filter_eq_self.mpr marked] at settled

/-- A run takes files of the archive that are not marked, each once. -/
theorem select_spec (archived : RawArchived entries)
    (chosen : run.options.select entries state = .ok selected) :
    selected.Nodup ∧ ∀ entry ∈ selected, entry ∈ entries ∧ state.rawFileProcessed entry = false := by
  have order (pending : List RawEntry) : (run.options.order pending).Perm pending := by
    unfold NormalizeOptions.order
    split
    · exact sortByKey_perm _ _
    · exact sortByKey_perm _ _
  have pending := order (entries.filter fun entry =>
    run.options.admits entry && !state.rawFileProcessed entry)
  have within : selected.Sublist (run.options.order (entries.filter fun entry =>
      run.options.admits entry && !state.rawFileProcessed entry)) := by
    unfold NormalizeOptions.select at chosen
    dsimp only at chosen
    split at chosen
    · cases chosen
      exact List.Sublist.refl _
    · split at chosen
      · cases chosen
      · cases chosen
        exact List.take_sublist _ _
  refine ⟨within.nodup (pending.nodup_iff.mpr (archived.paths.of_map.filter _)), fun entry member => ?_⟩
  have kept := List.mem_filter.mp (pending.mem_iff.mp (within.subset member))
  exact ⟨kept.1, by simpa using (Bool.and_eq_true_iff.mp kept.2).2⟩

theorem tickChanges_flatMap (files : List RawEntry) :
    (files.flatMap RawEntry.events).filter RawEvent.isTickChange = files.flatMap RawEntry.tickChanges := by
  rw [List.filter_flatMap]
  rfl

/-- What a backfill publishes belongs to the files of its run where no other unmarked file has any. -/
theorem backfill_within (settled : Settled entries state)
    (covered : state.tickBackfilled = false → ∀ entry ∈ entries, entry.isClobMarketWs = true →
      state.rawFileProcessed entry = false → entry ∉ selected → entry.tickChanges = []) :
    backfillRows state entries ⊆ selected.flatMap RawEntry.tickChanges := by
  intro change inBackfill
  unfold backfillRows at inBackfill
  split at inBackfill
  · cases inBackfill
  next needed =>
  have covered := covered (Bool.eq_false_iff.mpr needed)
  obtain ⟨inFiles, fresh⟩ := List.mem_filter.mp (mem_of_mem_firsts inBackfill)
  obtain ⟨entry, inOrdered, inEntry⟩ := List.mem_flatMap.mp inFiles
  obtain ⟨member, feed⟩ := List.mem_filter.mp (mem_sortByKey.mp inOrdered)
  by_cases taken : entry ∈ selected
  · exact List.mem_flatMap.mpr ⟨entry, taken, inEntry⟩
  cases marked : state.rawFileProcessed entry with
  | false =>
    rw [covered entry member feed marked taken] at inEntry
    cases inEntry
  | true =>
    -- the rows of a marked file are published, and the backfill has seen their identities
    obtain ⟨inEvents, tick⟩ := RawEvent.mem_tickChanges.mp inEntry
    have published : change ∈ state.rows := settled.mem_iff.mpr
      (List.mem_flatMap.mpr ⟨entry, List.mem_filter.mpr ⟨member, marked⟩, inEvents⟩)
    have seen := List.mem_map_of_mem (f := RawEvent.eventId)
      (List.mem_filter.mpr ⟨published, tick⟩)
    exact absurd seen (by simpa using fresh)

theorem backfillRows_tick {change : RawEvent} (inBackfill : change ∈ backfillRows state entries) :
    change.isTickChange = true := by
  unfold backfillRows at inBackfill
  split at inBackfill
  · cases inBackfill
  obtain ⟨inFiles, _⟩ := List.mem_filter.mp (mem_of_mem_firsts inBackfill)
  obtain ⟨entry, _, inEntry⟩ := List.mem_flatMap.mp inFiles
  exact (RawEvent.mem_tickChanges.mp inEntry).2

/-- A run collects the events of its files, each once. -/
theorem collectedRows_perm {backfill : List RawEvent} (archived : RawArchived entries)
    (distinct : selected.Nodup) (taken : selected ⊆ entries)
    (ticks : ∀ change ∈ backfill, change.isTickChange = true)
    (within : backfill ⊆ selected.flatMap RawEntry.tickChanges) :
    (collectedRows backfill selected).Perm (selected.flatMap RawEntry.events) := by
  have others : backfill.filter (fun row => !row.isTickChange) = [] :=
    List.filter_eq_nil_iff.mpr fun change member => by simp [ticks change member]
  obtain ⟨part, perm, sublist⟩ := distinct.subperm taken
  have tickIds : ((selected.flatMap RawEntry.tickChanges).map RawEvent.eventId).Nodup := by
    rw [← ((perm.flatMap_right _).map _).nodup_iff]
    exact archived.tickIds.sublist ((sublist.flatMap _).map _)
  have once := oneForEachId_perm tickIds within
  unfold collectedRows
  dsimp only
  rw [List.filter_append, List.filter_append, others, List.nil_append,
    List.filter_eq_self.mpr ticks, tickChanges_flatMap]
  refine (once.append_left _).trans ?_
  rw [← tickChanges_flatMap]
  exact List.perm_append_comm.trans (List.filter_append_perm _ _)

theorem publishing_perm : ((publishing state entries selected).flatMap NormalizationCommit.rows).Perm
    (collectedRows (backfillRows state entries) selected) := by
  unfold publishing
  dsimp only
  rw [List.flatMap_append, List.flatMap_map]
  exact (List.append_nil _).symm ▸ publications_perm _ _

/-- A run that has rows publishes them first. -/
theorem publishing_cons (some : collectedRows (backfillRows state entries) selected ≠ []) :
    ∃ file rest, publishing state entries selected = .publish file :: rest := by
  have nonempty (touched : List EventDataset) :
      publications (touched ++ (collectedRows (backfillRows state entries) selected).map
        RawEvent.dataset) (collectedRows (backfillRows state entries) selected) ≠ [] := by
    intro none
    have perm := publications_perm touched (collectedRows (backfillRows state entries) selected)
    rw [none] at perm
    exact some perm.nil_eq.symm
  obtain ⟨file, rest, files⟩ := List.exists_cons_of_ne_nil (nonempty
    ((if state.tickBackfilled then [] else [EventDataset.tickSizeChanges]) ++
      selected.flatMap RawEntry.touched))
  unfold publishing
  dsimp only
  rw [files]
  exact ⟨file, _, rfl⟩

/-! ## One run -/

theorem not_mark_publishing {path digest : String} :
    NormalizationCommit.markRawFileProcessed path digest ∉ publishing state entries selected := by
  simp [publishing]

theorem not_mark_closing {path digest : String} :
    NormalizationCommit.markRawFileProcessed path digest ∉ closing sha256 state selected := by
  unfold closing
  split <;> split <;> simp

theorem closing_rows {commit : NormalizationCommit} (member : commit ∈ closing sha256 state selected) :
    commit.rows = [] := by
  cases commit with
  | publish file =>
    unfold closing at member
    split at member <;> split at member <;> simp at member
  | _ => rfl

/-- The marks of a run are of its files. -/
theorem mark_of_done {path digest : String} (chosen : run.options.select entries state = .ok selected)
    (mark : .markRawFileProcessed path digest ∈ run.done sha256 entries state) :
    ∃ entry ∈ selected, entry.relativePath = path ∧ entry.sha256 = digest := by
  have inCommits : .markRawFileProcessed path digest ∈ commitsOf sha256 state entries selected := by
    unfold NormalizationRun.done at mark
    rw [chosen] at mark
    dsimp only at mark
    cases crash : run.crash with
    | none => rwa [crash] at mark
    | some count =>
      rw [crash] at mark
      exact List.mem_of_mem_take mark
  unfold commitsOf at inCommits
  split at inCommits
  · cases inCommits
  rcases List.mem_append.mp inCommits with before | after
  · rcases List.mem_append.mp before with published | marked
    · exact absurd published not_mark_publishing
    · obtain ⟨entry, member, same⟩ := List.mem_map.mp marked
      cases same
      exact ⟨entry, member, rfl, rfl⟩
  · exact absurd after not_mark_closing

/-- A run without rows has no events to mark. -/
theorem events_of_collectedRows_nil {backfill : List RawEvent}
    (none : collectedRows backfill selected = []) {entry : RawEntry} (member : entry ∈ selected) :
    entry.events = [] := by
  obtain ⟨others, ticks⟩ := List.append_eq_nil_iff.mp none
  refine List.eq_nil_iff_forall_not_mem.mpr fun event inEntry => ?_
  have read : event ∈ backfill ++ selected.flatMap RawEntry.events :=
    List.mem_append_right _ (List.mem_flatMap.mpr ⟨entry, member, inEntry⟩)
  cases tick : event.isTickChange with
  | false => exact List.filter_eq_nil_iff.mp others event read (by simp [tick])
  | true =>
    have key : event.eventId ∈ (fill RawEvent.eventId id ((backfill ++
        selected.flatMap RawEntry.events).filter RawEvent.isTickChange)).map Prod.fst :=
      mem_fill_keys.mpr (List.mem_map_of_mem (List.mem_filter.mpr ⟨read, tick⟩))
    rw [List.map_eq_nil_iff.mp ticks] at key
    cases key

/-- The files that a step marks bring their events, and nothing else is published. -/
theorem Settled.extend {added : List RawEvent} (settled : Settled entries state)
    (marked : List RawEntry) (archived : RawArchived entries) (rows : after.rows = state.rows ++ added)
    (events : added.Perm (marked.flatMap RawEntry.events)) (distinct : marked.Nodup)
    (fresh : ∀ entry ∈ marked, entry ∈ entries ∧ state.rawFileProcessed entry = false)
    (marks : ∀ entry ∈ entries, after.rawFileProcessed entry = true ↔
      state.rawFileProcessed entry = true ∨ entry ∈ marked) : Settled entries after := by
  have files : (entries.filter state.rawFileProcessed ++ marked).Perm
      (entries.filter after.rawFileProcessed) := by
    have apart : ∀ entry ∈ entries.filter state.rawFileProcessed, ∀ other ∈ marked, entry ≠ other := by
      rintro entry done _ taken rfl
      have done := (List.mem_filter.mp done).2
      rw [(fresh entry taken).2] at done
      cases done
    rw [List.perm_ext_iff_of_nodup (List.nodup_append.mpr
      ⟨archived.paths.of_map.filter _, distinct, apart⟩) (archived.paths.of_map.filter _)]
    intro entry
    rw [List.mem_append, List.mem_filter, List.mem_filter]
    constructor
    · rintro (⟨member, done⟩ | taken)
      · exact ⟨member, (marks entry member).mpr (.inl done)⟩
      · have member := (fresh entry taken).1
        exact ⟨member, (marks entry member).mpr (.inr taken)⟩
    · rintro ⟨member, done⟩
      exact ((marks entry member).mp done).imp_left fun done => ⟨member, done⟩
  rw [Settled, rows]
  refine (settled.append events).trans ?_
  rw [← List.flatMap_append]
  exact files.flatMap_right _

/-- The commits that a run gets done come first among its commits. -/
theorem done_prefix (sha256 : String → String)
    (chosen : run.options.select entries state = .ok selected) :
    run.done sha256 entries state <+: commitsOf sha256 state entries selected := by
  unfold NormalizationRun.done
  rw [chosen]
  dsimp only
  cases run.crash with
  | none => exact List.prefix_refl _
  | some count => exact List.take_prefix _ _

/-- A run that marks a file without having published anything has no events. -/
theorem events_of_unpublished (chosen : run.options.select entries state = .ok selected)
    (unpublished : ∀ file, .publish file ∉ run.done sha256 entries state) {path digest : String}
    (mark : .markRawFileProcessed path digest ∈ run.done sha256 entries state) {entry : RawEntry}
    (member : entry ∈ selected) : entry.events = [] := by
  by_contra some
  have rows : collectedRows (backfillRows state entries) selected ≠ [] :=
    fun none => some (events_of_collectedRows_nil none member)
  obtain ⟨file, rest, first⟩ := publishing_cons rows
  obtain ⟨undone, split⟩ := done_prefix sha256 chosen
  cases done : run.done sha256 entries state with
  | nil =>
    rw [done] at mark
    cases mark
  | cons head tail =>
    rw [done, commitsOf] at split
    split at split
    · cases split
    rw [first, List.cons_append, List.cons_append, List.cons_append] at split
    obtain ⟨rfl, _⟩ := List.cons.inj split
    exact unpublished file (by rw [done]; exact List.mem_cons_self)

/-- A run that is not cut off before its last mark gets all publications and marks done. -/
theorem done_of_finished (sha256 : String → String)
    (chosen : run.options.select entries state = .ok selected)
    (finished : ∀ count ∈ run.crash,
      (publishing state entries selected ++ marking selected).length ≤ count) :
    run.done sha256 entries state = [] ∨ ∃ tail, run.done sha256 entries state =
      publishing state entries selected ++ marking selected ++ tail ∧
        tail <+: closing sha256 state selected := by
  unfold NormalizationRun.done
  rw [chosen]
  dsimp only
  unfold commitsOf
  split
  · left
    cases run.crash with
    | none => rfl
    | some count => exact List.take_nil
  · cases crash : run.crash with
    | none => exact .inr ⟨_, rfl, List.prefix_refl _⟩
    | some count =>
      refine .inr ⟨(closing sha256 state selected).take
        (count - (publishing state entries selected ++ marking selected).length), ?_,
        List.take_prefix _ _⟩
      rw [Option.elim_some, List.take_append, List.take_of_length_le (finished count crash)]

/-- The published rows stay those of the marked files. -/
theorem Settled.step (archived : RawArchived entries) (settled : Settled entries state)
    (harmless : Harmless sha256 entries state run)
    (stepped : normalizeStep sha256 entries state run = some after) : Settled entries after := by
  obtain rfl := Option.some.inj stepped
  cases chosen : run.options.select entries state with
  | error failure =>
    have nothing : run.done sha256 entries state = [] := by
      unfold NormalizationRun.done
      rw [chosen]
    rw [nothing]
    exact settled
  | ok selected =>
  obtain ⟨distinct, fresh⟩ := select_spec archived chosen
  have marks {entry : RawEntry} (member : entry ∈ entries) :
      ((run.done sha256 entries state).foldl .commit state).rawFileProcessed entry = true ↔
        state.rawFileProcessed entry = true ∨
          .markRawFileProcessed entry.relativePath entry.sha256 ∈ run.done sha256 entries state :=
    NormalizationState.processed_foldl archived.paths (fun path digest mark => by
      obtain ⟨entry, taken, same⟩ := mark_of_done chosen mark
      exact ⟨entry, (fresh entry taken).1, same⟩) member
  have taken {entry : RawEntry} (member : entry ∈ entries)
      (mark : .markRawFileProcessed entry.relativePath entry.sha256 ∈ run.done sha256 entries state) :
      entry ∈ selected := by
    obtain ⟨other, inSelected, path, _⟩ := mark_of_done chosen mark
    rwa [← List.inj_on_of_nodup_map archived.paths (fresh other inSelected).1 member path]
  rcases harmless with unpublished | ⟨_, again, finished, covered⟩
  · have none : (run.done sha256 entries state).flatMap NormalizationCommit.rows = [] := by
      refine List.flatMap_eq_nil_iff.mpr fun commit member => ?_
      cases commit with
      | publish file => exact absurd member (unpublished file)
      | _ => rfl
    -- whatever is marked without a publication has no events
    refine settled.extend (entries.filter fun entry =>
        decide (.markRawFileProcessed entry.relativePath entry.sha256 ∈
          run.done sha256 entries state) && !state.rawFileProcessed entry) archived
      NormalizationState.rows_foldl ?_ (archived.paths.of_map.filter _) ?_ ?_
    · rw [none, List.flatMap_eq_nil_iff.mpr]
      intro entry member
      obtain ⟨inEntries, mark⟩ := List.mem_filter.mp member
      have mark := of_decide_eq_true (Bool.and_eq_true_iff.mp mark).1
      exact events_of_unpublished chosen unpublished mark (taken inEntries mark)
    · intro entry member
      obtain ⟨inEntries, mark⟩ := List.mem_filter.mp member
      exact ⟨inEntries, by simpa using (Bool.and_eq_true_iff.mp mark).2⟩
    · intro entry member
      rw [marks member, List.mem_filter]
      cases done : state.rawFileProcessed entry with
      | true => simp
      | false => simp [member]
  · obtain rfl := Except.ok.inj (chosen.symm.trans again)
    rcases done_of_finished sha256 chosen finished with nothing | ⟨tail, done, ends⟩
    · rw [nothing]
      exact settled
    have noMark {path digest : String} : .markRawFileProcessed path digest ∉ tail :=
      fun mark => not_mark_closing (ends.subset mark)
    refine settled.extend selected archived NormalizationState.rows_foldl ?_ distinct fresh fun entry member => ?_
    · have others : (marking selected ++ tail).flatMap NormalizationCommit.rows = [] := by
        refine List.flatMap_eq_nil_iff.mpr fun commit member => ?_
        rcases List.mem_append.mp member with inMarks | inTail
        · obtain ⟨_, _, rfl⟩ := List.mem_map.mp inMarks
          rfl
        · exact closing_rows (ends.subset inTail)
      rw [done, List.append_assoc, List.flatMap_append, others, List.append_nil]
      exact publishing_perm.trans (collectedRows_perm archived distinct (fun entry member =>
        (fresh entry member).1) (fun _ => backfillRows_tick) (backfill_within settled covered))
    · rw [marks member]
      refine or_congr_right ⟨taken member, fun inSelected => ?_⟩
      rw [done]
      exact List.mem_append_left _ (List.mem_append_right _
        (List.mem_map_of_mem (f := fun entry : RawEntry =>
          NormalizationCommit.markRawFileProcessed entry.relativePath entry.sha256) inSelected))

end Crashes

/-! ## A crash between publication and marking -/

/-- A raw file of the market feed with a level change. -/
def updateFile : RawEntry where
  relativePath := "raw/source=clob_market_ws/date=2026-01-01/a.jsonl.zst"
  sha256 := "a1"
  createdUtcNs := 0
  closedUtcNs := 1
  firstSequence := some 1
  events := [⟨.bookUpdates, "run:1:0:0", [("date", "2026-01-01"), ("hour", "00")]⟩]
  touched := [.bookUpdates, .tickSizeChanges]

/-- A later file with a tick change, and a heartbeat in another hour. -/
def tickFile : RawEntry where
  relativePath := "raw/source=clob_market_ws/date=2026-01-01/b.jsonl.zst"
  sha256 := "b2"
  createdUtcNs := 1
  closedUtcNs := 2
  firstSequence := some 2
  events := [⟨.tickSizeChanges, "run:2:0", [("date", "2026-01-01"), ("hour", "00")]⟩,
    ⟨.heartbeatEvents, "3", [("date", "2026-01-01"), ("hour", "01")]⟩]
  touched := [.bookUpdates, .tickSizeChanges, .heartbeatEvents]

/-- The backfill of a run that takes the first file publishes the tick change of the second, which the
run of that file publishes again. -/
example : ∃ state, Transition.Run (normalizeStep id [updateFile, tickFile])
    (fun _ run => run.crash = none) {} [⟨{ maxFiles := some 1, newestFirst := false }, none⟩, ⟨{}, none⟩]
      state ∧ ¬ExactlyOnce [updateFile, tickFile] state := by
  refine ⟨_, .cons rfl rfl (.cons rfl rfl (.nil _)), fun once => ?_⟩
  have perm := once (by decide +kernel)
  have twice := perm.length_eq
  revert twice
  decide +kernel

end PolymarketBt
