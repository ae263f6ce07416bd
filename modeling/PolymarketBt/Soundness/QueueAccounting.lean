import PolymarketBt.Machine.Transition
import PolymarketBt.Model.ArchiveQueue

/-! # Accounting for every offered envelope

An accepted envelope is in the queue, in the batch that the worker has handed over, in an open file
or in a closed one, always in the order of acceptance within its partition; a refused one is
counted. Stopping closes every file, so envelopes are lost only in a queue that nobody drains any
more.
-/

namespace PolymarketBt

namespace ArchiveWriters

variable {config : RawArchiveConfig} {archive : ArchiveWriters}

/-- The envelopes of a partition in closed files, in the order of closing. -/
def filed (archive : ArchiveWriters) (partition : String) : List RawEnvelope :=
  (archive.files.filter fun file => file.partition = partition).flatMap RawFile.envelopes

/-- The envelopes of a partition in its open file. -/
def opened (archive : ArchiveWriters) (partition : String) : List RawEnvelope :=
  (archive.writers.filter fun writer => writer.partition = partition).flatMap
    RawFileWriter.envelopes

def stored (archive : ArchiveWriters) (partition : String) : List RawEnvelope :=
  archive.filed partition ++ archive.opened partition

/-- No partition has two open files. -/
def Distinct (archive : ArchiveWriters) : Prop :=
  (archive.writers.map RawFileWriter.partition).Nodup

theorem opened_eq (distinct : archive.Distinct) {partition : String} {writer : RawFileWriter}
    (found : archive.writer? partition = some writer) :
    archive.opened partition = writer.envelopes := by
  unfold opened
  rw [KeyedList.filter_eq_singleton distinct found]
  exact List.append_nil _

/-- One more closed file is the last of its partition. -/
theorem filed_append (files : List RawFile) (file : RawFile) (writers : List RawFileWriter)
    (partition : String) :
    ({ writers := writers, files := files ++ [file] } : ArchiveWriters).filed partition =
      (files.filter fun file => file.partition = partition).flatMap RawFile.envelopes ++
        if file.partition = partition then file.envelopes else [] := by
  unfold filed
  rw [List.filter_append, List.flatMap_append]
  congr 1
  by_cases own : file.partition = partition
  · simp [own]
  · simp [own]

theorem close_stored (distinct : archive.Distinct) (partition other : String) :
    (archive.close partition).stored other = archive.stored other := by
  unfold close
  cases found : archive.writer? partition with
  | none => rfl
  | some writer =>
    obtain ⟨_, named⟩ := KeyedList.find_spec found
    unfold stored
    rw [filed_append]
    by_cases own : other = partition
    · subst own
      rw [opened_eq distinct found]
      unfold opened
      rw [KeyedList.filter_without_self]
      simp [RawFileWriter.closed, named, filed]
    · unfold opened
      rw [KeyedList.filter_without_of_ne own]
      have apart : writer.closed.partition ≠ other := fun same => own (same.symm.trans named)
      simp [apart, filed]

theorem close_distinct (distinct : archive.Distinct) (partition : String) :
    (archive.close partition).Distinct := by
  unfold close Distinct
  split
  · exact distinct
  · rw [KeyedList.map_key_without]
    exact distinct.filter _

theorem rotate_spec (distinct : archive.Distinct) (now : ℤ) (partition : String) :
    (archive.rotate config now partition).Distinct ∧
      ∀ other, (archive.rotate config now partition).stored other = archive.stored other := by
  unfold rotate
  split
  · exact ⟨close_distinct distinct partition, close_stored distinct partition⟩
  · exact ⟨distinct, fun _ => rfl⟩

/-- Opening a file, or closing one for a later period, moves no envelope. -/
theorem ready_spec (distinct : archive.Distinct) (envelope : RawEnvelope) (created : ℤ) :
    (archive.ready config envelope created).Distinct ∧
      (∀ other, (archive.ready config envelope created).stored other = archive.stored other) ∧
      ∃ writer, (archive.ready config envelope created).writer? (config.partitionFor envelope) =
        some writer := by
  unfold ready
  dsimp only
  generalize config.partitionFor envelope = partition
  cases found : archive.writer? partition with
  | none =>
    have absent : partition ∉ archive.writers.map RawFileWriter.partition := fun member => by
      obtain ⟨writer, present⟩ := KeyedList.exists_find member
      exact nomatch found.symm.trans present
    refine ⟨?_, fun other => ?_, ⟨partition, created, []⟩, ?_⟩
    · unfold Distinct
      rw [List.map_append]
      refine List.nodup_append.mpr ⟨distinct, List.nodup_singleton _, ?_⟩
      rintro other old _ own rfl
      obtain rfl := List.mem_singleton.mp own
      exact absent old
    · unfold stored opened filed
      rw [List.filter_append, List.flatMap_append]
      congr 1
      by_cases own : partition = other
      · simp [own]
      · simp [own]
    · unfold writer? at found ⊢
      rw [List.find?_append, found]
      simp
  | some writer =>
    obtain ⟨_, named⟩ := KeyedList.find_spec found
    dsimp only
    split
    · have keeps : ∀ writer : RawFileWriter, writer.partition = partition →
          (⟨partition, created, []⟩ : RawFileWriter).partition = partition := fun _ _ => rfl
      refine ⟨?_, fun other => ?_, ?_⟩
      · unfold Distinct
        rw [KeyedList.map_key_replace keeps]
        exact distinct
      · unfold stored
        rw [filed_append]
        by_cases own : other = partition
        · subst own
          rw [opened_eq distinct found]
          unfold opened
          rw [KeyedList.filter_replace_self keeps,
            KeyedList.filter_eq_singleton distinct found]
          simp [RawFileWriter.closed, named, filed]
        · unfold opened
          rw [KeyedList.filter_replace_of_ne keeps own]
          have apart : writer.closed.partition ≠ other := fun same => own (same.symm.trans named)
          simp [apart, filed]
      · refine KeyedList.exists_find ?_
        rw [KeyedList.map_key_replace keeps]
        exact named ▸ List.mem_map_of_mem (KeyedList.find_spec found).1
    · exact ⟨distinct, fun _ => rfl, writer, found⟩

theorem append_spec (distinct : archive.Distinct) {partition : String} {writer : RawFileWriter}
    (found : archive.writer? partition = some writer) (envelope : RawEnvelope) :
    (archive.append partition envelope).Distinct ∧
      ∀ other, (archive.append partition envelope).stored other =
        archive.stored other ++ if partition = other then [envelope] else [] := by
  have keeps : ∀ writer : RawFileWriter, writer.partition = partition →
      ({ writer with envelopes := writer.envelopes ++ [envelope] } : RawFileWriter).partition =
        partition := fun _ same => same
  constructor
  · unfold Distinct append
    rw [KeyedList.map_key_replace keeps]
    exact distinct
  · intro other
    unfold stored append
    rw [List.append_assoc]
    congr 1
    by_cases own : other = partition
    · subst own
      rw [opened_eq distinct found]
      unfold opened
      rw [KeyedList.filter_replace_self keeps, KeyedList.filter_eq_singleton distinct found]
      simp
    · unfold opened
      rw [KeyedList.filter_replace_of_ne keeps own, if_neg (Ne.symm own), List.append_nil]

/-- Writing an envelope appends it to its partition. -/
theorem write_spec (distinct : archive.Distinct) (item : Stamped) :
    (archive.write config item).Distinct ∧
      ∀ other, (archive.write config item).stored other =
        archive.stored other ++ if config.partitionFor item.1 = other then [item.1] else [] := by
  obtain ⟨readyDistinct, readyStored, writer, found⟩ :=
    ready_spec distinct item.1 item.2.1
  obtain ⟨appended, grown⟩ := append_spec readyDistinct found item.1
  obtain ⟨rotated, kept⟩ :=
    rotate_spec appended item.2.2 (config.partitionFor item.1)
  exact ⟨rotated, fun other => by rw [write, kept other, grown other, readyStored other]⟩

theorem writeBatch_spec (distinct : archive.Distinct) (items : List Stamped) :
    (archive.writeBatch config items).Distinct ∧
      ∀ other, (archive.writeBatch config items).stored other =
        archive.stored other ++ (items.map Prod.fst).filter fun envelope =>
          config.partitionFor envelope = other := by
  induction items generalizing archive with
  | nil => exact ⟨distinct, fun other => (List.append_nil _).symm⟩
  | cons item rest ih =>
    obtain ⟨written, grown⟩ := write_spec distinct item
    obtain ⟨later, others⟩ := ih written
    refine ⟨later, fun other => (others other).trans ?_⟩
    rw [grown other, List.append_assoc, List.map_cons, List.filter_cons]
    congr 1
    by_cases own : config.partitionFor item.1 = other
    · simp [own]
    · simp [own]

theorem flushAll_spec (distinct : archive.Distinct) (now : ℤ) :
    (archive.flushAll config now).Distinct ∧
      ∀ other, (archive.flushAll config now).stored other = archive.stored other := by
  unfold flushAll
  generalize archive.writers.map RawFileWriter.partition = partitions
  induction partitions generalizing archive with
  | nil => exact ⟨distinct, fun _ => rfl⟩
  | cons partition rest ih =>
    obtain ⟨rotated, kept⟩ := rotate_spec distinct now partition
    obtain ⟨later, others⟩ := ih rotated
    exact ⟨later, fun other => (others other).trans (kept other)⟩

theorem closeAll_filed (archive : ArchiveWriters) (partition : String) :
    archive.closeAll.filed partition = archive.stored partition := by
  unfold closeAll filed stored filed opened
  rw [List.filter_append, List.flatMap_append, List.filter_map, List.flatMap_map]
  rfl

end ArchiveWriters

namespace RawArchive

variable {config : RawArchiveConfig} {state : RawArchive}

/-- The envelopes that were put into the queue, in this order. -/
def accepted (state : RawArchive) : List RawEnvelope :=
  (state.offered.filter Prod.snd).map Prod.fst

def dropped (state : RawArchive) : List RawEnvelope :=
  (state.offered.filter fun call => !call.2).map Prod.fst

/-- The dropped envelopes are counted, and their sequences are in the recorded range. -/
structure DropsCounted (state : RawArchive) : Prop where
  total : state.stats.droppedTotal = state.dropped.length
  range : ∀ envelope ∈ state.dropped, ∃ first last,
    state.stats.firstDroppedSequence = some first ∧ state.stats.lastDroppedSequence = some last ∧
      first ≤ envelope.sequence ∧ envelope.sequence ≤ last

/-- Every offered envelope is in the closed files of its partition, in the order of acceptance, or
is counted as dropped. -/
structure NoSilentLoss (config : RawArchiveConfig) (state : RawArchive) : Prop where
  placed : ∀ partition, state.archive.filed partition =
    state.accepted.filter fun envelope => config.partitionFor envelope = partition
  dropped : state.DropsCounted
  totals : state.stats.enqueuedTotal = state.stats.persistedTotal
  drained : state.queue = []

/-- The drain timeout finds the queue empty, nothing is offered once the worker has ended, and the
sequences of dropped envelopes do not go back. -/
def Drains (config : RawArchiveConfig) (state : RawArchive) : ArchiveAction → Prop
  | .enqueue envelope => state.worker ≠ .ended ∧
    (state.full config → ∀ last, state.stats.lastDroppedSequence = some last →
      last ≤ envelope.sequence)
  | .drainTimeout => state.queue = []
  | _ => True

/-! ## The invariant -/

/-- The batch that the thread has yet to write. -/
def pending (state : RawArchive) : List RawEnvelope :=
  match state.job with
  | some (.write batch) => batch
  | _ => []

structure Accounted (config : RawArchiveConfig) (state : RawArchive) : Prop where
  distinct : state.archive.Distinct
  placed : ∀ partition, state.archive.stored partition ++
      (state.pending ++ state.queue).filter (fun envelope =>
        config.partitionFor envelope = partition) =
    state.accepted.filter fun envelope => config.partitionFor envelope = partition
  totals : state.stats.enqueuedTotal =
    state.stats.persistedTotal + state.pending.length + state.queue.length
  dropped : state.DropsCounted
  ordered : ∀ first, state.stats.firstDroppedSequence = some first →
    ∃ last, state.stats.lastDroppedSequence = some last ∧ first ≤ last
  polling : state.worker = .polling → state.job = none
  ended : state.worker = .ended → state.queue = []
  stopped : state.stopped → state.worker = .ended ∧ state.job = none ∧ state.archive.writers = []

theorem init_accounted : Accounted config init where
  distinct := List.nodup_nil
  placed := fun _ => rfl
  totals := rfl
  dropped := ⟨rfl, by simp [init, RawArchive.dropped]⟩
  ordered := nofun
  polling := fun _ => rfl
  ended := fun ended => nomatch ended
  stopped := fun stopped => nomatch stopped

theorem Accounted.enqueue (accounted : Accounted config state) {envelope : RawEnvelope}
    (drains : state.Drains config (.enqueue envelope)) :
    Accounted config (state.enqueue config envelope) := by
  obtain ⟨working, forward⟩ := drains
  unfold RawArchive.enqueue
  split
  · next full =>
    have acceptedSame : (state.offered ++ [(envelope, false)]).filter Prod.snd =
        state.offered.filter Prod.snd := by simp
    have droppedMore : ((state.offered ++ [(envelope, false)]).filter fun call => !call.2).map
        Prod.fst = state.dropped ++ [envelope] := by
      simp [RawArchive.dropped]
    have after (first : ℤ) (known : state.stats.firstDroppedSequence = some first) :
        first ≤ envelope.sequence := by
      obtain ⟨last, lastKnown, le⟩ := accounted.ordered first known
      exact le.trans (forward full last lastKnown)
    refine ⟨accounted.distinct, fun partition => ?_, accounted.totals, ⟨?_, ?_⟩, ?_,
      accounted.polling, fun ended => absurd ended working, accounted.stopped⟩
    · unfold accepted
      dsimp only
      rw [acceptedSame]
      exact accounted.placed partition
    · unfold RawArchive.dropped
      dsimp only
      rw [droppedMore, List.length_append, accounted.dropped.total]
      rfl
    · unfold RawArchive.dropped
      dsimp only
      rw [droppedMore]
      intro other member
      rcases List.mem_append.mp member with old | own
      · obtain ⟨first, last, firstKnown, lastKnown, low, high⟩ := accounted.dropped.range other old
        exact ⟨first, envelope.sequence, by rw [firstKnown]; rfl, rfl, low,
          high.trans (forward full last lastKnown)⟩
      · obtain rfl := List.mem_singleton.mp own
        cases known : state.stats.firstDroppedSequence with
        | none => exact ⟨other.sequence, other.sequence, rfl, rfl, le_rfl, le_rfl⟩
        | some first => exact ⟨first, other.sequence, rfl, rfl, after first known, le_rfl⟩
    · intro first known
      refine ⟨envelope.sequence, rfl, ?_⟩
      cases old : state.stats.firstDroppedSequence with
      | none =>
        rw [old] at known
        cases known
        exact le_rfl
      | some earlier =>
        rw [old] at known
        cases known
        exact after first old
  · next room =>
    have droppedSame : (state.offered ++ [(envelope, true)]).filter (fun call => !call.2) =
        state.offered.filter fun call => !call.2 := by simp
    have acceptedMore : ((state.offered ++ [(envelope, true)]).filter Prod.snd).map Prod.fst =
        state.accepted ++ [envelope] := by
      simp [accepted]
    refine ⟨accounted.distinct, fun partition => ?_, ?_, ⟨?_, ?_⟩, accounted.ordered,
      accounted.polling, fun ended => absurd ended working, accounted.stopped⟩
    · unfold accepted
      dsimp only
      rw [acceptedMore, List.filter_append state.accepted, ← accounted.placed partition]
      simp only [List.filter_append, List.append_assoc]
      rfl
    · dsimp only
      rw [accounted.totals, List.length_append]
      exact (Nat.add_assoc _ _ _)
    · unfold RawArchive.dropped
      dsimp only
      rw [droppedSame]
      exact accounted.dropped.total
    · unfold RawArchive.dropped
      dsimp only
      rw [droppedSame]
      exact accounted.dropped.range

theorem Accounted.takeBatch (accounted : Accounted config state)
    (polling : state.worker = .polling) (count : ℕ) :
    Accounted config { state with
      queue := state.queue.drop count
      worker := .waiting
      job := some (.write (state.queue.take count)) } := by
  have none : state.pending = [] := by
    unfold pending
    rw [accounted.polling polling]
  have placed := accounted.placed
  have totals := accounted.totals
  rw [none] at placed totals
  refine ⟨accounted.distinct, fun partition => ?_, ?_, ⟨accounted.dropped.total, accounted.dropped.range⟩, accounted.ordered,
    nofun, nofun, fun stopped => ?_⟩
  · unfold pending
    dsimp only
    rw [List.take_append_drop]
    exact placed partition
  · unfold pending
    dsimp only
    rw [totals, List.length_take, List.length_drop]
    simp only [List.length_nil]
    omega
  · exact nomatch polling.symm.trans (accounted.stopped stopped).1

theorem Accounted.performWrite (accounted : Accounted config state) {batch : List RawEnvelope}
    (writing : state.job = some (.write batch)) {clock : List (ℤ × ℤ)}
    (read : clock.length = batch.length) (now : ℤ) :
    Accounted config (state.performJob config clock now (.write batch)) := by
  obtain ⟨distinct, grown⟩ :=
    ArchiveWriters.writeBatch_spec accounted.distinct (batch.zip clock)
  have items : (batch.zip clock).map Prod.fst = batch := List.map_fst_zip read.ge
  have own : state.pending = batch := by
    unfold pending
    rw [writing]
  have totals := accounted.totals
  have placed := accounted.placed
  rw [own] at totals placed
  refine ⟨distinct, fun partition => ?_, ?_, ⟨accounted.dropped.total, accounted.dropped.range⟩, accounted.ordered, fun _ => rfl,
    accounted.ended, fun stopped => ?_⟩
  · change (state.archive.writeBatch config (batch.zip clock)).stored partition ++
      state.queue.filter _ = _
    rw [grown partition, items, List.append_assoc, ← List.filter_append]
    exact placed partition
  · change state.stats.enqueuedTotal = state.stats.persistedTotal + batch.length + 0 +
      state.queue.length
    omega
  · exact nomatch writing.symm.trans (accounted.stopped stopped).2.1

theorem Accounted.performFlush (accounted : Accounted config state)
    (flushing : state.job = some .flush) (clock : List (ℤ × ℤ)) (now : ℤ) :
    Accounted config (state.performJob config clock now .flush) := by
  obtain ⟨distinct, kept⟩ :=
    ArchiveWriters.flushAll_spec accounted.distinct now
  have none : state.pending = [] := by
    unfold pending
    rw [flushing]
  have totals := accounted.totals
  have placed := accounted.placed
  rw [none] at totals placed
  refine ⟨distinct, fun partition => ?_, totals, ⟨accounted.dropped.total, accounted.dropped.range⟩, accounted.ordered,
    fun _ => rfl, accounted.ended, fun stopped => ?_⟩
  · change (state.archive.flushAll config now).stored partition ++ state.queue.filter _ = _
    rw [kept partition]
    exact placed partition
  · exact nomatch flushing.symm.trans (accounted.stopped stopped).2.1

/-- A worker that has nothing in hand changes its place. -/
theorem Accounted.moved (accounted : Accounted config state) {worker : WorkerState}
    {job : Option ArchiveJob} {stopping : Bool}
    (same : ({ state with job := job } : RawArchive).pending = state.pending)
    (polling : worker = .polling → job = none) (ended : worker = .ended → state.queue = [])
    (running : state.stopped → worker = .ended ∧ job = none) :
    Accounted config { state with worker := worker, job := job, stopping := stopping } where
  distinct := accounted.distinct
  placed := by
    intro partition
    have placed := accounted.placed partition
    rw [← same] at placed
    exact placed
  totals := by
    have totals := accounted.totals
    rw [← same] at totals
    exact totals
  dropped := ⟨accounted.dropped.total, accounted.dropped.range⟩
  ordered := accounted.ordered
  polling := polling
  ended := ended
  stopped stopped :=
    ⟨(running stopped).1, (running stopped).2, (accounted.stopped stopped).2.2⟩

theorem Accounted.closeAll (accounted : Accounted config state) (ended : state.worker = .ended)
    (idle : state.job = none) :
    Accounted config { state with archive := state.archive.closeAll, stopped := true } := by
  refine ⟨List.nodup_nil, fun partition => ?_, accounted.totals,
    ⟨accounted.dropped.total, accounted.dropped.range⟩, accounted.ordered, accounted.polling, accounted.ended, fun _ => ⟨ended, idle, rfl⟩⟩
  have closed : state.archive.closeAll.stored partition = state.archive.stored partition := by
    unfold ArchiveWriters.stored
    rw [ArchiveWriters.closeAll_filed]
    exact List.append_nil _
  change state.archive.closeAll.stored partition ++ _ = _
  rw [closed]
  exact accounted.placed partition

theorem step_accounted (accounted : Accounted config state) {action : ArchiveAction}
    {after : RawArchive} (drains : state.Drains config action)
    (stepped : state.step config action = some after) : Accounted config after := by
  unfold step at stepped
  cases action with
  | enqueue envelope =>
    cases stepped
    exact accounted.enqueue drains
  | takeBatch count =>
    dsimp only at stepped
    split at stepped
    · next ready =>
      cases stepped
      exact accounted.takeBatch ready.1 count
    · cases stepped
  | timeout =>
    dsimp only at stepped
    split at stepped
    · next polling =>
      cases stepped
      have same : ({ state with job := some .flush } : RawArchive).pending = state.pending := by
        unfold pending
        rw [accounted.polling polling]
      exact accounted.moved same nofun nofun
        fun stopped => nomatch polling.symm.trans (accounted.stopped stopped).1
    · cases stepped
  | perform clock now =>
    dsimp only at stepped
    cases handed : state.job with
    | none =>
      rw [handed] at stepped
      cases stepped
    | some job =>
      rw [handed] at stepped
      cases job with
      | write batch =>
        dsimp only at stepped
        split at stepped
        · next read =>
          cases stepped
          exact accounted.performWrite handed read now
        · cases stepped
      | flush =>
        cases stepped
        exact accounted.performFlush handed clock now
  | resume =>
    dsimp only at stepped
    split at stepped
    · next ready =>
      cases stepped
      exact accounted.moved rfl (fun _ => ready.2) nofun
        fun stopped => nomatch ready.1.symm.trans (accounted.stopped stopped).1
    · cases stepped
  | finish =>
    dsimp only at stepped
    split at stepped
    · next ready =>
      cases stepped
      exact accounted.moved rfl nofun (fun _ => ready.2.2)
        fun stopped => ⟨rfl, (accounted.stopped stopped).2.1⟩
    · cases stepped
  | stop =>
    dsimp only at stepped
    split at stepped
    · cases stepped
    · cases stepped
      exact accounted.moved rfl accounted.polling accounted.ended fun stopped =>
        ⟨(accounted.stopped stopped).1, (accounted.stopped stopped).2.1⟩
  | drainTimeout =>
    dsimp only at stepped
    split at stepped
    · cases stepped
      exact accounted.moved rfl nofun (fun _ => drains)
        fun stopped => ⟨rfl, (accounted.stopped stopped).2.1⟩
    · cases stepped
  | closeAll =>
    dsimp only at stepped
    split at stepped
    · next ready =>
      cases stepped
      exact accounted.closeAll ready.2.1 ready.2.2.1
    · cases stepped

/-- In every run whose queue is drained before the worker is cancelled and takes nothing after the
worker has ended, no envelope is lost silently once the archive has stopped. -/
theorem no_silent_loss {actions : List ArchiveAction}
    (run : Transition.Run (step config) (Drains config) init actions state)
    (stopped : state.stopped) : NoSilentLoss config state := by
  have accounted := run.invariant init_accounted fun _ _ _ drains stepped accounted =>
    step_accounted accounted drains stepped
  obtain ⟨ended, idle, closed⟩ := accounted.stopped stopped
  have drained := accounted.ended ended
  have none : state.pending = [] := by
    unfold pending
    rw [idle]
  refine ⟨fun partition => ?_, accounted.dropped, ?_, drained⟩
  · have placed := accounted.placed partition
    rw [none, drained] at placed
    have opened : state.archive.opened partition = [] := by
      unfold ArchiveWriters.opened
      rw [closed]
      rfl
    unfold ArchiveWriters.stored at placed
    rw [opened] at placed
    simpa using placed
  · have totals := accounted.totals
    rw [none, drained] at totals
    exact totals

/-! ## A drain that times out -/

def smallConfig : RawArchiveConfig where
  rawMaxEvents := 2
  writerBatchEvents := 1000
  rotateMinutes := 15
  rotateUncompressedMb := 128
  dateHour := fun _ => "date=2026-01-01/hour=00"

def frame (sequence : ℤ) (positive : 1 ≤ sequence) : RawEnvelope where
  collectorVersion := "1"
  runId := "run-1"
  connectionId := "connection-1"
  sequence := sequence
  source := .clobMarketWs
  stream := "market"
  receivedUtcNs := 1767225600000000000 + sequence
  receivedMonotonicNs := sequence
  payloadRaw := "PONG"
  sequence_pos := positive

/-- The worker is cancelled before it takes the envelope, which was accepted and is in no file. -/
theorem timeout_loses_silently : ∃ state,
    Transition.Run (step smallConfig) (fun _ _ => True) init
      [.enqueue (frame 1 (by decide)), .stop, .drainTimeout, .closeAll] state ∧
      state.stopped ∧ ¬ NoSilentLoss smallConfig state := by
  refine ⟨_, .cons trivial rfl <| .cons trivial rfl <| .cons trivial rfl <| .cons trivial rfl <|
    .nil _, rfl, fun kept => ?_⟩
  exact absurd kept.drained (by decide)

/-- A full queue drops one envelope, and the drained archive accounts for all three. -/
theorem drained_loses_nothing : ∃ state,
    Transition.Run (step smallConfig) (Drains smallConfig) init
      [.enqueue (frame 1 (by decide)), .enqueue (frame 2 (by decide)),
        .enqueue (frame 3 (by decide)), .takeBatch 2, .stop, .perform [(0, 0), (0, 0)] 0, .resume,
        .finish, .closeAll] state ∧
      NoSilentLoss smallConfig state := by
  have ran : Transition.Run (step smallConfig) (Drains smallConfig) init
      [.enqueue (frame 1 (by decide)), .enqueue (frame 2 (by decide)),
        .enqueue (frame 3 (by decide)), .takeBatch 2, .stop, .perform [(0, 0), (0, 0)] 0, .resume,
        .finish, .closeAll] _ :=
    .cons ⟨nofun, nofun⟩ rfl <| .cons ⟨nofun, nofun⟩ rfl <| .cons ⟨nofun, nofun⟩ rfl <|
    .cons trivial rfl <| .cons trivial rfl <| .cons trivial rfl <| .cons trivial rfl <|
    .cons trivial rfl <| .cons trivial rfl <| .nil _
  exact ⟨_, ran, no_silent_loss ran rfl⟩

end RawArchive

end PolymarketBt
