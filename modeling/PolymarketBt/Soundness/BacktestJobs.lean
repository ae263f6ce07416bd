import PolymarketBt.Model.BacktestJobs

/-! # The life of a backtest job

Whatever the interleaving of submissions, polls, the worker and a shutdown: jobs are run one at a
time, in the order in which they were dispatched and each at most once; a registered job that has not
ended is never forgotten; and a poll that reports an end carries the outcome of that end, although
the worker assigns the fields of the job without the lock. The worker alone brings every queued job
to its end.
-/

namespace PolymarketBt

open Transition

variable {Call JobId Report : Type*}

/-- What the fields of a job say about each other. -/
structure BacktestJob.Coherent (record : BacktestJob Report) : Prop where
  succeeded : record.state = .succeeded → record.result.isSome ∧ record.completed = record.total
  failed : record.state = .failed → record.error.isSome
  finished : record.finishedUtcNs.isSome → record.state.ended

/-- A job that has ended only receives its time of finishing. -/
def BacktestJob.Follows (before after : BacktestJob Report) : Prop :=
  before.state.ended → after = { before with finishedUtcNs := after.finishedUtcNs }

theorem BacktestJob.Follows.refl (record : BacktestJob Report) : record.Follows record :=
  fun _ => rfl

theorem BacktestJob.Follows.state {before after : BacktestJob Report} (follows : before.Follows after)
    (ended : before.state.ended) : after.state = before.state := by
  rw [follows ended]

/-- What the worker knows of its job. -/
def JobPhase.Fits (record : BacktestJob Report) : JobPhase → Prop
  | taken => record.state = .queued
  | begun | started | evaluating _ => record.state = .running
  | completed => record.state = .running ∧ record.completed = record.total
  | reported => record.state = .running ∧ record.completed = record.total ∧ record.result.isSome
  | raised => record.state = .running ∧ record.error.isSome
  | ended => record.state.ended

/-- The answer of a poll that reports an end carries its outcome, and an outcome is that of the
job. -/
structure JobSnapshot.Answers (snapshot : JobSnapshot Report) (record : BacktestJob Report) :
    Prop where
  succeeded : snapshot.state = .succeeded → snapshot.result.isSome
  failed : snapshot.state = .failed → snapshot.error.isSome
  result : ∀ result, snapshot.result = some result →
    record.state = .succeeded ∧ record.result = some result
  error : ∀ error, snapshot.error = some error →
    record.state = .failed ∧ record.error = some error

/-- What a call knows of the job it polls. -/
def ServiceCall.Reads (jobs : JobId → Option (BacktestJob Report)) : ServiceCall JobId Report → Prop
  | found job => (jobs job).isSome
  | reading job snapshot => ∃ record, jobs job = some record ∧
      (snapshot.state.ended → record.state = snapshot.state)
  | answered job snapshot => ∃ record, jobs job = some record ∧ snapshot.Answers record
  | _ => True

theorem JobSnapshot.Answers.follow {snapshot : JobSnapshot Report} {before after : BacktestJob Report}
    (answers : snapshot.Answers before) (follows : before.Follows after) : snapshot.Answers after where
  succeeded := answers.succeeded
  failed := answers.failed
  result result shown := by
    obtain ⟨state, kept⟩ := answers.result result shown
    rw [follows (by rw [state]; rfl)]
    exact ⟨state, kept⟩
  error error shown := by
    obtain ⟨state, kept⟩ := answers.error error shown
    rw [follows (by rw [state]; rfl)]
    exact ⟨state, kept⟩

theorem ServiceCall.Reads.follow {before after : JobId → Option (BacktestJob Report)}
    {phase : ServiceCall JobId Report} (reads : phase.Reads before)
    (follow : ∀ job record, before job = some record →
      ∃ later, after job = some later ∧ record.Follows later) : phase.Reads after := by
  cases phase with
  | found job =>
    obtain ⟨record, present⟩ := Option.isSome_iff_exists.mp reads
    obtain ⟨later, present, -⟩ := follow job record present
    exact Option.isSome_iff_exists.mpr ⟨later, present⟩
  | reading job snapshot =>
    obtain ⟨record, present, read⟩ := reads
    obtain ⟨later, present, follows⟩ := follow job record present
    refine ⟨later, present, fun ended => ?_⟩
    have same := read ended
    exact (follows.state (same ▸ ended)).trans same
  | answered job snapshot =>
    obtain ⟨record, present, answers⟩ := reads
    obtain ⟨later, present, follows⟩ := follow job record present
    exact ⟨later, present, answers.follow follows⟩
  | _ => trivial

namespace BacktestService

variable [DecidableEq Call] [DecidableEq JobId] {service next : BacktestService Call JobId Report}
  {call : Call} {job : JobId}

/-- What holds in every state of every run. -/
structure Accounted (service : BacktestService Call JobId Report) : Prop where
  coherent : ∀ job record, service.jobs job = some record → record.Coherent
  untaken : ∀ job record, service.jobs job = some record → job ∉ service.taken →
    record.state = .queued
  worker : ∀ job phase, service.worker = some (job, phase) →
    job ∈ service.taken ∧ ∃ record, service.jobs job = some record ∧ phase.Fits record
  done : ∀ job ∈ service.taken, (∀ phase, service.worker ≠ some (job, phase)) →
    ∃ record, service.jobs job = some record ∧ record.finishedUtcNs.isSome
  fifo : ∃ cancelled, service.dispatched = service.taken ++ service.queue ++ cancelled ∧
    (service.closed = false → cancelled = [])
  once : service.dispatched.Nodup
  registered : ∀ job ∈ service.dispatched, job ∈ service.registered
  known : ∀ job ∈ service.registered, (service.jobs job).isSome
  retained : ∀ job ∈ service.retained, job ∈ service.registered
  pending : ∀ call job, (service.calls call).pending = some job →
    (service.jobs job).isSome ∧ job ∉ service.dispatched ∧
      ∀ other, (service.calls other).pending = some job → other = call
  submitted : ∀ call job, service.calls call = .registered job → job ∈ service.registered
  active : ∀ job ∈ service.registered, ∀ record, service.jobs job = some record →
    record.state.ended = false → job ∈ service.retained
  reads : ∀ call, (service.calls call).Reads service.jobs

/-- What holds of every state of every run, as a client and an operator see it. -/
structure Sound (service : BacktestService Call JobId Report) : Prop where
  /-- Jobs are run one at a time. -/
  single : ∀ job record, service.jobs job = some record → record.state = .running →
    ∃ phase, service.worker = some (job, phase)
  /-- They are taken in the order in which they were dispatched, and none is lost before a
  shutdown. -/
  fifo : ∃ cancelled, service.dispatched = service.taken ++ service.queue ++ cancelled ∧
    (service.closed = false → cancelled = [])
  once : service.taken.Nodup
  outcome : ∀ job record, service.jobs job = some record → record.Coherent
  /-- A registered job that has not ended can be found. -/
  active : ∀ job ∈ service.registered, ∀ record, service.jobs job = some record →
    record.state.ended = false → job ∈ service.retained
  polled : ∀ call job snapshot, service.calls call = .answered job snapshot →
    ∃ record, service.jobs job = some record ∧ snapshot.Answers record

namespace Accounted

variable (accounted : Accounted service)

include accounted

omit [DecidableEq Call] [DecidableEq JobId] in
theorem sound : Sound service where
  single job record present running := by
    by_contra idle
    push Not at idle
    by_cases taken : job ∈ service.taken
    · obtain ⟨other, same, finished⟩ := accounted.done job taken idle
      obtain rfl := Option.some.inj (present.symm.trans same)
      have ended := (accounted.coherent job record present).finished finished
      rw [running] at ended
      exact absurd ended (by decide)
    · have queued := accounted.untaken job record present taken
      rw [running] at queued
      exact absurd queued (by decide)
  fifo := accounted.fifo
  once := by
    obtain ⟨cancelled, split, -⟩ := accounted.fifo
    exact (split ▸ accounted.once).of_append_left.of_append_left
  outcome := accounted.coherent
  active := accounted.active
  polled call job snapshot answered := by
    have reads := accounted.reads call
    rwa [answered] at reads

omit [DecidableEq JobId] in
/-- A call moves on, within its submission or without one. -/
theorem goTo {phase : ServiceCall JobId Report} (reads : phase.Reads service.jobs)
    (pending : ∀ job, phase.pending = some job → (service.calls call).pending = some job)
    (submitted : ∀ job, phase = .registered job → job ∈ service.registered) :
    Accounted (service.goTo call phase) := by
  have others : ∀ other, other ≠ call →
      (service.goTo call phase).calls other = service.calls other :=
    fun other apart => Function.update_of_ne apart ..
  have own : (service.goTo call phase).calls call = phase := Function.update_self ..
  have earlier : ∀ other job, ((service.goTo call phase).calls other).pending = some job →
      (service.calls other).pending = some job := by
    intro other job held
    by_cases same : other = call
    · subst same
      exact pending job (own ▸ held)
    · exact others other same ▸ held
  refine { accounted with pending := ?_, submitted := ?_, reads := ?_ }
  · intro other job held
    obtain ⟨known, fresh, only⟩ := accounted.pending other job (earlier other job held)
    exact ⟨known, fresh, fun third held => only third (earlier third job held)⟩
  · intro other job at_registered
    by_cases same : other = call
    · subst same
      exact submitted job (own ▸ at_registered)
    · exact accounted.submitted other job (others other same ▸ at_registered)
  · intro other
    by_cases same : other = call
    · subst same
      exact own.symm ▸ reads
    · exact (others other same).symm ▸ accounted.reads other

omit [DecidableEq Call] [DecidableEq JobId] in
/-- The jobs change, each as it may, and the worker moves on. -/
theorem rejob {jobs : JobId → Option (BacktestJob Report)} {worker : Option (JobId × JobPhase)}
    (follow : ∀ job record, service.jobs job = some record →
      ∃ later, jobs job = some later ∧ record.Follows later)
    (coherent : ∀ job record, jobs job = some record → record.Coherent)
    (untaken : ∀ job record, jobs job = some record → job ∉ service.taken → record.state = .queued)
    (working : ∀ job phase, worker = some (job, phase) →
      job ∈ service.taken ∧ ∃ record, jobs job = some record ∧ phase.Fits record)
    (done : ∀ job ∈ service.taken, (∀ phase, worker ≠ some (job, phase)) →
      ∃ record, jobs job = some record ∧ record.finishedUtcNs.isSome) :
    Accounted { service with jobs := jobs, worker := worker } := by
  have known : ∀ job, (service.jobs job).isSome → (jobs job).isSome := by
    intro job present
    obtain ⟨record, present⟩ := Option.isSome_iff_exists.mp present
    obtain ⟨later, present, -⟩ := follow job record present
    exact Option.isSome_iff_exists.mpr ⟨later, present⟩
  exact {
    coherent := coherent
    untaken := untaken
    worker := working
    done := done
    fifo := accounted.fifo
    once := accounted.once
    registered := accounted.registered
    known := fun job member => known job (accounted.known job member)
    retained := accounted.retained
    pending := fun call job held =>
      have kept := accounted.pending call job held
      ⟨known job kept.1, kept.2⟩
    submitted := accounted.submitted
    active := by
      intro job member record present open_
      obtain ⟨before, earlier⟩ := Option.isSome_iff_exists.mp (accounted.known job member)
      obtain ⟨later, same, follows⟩ := follow job before earlier
      obtain rfl := Option.some.inj (present.symm.trans same)
      refine accounted.active job member before earlier (Bool.eq_false_iff.mpr fun ended => ?_)
      rw [follows.state ended, ended] at open_
      exact absurd open_ (by decide)
    reads := fun call => (accounted.reads call).follow follow }

omit [DecidableEq Call] in
/-- The worker assigns fields of its job, which has not ended or has just ended. -/
theorem assign {phase later : JobPhase} {change : BacktestJob Report → BacktestJob Report}
    (working : service.worker = some (job, phase))
    (changes : ∀ record, phase.Fits record → record.Coherent →
      (change record).Coherent ∧ later.Fits (change record) ∧ record.Follows (change record)) :
    Accounted ((service.assign job change).workOn job later) := by
  obtain ⟨taken, record, present, fits⟩ := accounted.worker job phase working
  obtain ⟨coherent, fit, follows⟩ := changes record fits (accounted.coherent job record present)
  have own : (Function.update service.jobs job ((service.jobs job).map change)) job =
      some (change record) := by simp [present]
  have others : ∀ other, other ≠ job →
      (Function.update service.jobs job ((service.jobs job).map change)) other =
        service.jobs other := fun other apart => Function.update_of_ne apart ..
  refine accounted.rejob ?_ ?_ ?_ ?_ ?_
  · intro other before present'
    by_cases same : other = job
    · subst same
      obtain rfl := Option.some.inj (present.symm.trans present')
      exact ⟨_, own, follows⟩
    · exact ⟨before, (others other same).trans present', .refl before⟩
  · intro other after present'
    by_cases same : other = job
    · subst same
      obtain rfl := Option.some.inj (own.symm.trans present')
      exact coherent
    · exact accounted.coherent other after ((others other same).symm.trans present')
  · intro other after present' waiting
    have apart : other ≠ job := fun same => waiting (same ▸ taken)
    exact accounted.untaken other after ((others other apart).symm.trans present') waiting
  · rintro _ _ ⟨⟩
    exact ⟨taken, _, own, fit⟩
  · intro other member idle
    have apart : other ≠ job := fun same => idle later (by rw [same])
    obtain ⟨after, present', finished⟩ := accounted.done other member fun third held => by
      rw [working] at held
      exact apart (congrArg Prod.fst (Option.some.inj held)).symm
    exact ⟨after, (others other apart).trans present', finished⟩

omit [DecidableEq Call] in
theorem finish {nowUtcNs : ℤ} (working : service.worker = some (job, .ended)) :
    Accounted { service.assign job ({ · with finishedUtcNs := some nowUtcNs }) with
      worker := none } := by
  obtain ⟨taken, record, present, fits⟩ := accounted.worker job .ended working
  have coherent := accounted.coherent job record present
  have assigned : Accounted ((service.assign job
      ({ · with finishedUtcNs := some nowUtcNs })).workOn job .ended) :=
    accounted.assign working fun record fits coherent =>
      ⟨⟨coherent.succeeded, coherent.failed, fun _ => fits⟩, fits, fun _ => rfl⟩
  refine assigned.rejob (fun job record present => ⟨record, present, .refl record⟩)
    assigned.coherent assigned.untaken (by simp) fun other member _ => ?_
  by_cases same : other = job
  · subst same
    exact ⟨{ record with finishedUtcNs := some nowUtcNs },
      by simp [BacktestService.assign, present], rfl⟩
  · refine assigned.done other member fun phase held => same ?_
    exact (congrArg Prod.fst (Option.some.inj held)).symm

omit [DecidableEq Call] [DecidableEq JobId] in
theorem take {later : List JobId} (idle : service.worker = none)
    (queue : service.queue = job :: later) :
    Accounted ({ service with queue := later, taken := service.taken ++ [job] }.workOn job
      .taken) := by
  obtain ⟨cancelled, split, kept⟩ := accounted.fifo
  have split' : service.dispatched = service.taken ++ [job] ++ later ++ cancelled := by
    rw [split, queue]
    simp
  have nodup := split' ▸ accounted.once
  have fresh : job ∉ service.taken := fun taken =>
    (List.nodup_append.mp nodup.of_append_left.of_append_left).2.2 job taken job
      (List.mem_singleton.mpr rfl) rfl
  have member : job ∈ service.dispatched := by rw [split']; simp
  obtain ⟨record, present⟩ := Option.isSome_iff_exists.mp
    (accounted.known job (accounted.registered job member))
  refine { accounted with untaken := ?_, worker := ?_, done := ?_, fifo := ⟨cancelled, split', kept⟩ }
  · exact fun other record present waiting =>
      accounted.untaken other record present fun taken => waiting (List.mem_append_left _ taken)
  · rintro _ _ ⟨⟩
    exact ⟨List.mem_append_right _ (List.mem_singleton.mpr rfl), record, present,
      accounted.untaken job record present fresh⟩
  · intro other taken away
    rcases List.mem_append.mp taken with earlier | new
    · exact accounted.done other earlier (by simp [idle])
    · obtain rfl := List.mem_singleton.mp new
      exact absurd rfl (away .taken)

/-! ### Submissions -/

theorem create {selected : ℕ} {nowUtcNs : ℤ} (fresh : service.jobs job = none) :
    Accounted ({ service with
      jobs := Function.update service.jobs job
        (some { createdUtcNs := nowUtcNs, total := selected }) }.goTo call (.created job)) := by
  have unknown : job ∉ service.registered := by
    intro member
    have known := accounted.known job member
    simp [fresh] at known
  have untaken : job ∉ service.taken := by
    obtain ⟨cancelled, split, -⟩ := accounted.fifo
    exact fun taken => unknown (accounted.registered job (split ▸ by simp [taken]))
  have others : ∀ other record, service.jobs other = some record → other ≠ job := by
    rintro other record present rfl
    rw [fresh] at present
    cases present
  have own : Function.update service.jobs job
      (some { createdUtcNs := nowUtcNs, total := selected }) job =
        some { createdUtcNs := nowUtcNs, total := selected } := Function.update_self ..
  have created : Accounted { service with
      jobs := Function.update service.jobs job
        (some { createdUtcNs := nowUtcNs, total := selected }) } := by
    refine accounted.rejob ?_ ?_ ?_ ?_ ?_
    · intro other record present
      exact ⟨record, (Function.update_of_ne (others other record present) ..).trans present,
        .refl record⟩
    · intro other record present
      by_cases same : other = job
      · subst same
        obtain rfl := Option.some.inj (own.symm.trans present)
        exact ⟨by simp, by simp, by simp⟩
      · exact accounted.coherent other record ((Function.update_of_ne same ..).symm.trans present)
    · intro other record present waiting
      by_cases same : other = job
      · subst same
        obtain rfl := Option.some.inj (own.symm.trans present)
        rfl
      · exact accounted.untaken other record
          ((Function.update_of_ne same ..).symm.trans present) waiting
    · intro other phase working
      obtain ⟨taken, record, present, fits⟩ := accounted.worker other phase working
      exact ⟨taken, record,
        (Function.update_of_ne (others other record present) ..).trans present, fits⟩
    · intro other member away
      obtain ⟨record, present, finished⟩ := accounted.done other member away
      exact ⟨record, (Function.update_of_ne (others other record present) ..).trans present,
        finished⟩
  have waiting : ∀ other, (service.calls other).pending ≠ some job := by
    intro other held
    have known := (accounted.pending other job held).1
    simp [fresh] at known
  have mine : (service.goTo call (.created job)).calls call = .created job := Function.update_self ..
  have apart : ∀ other, other ≠ call →
      (service.goTo call (.created job)).calls other = service.calls other :=
    fun other apart => Function.update_of_ne apart ..
  refine { created with pending := ?_, submitted := ?_, reads := ?_ }
  · intro other third held
    by_cases same : other = call
    · subst same
      obtain rfl : job = third :=
        Option.some.inj ((congrArg ServiceCall.pending mine).symm.trans held)
      refine ⟨by simp [BacktestService.goTo], fun member => unknown (accounted.registered job member),
        fun fourth held => ?_⟩
      by_contra away
      exact waiting fourth (apart fourth away ▸ held)
    · have earlier := apart other same ▸ held
      obtain ⟨known, fresh, only⟩ := created.pending other third earlier
      refine ⟨known, fresh, fun fourth held => ?_⟩
      by_cases again : fourth = call
      · subst again
        obtain rfl : job = third :=
          Option.some.inj ((congrArg ServiceCall.pending mine).symm.trans held)
        exact absurd earlier (waiting other)
      · exact only fourth (apart fourth again ▸ held)
  · intro other third at_registered
    by_cases same : other = call
    · subst same
      exact absurd (mine ▸ at_registered) (by simp)
    · exact accounted.submitted other third (apart other same ▸ at_registered)
  · intro other
    by_cases same : other = call
    · subst same
      exact mine.symm ▸ trivial
    · exact (apart other same).symm ▸ created.reads other

omit [DecidableEq Call] [DecidableEq JobId] in
/-- Jobs are forgotten only once they have ended. -/
theorem forget {retained : List JobId} (sub : ∀ job ∈ retained, job ∈ service.retained)
    (ended : ∀ job ∈ service.retained, job ∉ retained → service.ended job) :
    Accounted { service with retained := retained } := by
  refine { accounted with
    retained := fun job member => accounted.retained job (sub job member)
    active := fun job member record present open_ => ?_ }
  change service.jobs job = some record at present
  by_contra forgotten
  have gone := ended job (accounted.active job member record present open_) forgotten
  simp only [BacktestService.ended, present, open_] at gone
  exact absurd gone (by decide)

omit [DecidableEq Call] [DecidableEq JobId] in
theorem ended_of_outlived {nowUtcNs : ℤ} (outlived : service.outlived nowUtcNs job) :
    service.ended job := by
  unfold BacktestService.outlived at outlived
  split at outlived
  · next record present =>
    obtain ⟨time, finished, -⟩ := (Option.any_eq_true ..).mp outlived
    simp only [BacktestService.ended, present]
    exact (accounted.coherent job record present).finished (by simp [finished])
  · cases outlived

omit [DecidableEq JobId] in
theorem register (expired : service.calls call = .expired job) :
    Accounted ({ service with
      retained := service.retained ++ [job]
      lockedBy := none
      registered := service.registered ++ [job] }.goTo call (.registered job)) := by
  obtain ⟨known, fresh, only⟩ := accounted.pending call job (by rw [expired]; rfl)
  have registered : Accounted { service with
      retained := service.retained ++ [job]
      lockedBy := none
      registered := service.registered ++ [job] } :=
    { accounted with
      registered := fun other member => List.mem_append_left _ (accounted.registered other member)
      known := fun other member => by
        rcases List.mem_append.mp member with earlier | new
        · exact accounted.known other earlier
        · exact List.mem_singleton.mp new ▸ known
      retained := fun other member => by
        rcases List.mem_append.mp member with earlier | new
        · exact List.mem_append_left _ (accounted.retained other earlier)
        · exact List.mem_append_right _ new
      submitted := fun other third at_registered =>
        List.mem_append_left _ (accounted.submitted other third at_registered)
      active := fun other member record present open_ => by
        rcases List.mem_append.mp member with earlier | new
        · exact List.mem_append_left _ (accounted.active other earlier record present open_)
        · exact List.mem_append_right _ new }
  refine registered.goTo trivial (fun other held => ?_) fun other same => ?_
  · rw [expired]
    exact held
  · cases same
    simp

omit [DecidableEq JobId] in
theorem dispatch (at_registered : service.calls call = .registered job)
    (open_ : service.closed = false) :
    Accounted ({ service with
      queue := service.queue ++ [job]
      dispatched := service.dispatched ++ [job] }.goTo call (.accepted job)) := by
  obtain ⟨known, fresh, only⟩ := accounted.pending call job (by rw [at_registered]; rfl)
  obtain ⟨cancelled, split, kept⟩ := accounted.fifo
  have split' : service.dispatched ++ [job] = service.taken ++ (service.queue ++ [job]) ++ [] := by
    rw [split, kept open_]
    simp
  -- The submission lets go of its job before the executor has it.
  have released : Accounted (service.goTo call (.accepted job)) :=
    accounted.goTo trivial (fun other held => by cases held) fun other same => by cases same
  have held : ∀ other third, ((service.goTo call (.accepted job)).calls other).pending = some third →
      third ≠ job := by
    rintro other third pending rfl
    by_cases same : other = call
    · subst same
      have own : (service.goTo other (.accepted third)).calls other = .accepted third :=
        Function.update_self ..
      rw [own] at pending
      cases pending
    · have apart : (service.goTo call (.accepted third)).calls other = service.calls other :=
        Function.update_of_ne same ..
      exact same (only other (apart ▸ pending))
  exact { released with
    fifo := ⟨[], split', fun _ => rfl⟩
    once := List.nodup_append.mpr ⟨accounted.once, List.nodup_singleton _,
      fun other member third new same => fresh (List.mem_singleton.mp new ▸ same ▸ member)⟩
    registered := fun other member => by
      rcases List.mem_append.mp member with earlier | new
      · exact accounted.registered other earlier
      · exact List.mem_singleton.mp new ▸ accounted.submitted call job at_registered
    pending := fun other third pending => by
      obtain ⟨known, fresh, only⟩ := released.pending other third pending
      refine ⟨known, fun member => ?_, only⟩
      rcases List.mem_append.mp member with earlier | new
      · exact fresh earlier
      · exact held other third pending (List.mem_singleton.mp new) }

omit [DecidableEq Call] [DecidableEq JobId] in
theorem shutdown : Accounted { service with closed := true, queue := [] } := by
  obtain ⟨cancelled, split, -⟩ := accounted.fifo
  exact { accounted with fifo := ⟨service.queue ++ cancelled, by simp [split], by simp⟩ }

/-! ### Steps -/

theorem submitStep {action : ServiceAction Call JobId Report}
    (stepped : service.submitStep call action = some next) : Accounted next := by
  cases action with
  | refuse =>
    simp only [BacktestService.submitStep] at stepped
    split at stepped <;> cases stepped
    exact accounted.goTo trivial (by simp [ServiceCall.pending]) (by simp)
  | create _ job selected nowUtcNs =>
    simp only [BacktestService.submitStep] at stepped
    split at stepped
    · next fresh =>
      split at stepped <;> cases stepped
      exact accounted.create fresh
    · cases stepped
  | lock =>
    simp only [BacktestService.submitStep] at stepped
    split at stepped <;> cases stepped
    next job created _ =>
      have locked : Accounted { service with lockedBy := some call } := { accounted with }
      refine locked.goTo trivial (fun other held => ?_) (by simp)
      rw [created]
      exact held
  | expire _ nowUtcNs =>
    simp only [BacktestService.submitStep] at stepped
    split at stepped <;> cases stepped
    next job locked =>
      have expired : Accounted { service with
          retained := service.retained.filter (!service.outlived nowUtcNs ·) } := by
        refine accounted.forget (fun other member => List.mem_of_mem_filter member)
          fun other member gone => ?_
        have outlived : service.outlived nowUtcNs other := by
          by_contra young
          exact gone (List.mem_filter.mpr ⟨member, by simpa using young⟩)
        exact accounted.ended_of_outlived outlived
      refine expired.goTo trivial (fun other held => ?_) (by simp)
      rw [locked]
      exact held
  | shrink =>
    simp only [BacktestService.submitStep] at stepped
    split at stepped
    · split at stepped
      · split at stepped <;> cases stepped
        next oldest found =>
          refine accounted.forget (fun other member => List.mem_of_mem_erase member)
            fun other member gone => ?_
          by_cases same : other = oldest
          · exact same ▸ List.find?_some found
          · exact absurd ((List.mem_erase_of_ne same).mpr member) gone
      · cases stepped
    · cases stepped
  | register =>
    simp only [BacktestService.submitStep] at stepped
    split at stepped
    · split at stepped <;> cases stepped
      next expired _ => exact accounted.register expired
    · cases stepped
  | dispatch =>
    simp only [BacktestService.submitStep] at stepped
    split at stepped
    · next job at_registered =>
      split at stepped <;> cases stepped
      · exact accounted.goTo trivial (by simp [ServiceCall.pending]) (by simp)
      · next open_ => exact accounted.dispatch at_registered (Bool.eq_false_iff.mpr open_)
    · cases stepped
  | _ => cases stepped

theorem pollStep {action : ServiceAction Call JobId Report}
    (stepped : service.pollStep call action = some next) : Accounted next := by
  cases action with
  | find _ job =>
    simp only [BacktestService.pollStep] at stepped
    split at stepped <;> cases stepped
    split
    · next retained =>
      exact accounted.goTo (accounted.known job (accounted.retained job retained))
        (by simp [ServiceCall.pending]) (by simp)
    · exact accounted.goTo trivial (by simp [ServiceCall.pending]) (by simp)
  | readState =>
    simp only [BacktestService.pollStep] at stepped
    split at stepped
    · obtain ⟨record, present, rfl⟩ := Option.map_eq_some_iff.mp stepped
      exact accounted.goTo ⟨record, present, fun _ => rfl⟩ (by simp [ServiceCall.pending]) (by simp)
    · cases stepped
  | readOutcome =>
    simp only [BacktestService.pollStep] at stepped
    split at stepped
    · next job snapshot reading =>
      obtain ⟨record, present, rfl⟩ := Option.map_eq_some_iff.mp stepped
      have reads := accounted.reads call
      rw [reading] at reads
      obtain ⟨other, same, read⟩ := reads
      obtain rfl := Option.some.inj (present.symm.trans same)
      have coherent := accounted.coherent job record present
      refine accounted.goTo ⟨record, present, ⟨fun ended => ?_, fun ended => ?_, ?_, ?_⟩⟩
        (by simp [ServiceCall.pending]) (by simp)
      · have state : record.state = .succeeded := (read (by rw [ended]; rfl)).trans ended
        simpa [state] using (coherent.succeeded state).1
      · have state : record.state = .failed := (read (by rw [ended]; rfl)).trans ended
        simpa [state] using coherent.failed state
      · intro result shown
        change (if record.state = .succeeded then record.result else none) = some result at shown
        split at shown
        · next state => exact ⟨state, shown⟩
        · cases shown
      · intro error shown
        change (if record.state = .failed then record.error else none) = some error at shown
        split at shown
        · next state => exact ⟨state, shown⟩
        · cases shown
    · cases stepped
  | _ => cases stepped

omit [DecidableEq Call] in
theorem workerStep {action : ServiceAction Call JobId Report}
    (stepped : service.workerStep action = some next) : Accounted next := by
  -- An assignment by the worker while its job is running.
  have assign {job : JobId} {phase later : JobPhase}
      {change : BacktestJob Report → BacktestJob Report}
      (working : service.worker = some (job, phase))
      (changes : ∀ record, phase.Fits record → record.state.ended = false ∧
        (record.Coherent → (change record).Coherent ∧ later.Fits (change record))) :
      Accounted ((service.assign job change).workOn job later) :=
    accounted.assign working fun record fits coherent =>
      have changed := changes record fits
      ⟨(changed.2 coherent).1, (changed.2 coherent).2, fun ended => by simp [changed.1] at ended⟩
  cases action with
  | take =>
    simp only [BacktestService.workerStep] at stepped
    split at stepped <;> cases stepped
    next idle queue => exact accounted.take idle queue
  | begin =>
    simp only [BacktestService.workerStep] at stepped
    split at stepped <;> cases stepped
    next working =>
      refine assign working fun record queued => ⟨by rw [queued]; rfl, fun coherent => ?_⟩
      refine ⟨⟨by simp, by simp, fun finished => ?_⟩, rfl⟩
      have ended := coherent.finished finished
      rw [queued] at ended
      cases ended
  | start nowUtcNs =>
    simp only [BacktestService.workerStep] at stepped
    split at stepped <;> cases stepped
    next working =>
      exact assign working fun record running =>
        ⟨by rw [running]; rfl, fun coherent => ⟨⟨coherent.1, coherent.2, coherent.3⟩, running⟩⟩
  | select selected =>
    simp only [BacktestService.workerStep] at stepped
    split at stepped <;> cases stepped
    next job working =>
      obtain ⟨taken, fits⟩ := accounted.worker job .started working
      refine accounted.rejob (fun other record present => ⟨record, present, .refl record⟩)
        accounted.coherent accounted.untaken ?_ ?_
      · rintro _ _ ⟨⟩
        exact ⟨taken, fits⟩
      · intro other member away
        refine accounted.done other member fun phase held => ?_
        obtain rfl : job = other := congrArg Prod.fst (Option.some.inj (working.symm.trans held))
        exact away _ rfl
  | advance =>
    simp only [BacktestService.workerStep] at stepped
    split at stepped <;> cases stepped
    next working =>
      refine assign working fun record running => ⟨by rw [running]; rfl, fun coherent => ?_⟩
      refine ⟨⟨fun state => ?_, coherent.failed, coherent.finished⟩, running⟩
      exact absurd (running.symm.trans state) (by decide)
  | complete =>
    simp only [BacktestService.workerStep] at stepped
    split at stepped <;> cases stepped
    next working =>
      refine assign working fun record running => ⟨by rw [running]; rfl, fun coherent => ?_⟩
      exact ⟨⟨fun state => ⟨(coherent.succeeded state).1, rfl⟩, coherent.failed, coherent.finished⟩,
        running, rfl⟩
  | report result =>
    simp only [BacktestService.workerStep] at stepped
    split at stepped <;> cases stepped
    next working =>
      refine assign working fun record fits => ⟨by rw [fits.1]; rfl, fun coherent => ?_⟩
      exact ⟨⟨fun _ => ⟨rfl, fits.2⟩, coherent.failed, coherent.finished⟩, fits.1, fits.2, rfl⟩
  | succeed =>
    simp only [BacktestService.workerStep] at stepped
    split at stepped <;> cases stepped
    next working =>
      refine assign working fun record fits => ⟨by rw [fits.1]; rfl, fun coherent => ?_⟩
      exact ⟨⟨fun _ => ⟨fits.2.2, fits.2.1⟩, by simp, fun _ => rfl⟩, rfl⟩
  | raise error =>
    simp only [BacktestService.workerStep] at stepped
    split at stepped <;> cases stepped
    · next working =>
      exact assign working fun record running => ⟨by rw [running]; rfl, fun coherent =>
        ⟨⟨coherent.succeeded, fun _ => rfl, coherent.finished⟩, running, rfl⟩⟩
    · next working =>
      exact assign working fun record running => ⟨by rw [running]; rfl, fun coherent =>
        ⟨⟨coherent.succeeded, fun _ => rfl, coherent.finished⟩, running, rfl⟩⟩
    · next working =>
      exact assign working fun record fits => ⟨by rw [fits.1]; rfl, fun coherent =>
        ⟨⟨coherent.succeeded, fun _ => rfl, coherent.finished⟩, fits.1, rfl⟩⟩
  | fail =>
    simp only [BacktestService.workerStep] at stepped
    split at stepped <;> cases stepped
    next working =>
      exact assign working fun record fits => ⟨by rw [fits.1]; rfl, fun coherent =>
        ⟨⟨by simp, fun _ => fits.2, fun _ => rfl⟩, rfl⟩⟩
  | finish nowUtcNs =>
    simp only [BacktestService.workerStep] at stepped
    split at stepped <;> cases stepped
    next working => exact accounted.finish working
  | _ => cases stepped

theorem step {action : ServiceAction Call JobId Report}
    (stepped : service.step action = some next) : Accounted next := by
  cases action with
  | refuse | create | lock | expire | shrink | register | dispatch =>
    simp only [BacktestService.step] at stepped
    exact accounted.submitStep stepped
  | find | readState | readOutcome =>
    simp only [BacktestService.step] at stepped
    exact accounted.pollStep stepped
  | shutdown =>
    cases stepped
    exact accounted.shutdown
  | _ =>
    simp only [BacktestService.step] at stepped
    exact accounted.workerStep stepped

end Accounted

omit [DecidableEq Call] [DecidableEq JobId] in
theorem accounted_init : Accounted (init Call JobId Report) where
  coherent _ _ present := by cases present
  untaken _ _ present := by cases present
  worker _ _ working := by cases working
  done _ member := by cases member
  fifo := ⟨[], rfl, fun _ => rfl⟩
  once := List.nodup_nil
  registered _ member := by cases member
  known _ member := by cases member
  retained _ member := by cases member
  pending _ _ held := by cases held
  submitted _ _ at_registered := by cases at_registered
  active _ member := by cases member
  reads _ := trivial

theorem accounted_of_run {allowed : BacktestService Call JobId Report →
      ServiceAction Call JobId Report → Prop} {actions : List (ServiceAction Call JobId Report)}
    (run : Run step allowed (init Call JobId Report) actions service) : Accounted service :=
  run.invariant accounted_init fun _ _ _ _ stepped accounted => accounted.step stepped

/-- In every run jobs are executed one at a time, in the order of their dispatch and at most once, a
registered job that has not ended is retained, and a poll that reports an end answers with its
outcome. -/
theorem backtestService_sound (actions : List (ServiceAction Call JobId Report))
    (final : BacktestService Call JobId Report)
    (run : Run step (fun _ _ => True) (init Call JobId Report) actions final) : Sound final :=
  (accounted_of_run run).sound

/-! ## Progress -/

/-- The actions of the worker. -/
def byWorker : ServiceAction Call JobId Report → Bool
  | .take | .begin | .start _ | .select _ | .advance | .complete | .report _ | .succeed | .raise _
  | .fail | .finish _ => true
  | _ => false

/-- The worker alone comes to the end of its run. -/
def Finishes (service : BacktestService Call JobId Report) : Prop :=
  ∃ actions next, Run step (fun _ action => byWorker action) service actions next ∧
    next.worker = none ∧ next.queue = service.queue ∧ next.taken = service.taken

theorem Finishes.of_step {action : ServiceAction Call JobId Report} (finishes : Finishes next)
    (own : byWorker action) (stepped : service.step action = some next)
    (queue : next.queue = service.queue) (taken : next.taken = service.taken) :
    Finishes service := by
  obtain ⟨actions, final, run, idle, queue', taken'⟩ := finishes
  exact ⟨action :: actions, final, .cons own stepped run, idle, queue'.trans queue,
    taken'.trans taken⟩

theorem finishes_of_ended (working : service.worker = some (job, .ended)) : Finishes service := by
  have stepped : service.step (.finish 0) = some { service.assign job
      ({ · with finishedUtcNs := some 0 }) with worker := none } := by
    simp only [step, workerStep, working]
  exact ⟨_, _, .cons rfl stepped (.nil _), rfl, rfl, rfl⟩

theorem finishes_of_raised (working : service.worker = some (job, .raised)) : Finishes service := by
  have stepped : service.step .fail =
      some ((service.assign job ({ · with state := .failed })).workOn job .ended) := by
    simp only [step, workerStep, working]
  exact .of_step (finishes_of_ended rfl) rfl stepped rfl rfl

/-- Every exception of an evaluation is caught. -/
theorem finishes_of_raise {phase : JobPhase} (working : service.worker = some (job, phase))
    (raises : phase = .started ∨ (∃ left, phase = .evaluating left) ∨ phase = .completed) :
    Finishes service := by
  have stepped : service.step (.raise "") =
      some ((service.assign job ({ · with error := some "" })).workOn job .raised) := by
    rcases raises with rfl | ⟨left, rfl⟩ | rfl <;> simp only [step, workerStep, working]
  exact .of_step (finishes_of_raised rfl) rfl stepped rfl rfl

/-- The worker is never stuck in a run, wherever it is. -/
theorem finishes {phase : JobPhase} (working : service.worker = some (job, phase)) :
    Finishes service := by
  have begun {service : BacktestService Call JobId Report}
      (working : service.worker = some (job, .begun)) : Finishes service := by
    have stepped : service.step (.start 0) =
        some ((service.assign job ({ · with startedUtcNs := some 0 })).workOn job .started) := by
      simp only [step, workerStep, working]
    exact .of_step (finishes_of_raise rfl (.inl rfl)) rfl stepped rfl rfl
  cases phase with
  | taken =>
    have stepped : service.step .begin =
        some ((service.assign job ({ · with state := .running })).workOn job .begun) := by
      simp only [step, workerStep, working]
    exact .of_step (begun rfl) rfl stepped rfl rfl
  | begun => exact begun working
  | started => exact finishes_of_raise working (.inl rfl)
  | evaluating left => exact finishes_of_raise working (.inr (.inl ⟨left, rfl⟩))
  | completed => exact finishes_of_raise working (.inr (.inr rfl))
  | reported =>
    have stepped : service.step .succeed =
        some ((service.assign job ({ · with state := .succeeded })).workOn job .ended) := by
      simp only [step, workerStep, working]
    exact .of_step (finishes_of_ended rfl) rfl stepped rfl rfl
  | raised => exact finishes_of_raised working
  | ended => exact finishes_of_ended working

/-- The worker alone empties the queue. -/
theorem drains_idle (idle : service.worker = none) :
    ∃ actions final, Run step (fun _ action => byWorker action) service actions final ∧
      final.worker = none ∧ final.queue = [] ∧ final.taken = service.taken ++ service.queue := by
  generalize waiting : service.queue = queue
  induction queue generalizing service with
  | nil => exact ⟨[], service, .nil _, idle, waiting, by simp⟩
  | cons job later ih =>
    have stepped : service.step .take = some ({ service with
        queue := later
        taken := service.taken ++ [job] }.workOn job .taken) := by
      simp only [step, workerStep, idle, waiting]
    obtain ⟨actions, middle, run, idle, queue, taken⟩ : Finishes ({ service with
        queue := later
        taken := service.taken ++ [job] }.workOn job .taken) := finishes rfl
    obtain ⟨others, final, run', idle, empty, taken'⟩ := ih idle queue
    refine ⟨.take :: (actions ++ others), final,
      .cons rfl stepped (Run.append_iff.mpr ⟨middle, run, run'⟩), idle, empty, ?_⟩
    rw [taken', taken]
    exact List.append_assoc service.taken [job] later

/-- Two submissions and a poll; the second is registered and dispatched while the first runs, and the
poll of the first spans its progress. -/
def twoSubmissions : List (ServiceAction ℕ String Unit) :=
  [.create 0 "a" 2 5, .lock 0, .expire 0 6, .register 0, .dispatch 0, .take, .begin, .start 7,
    .create 1 "b" 1 8, .find 2 "a", .readState 2, .select 2, .advance, .lock 1, .expire 1 9,
    .register 1, .advance, .complete, .dispatch 1, .report (), .readOutcome 2, .succeed, .finish 10]

theorem backtestService_sound_twice :
    ∃ final : BacktestService ℕ String Unit,
      Run step (fun _ _ => True) (init ℕ String Unit) twoSubmissions final ∧ Sound final ∧
        final.taken = ["a"] ∧ final.queue = ["b"] := by
  obtain ⟨final, performed, taken, queue⟩ : ∃ final,
      twoSubmissions.foldlM step (init ℕ String Unit) = some final ∧
        final.taken = ["a"] ∧ final.queue = ["b"] := ⟨_, rfl, rfl, rfl⟩
  have run := Run.of_foldlM performed
  exact ⟨final, run, backtestService_sound _ _ run, taken, queue⟩

end BacktestService

end PolymarketBt
