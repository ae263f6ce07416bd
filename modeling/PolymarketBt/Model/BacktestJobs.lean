import Mathlib.Logic.Function.Basic
import PolymarketBt.Machine.Transition

/-! # Jobs of the backtest service

A submission creates a job, registers it under the lock of the jobs after pruning the old ones, and
hands it to an executor with a single worker. A poll finds its job under the same lock and then reads
its fields, while the worker assigns them one at a time without that lock. Every section that holds
the lock, every pass of a pruning loop, every assignment and every pair of reads is one step, and the
steps of calls, of the worker and of a shutdown interleave. What the requests ask and what the runs
report is left abstract. The lists of registered, dispatched and taken jobs are not kept by the code.
-/

namespace PolymarketBt

def maxRetainedJobs : ℕ := 64
def jobTtlNs : ℤ := 3600 * 1000000000

inductive JobState where
  | queued
  | running
  | succeeded
  | failed
deriving DecidableEq, Repr

def JobState.ended : JobState → Bool
  | succeeded | failed => true
  | queued | running => false

/-- One submitted run and everything a poller needs to render it. -/
structure BacktestJob (Report : Type*) where
  createdUtcNs : ℤ
  total : ℕ
  state : JobState := .queued
  completed : ℕ := 0
  startedUtcNs : Option ℤ := none
  finishedUtcNs : Option ℤ := none
  result : Option Report := none
  error : Option String := none
deriving DecidableEq, Repr

/-- What a poll answers: the state and the progress of its first reads, and the outcome that the
state at its last reads adds. -/
structure JobSnapshot (Report : Type*) where
  state : JobState
  totalEpisodes : ℕ
  completedEpisodes : ℕ
  result : Option Report := none
  error : Option String := none
deriving DecidableEq, Repr

/-- Where a call of `submit` or of `job` is. -/
inductive ServiceCall (JobId Report : Type*) where
  | idle
  /-- Nothing is selected, or the request is invalid. -/
  | refused
  | created (job : JobId)
  | locked (job : JobId)
  | expired (job : JobId)
  | registered (job : JobId)
  | accepted (job : JobId)
  /-- The executor takes no more jobs. -/
  | rejected (job : JobId)
  | unknown
  | found (job : JobId)
  | reading (job : JobId) (snapshot : JobSnapshot Report)
  | answered (job : JobId) (snapshot : JobSnapshot Report)
deriving DecidableEq, Repr

/-- The job a submission has not handed to the executor yet. -/
def ServiceCall.pending {JobId Report : Type*} : ServiceCall JobId Report → Option JobId
  | created job | locked job | expired job | registered job => some job
  | _ => none

/-- Where the worker is in a run. -/
inductive JobPhase where
  | taken
  | begun
  | started
  | evaluating (left : ℕ)
  | completed
  | reported
  | raised
  | ended
deriving DecidableEq, Repr

inductive ServiceAction (Call JobId Report : Type*) where
  | refuse (call : Call)
  | create (call : Call) (job : JobId) (selected : ℕ) (nowUtcNs : ℤ)
  | lock (call : Call)
  | expire (call : Call) (nowUtcNs : ℤ)
  | shrink (call : Call)
  | register (call : Call)
  | dispatch (call : Call)
  | find (call : Call) (job : JobId)
  | readState (call : Call)
  | readOutcome (call : Call)
  | take
  | begin
  | start (nowUtcNs : ℤ)
  /-- The selection is made again: the index may have changed since the submission. -/
  | select (selected : ℕ)
  | advance
  /-- The evaluation ends, early when a compounded balance has run out. -/
  | complete
  | report (result : Report)
  | succeed
  | raise (error : String)
  | fail
  | finish (nowUtcNs : ℤ)
  | shutdown
deriving DecidableEq, Repr

/-- The jobs by their identifiers, the retained ones in order of registration, and the executor. -/
structure BacktestService (Call JobId Report : Type*) where
  jobs : JobId → Option (BacktestJob Report)
  retained : List JobId
  lockedBy : Option Call
  calls : Call → ServiceCall JobId Report
  queue : List JobId
  worker : Option (JobId × JobPhase)
  closed : Bool
  registered : List JobId
  dispatched : List JobId
  taken : List JobId

namespace BacktestService

variable {Call JobId Report : Type*}

def init (Call JobId Report : Type*) : BacktestService Call JobId Report :=
  ⟨fun _ => none, [], none, fun _ => .idle, [], none, false, [], [], []⟩

variable [DecidableEq Call] [DecidableEq JobId] (service : BacktestService Call JobId Report)

def goTo (call : Call) (phase : ServiceCall JobId Report) : BacktestService Call JobId Report :=
  { service with calls := Function.update service.calls call phase }

/-- Assigns fields of a job, by reference: also of one that is no longer retained. -/
def assign (job : JobId) (change : BacktestJob Report → BacktestJob Report) :
    BacktestService Call JobId Report :=
  { service with jobs := Function.update service.jobs job ((service.jobs job).map change) }

def workOn (job : JobId) (phase : JobPhase) : BacktestService Call JobId Report :=
  { service with worker := some (job, phase) }

omit [DecidableEq Call] [DecidableEq JobId] in
/-- The job has been finished for longer than its time to live. -/
def outlived (nowUtcNs : ℤ) (job : JobId) : Bool :=
  match service.jobs job with
  | some record => record.finishedUtcNs.any (· < nowUtcNs - jobTtlNs)
  | none => false

omit [DecidableEq Call] [DecidableEq JobId] in
def ended (job : JobId) : Bool :=
  match service.jobs job with
  | some record => record.state.ended
  | none => false

/-- A step of a submission. -/
def submitStep (call : Call) :
    ServiceAction Call JobId Report → Option (BacktestService Call JobId Report)
  | .refuse _ =>
    match service.calls call with
    | .idle => some (service.goTo call .refused)
    | _ => none
  | .create _ job selected nowUtcNs =>
    match service.calls call, service.jobs job with
    | .idle, none =>
      if selected = 0 then none
      else
        let record : BacktestJob Report := { createdUtcNs := nowUtcNs, total := selected }
        some ({ service with jobs := Function.update service.jobs job (some record) }.goTo call
          (.created job))
    | _, _ => none
  | .lock _ =>
    match service.calls call, service.lockedBy with
    | .created job, none => some ({ service with lockedBy := some call }.goTo call (.locked job))
    | _, _ => none
  | .expire _ nowUtcNs =>
    match service.calls call with
    | .locked job =>
      some ({ service with
          retained := service.retained.filter (!service.outlived nowUtcNs ·) }.goTo call
            (.expired job))
    | _ => none
  | .shrink _ =>
    match service.calls call with
    | .expired _ =>
      if maxRetainedJobs < service.retained.length then
        match service.retained.find? service.ended with
        | some oldest => some { service with retained := service.retained.erase oldest }
        | none => none
      else none
    | _ => none
  | .register _ =>
    match service.calls call with
    | .expired job =>
      if service.retained.length ≤ maxRetainedJobs ∨ ¬service.retained.any service.ended then
        some ({ service with
            retained := service.retained ++ [job]
            lockedBy := none
            registered := service.registered ++ [job] }.goTo call (.registered job))
      else none
    | _ => none
  | .dispatch _ =>
    match service.calls call with
    | .registered job =>
      if service.closed then some (service.goTo call (.rejected job))
      else
        some ({ service with
            queue := service.queue ++ [job]
            dispatched := service.dispatched ++ [job] }.goTo call (.accepted job))
    | _ => none
  | _ => none

/-- A step of a poll. -/
def pollStep (call : Call) :
    ServiceAction Call JobId Report → Option (BacktestService Call JobId Report)
  | .find _ job =>
    match service.calls call, service.lockedBy with
    | .idle, none =>
      some (service.goTo call (if job ∈ service.retained then .found job else .unknown))
    | _, _ => none
  | .readState _ =>
    match service.calls call with
    | .found job =>
      (service.jobs job).map fun record =>
        service.goTo call (.reading job
          { state := record.state
            totalEpisodes := record.total
            completedEpisodes := record.completed })
    | _ => none
  | .readOutcome _ =>
    match service.calls call with
    | .reading job snapshot =>
      (service.jobs job).map fun record =>
        service.goTo call (.answered job
          { snapshot with
            result := if record.state = .succeeded then record.result else none
            error := if record.state = .failed then record.error else none })
    | _ => none
  | _ => none

omit [DecidableEq Call] in
/-- A step of the worker. -/
def workerStep : ServiceAction Call JobId Report → Option (BacktestService Call JobId Report)
  | .take =>
    match service.worker, service.queue with
    | none, job :: later =>
      some ({ service with queue := later, taken := service.taken ++ [job] }.workOn job .taken)
    | _, _ => none
  | .begin =>
    match service.worker with
    | some (job, .taken) =>
      some ((service.assign job ({ · with state := .running })).workOn job .begun)
    | _ => none
  | .start nowUtcNs =>
    match service.worker with
    | some (job, .begun) =>
      some ((service.assign job ({ · with startedUtcNs := some nowUtcNs })).workOn job .started)
    | _ => none
  | .select selected =>
    match service.worker with
    | some (job, .started) => some (service.workOn job (.evaluating selected))
    | _ => none
  | .advance =>
    match service.worker with
    | some (job, .evaluating (left + 1)) =>
      some ((service.assign job fun record =>
        { record with completed := record.completed + 1 }).workOn job (.evaluating left))
    | _ => none
  | .complete =>
    match service.worker with
    | some (job, .evaluating _) =>
      some ((service.assign job fun record =>
        { record with completed := record.total }).workOn job .completed)
    | _ => none
  | .report result =>
    match service.worker with
    | some (job, .completed) =>
      some ((service.assign job ({ · with result := some result })).workOn job .reported)
    | _ => none
  | .succeed =>
    match service.worker with
    | some (job, .reported) =>
      some ((service.assign job ({ · with state := .succeeded })).workOn job .ended)
    | _ => none
  | .raise error =>
    match service.worker with
    | some (job, .started) | some (job, .evaluating _) | some (job, .completed) =>
      some ((service.assign job ({ · with error := some error })).workOn job .raised)
    | _ => none
  | .fail =>
    match service.worker with
    | some (job, .raised) =>
      some ((service.assign job ({ · with state := .failed })).workOn job .ended)
    | _ => none
  | .finish nowUtcNs =>
    match service.worker with
    | some (job, .ended) =>
      some { service.assign job ({ · with finishedUtcNs := some nowUtcNs }) with worker := none }
    | _ => none
  | _ => none

def step (service : BacktestService Call JobId Report) (action : ServiceAction Call JobId Report) :
    Option (BacktestService Call JobId Report) :=
  match action with
  | .refuse call | .create call .. | .lock call | .expire call _ | .shrink call | .register call
  | .dispatch call => service.submitStep call action
  | .find call _ | .readState call | .readOutcome call => service.pollStep call action
  | .shutdown => some { service with closed := true, queue := [] }
  | _ => service.workerStep action

end BacktestService

end PolymarketBt
