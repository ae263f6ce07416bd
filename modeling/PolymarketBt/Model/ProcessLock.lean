import Mathlib.Logic.Function.Basic
import PolymarketBt.Machine.Transition

/-! # The collector's lock file

A collector takes the lock by creating a file exclusively and writing its record into it. A file
that is already there is read and its process probed, and what looks stale is moved aside first.
Releasing reads the file back and removes it if it names the run. Each of these file system calls is
one step of its process, steps of different processes interleave, and a process can end at any point.
-/

namespace PolymarketBt

/-- What reading a lock file yields, as far as `acquire` and `release` tell contents apart. -/
inductive LockContents where
  /-- An object with a number for `pid`, and `run_id` where that is a text. -/
  | record (pid : ℤ) (runId : Option String)
  /-- An object without `pid`, or with one that is not a number. -/
  | noPid (runId : Option String)
  /-- An object whose `pid` cannot be converted to a number at all. -/
  | oddPid (runId : Option String)
  | notObject
  /-- No JSON text, as the file is from its creation until it is written. -/
  | notJson
  | notText
deriving DecidableEq, Repr

def LockContents.runId : LockContents → Option String
  | record _ runId => runId
  | noPid runId => runId
  | oddPid runId => runId
  | notObject => none
  | notJson => none
  | notText => none

/-- Where a process is; the file of a phase is the one that it has created itself. -/
inductive LockPhase where
  | idle
  | reading
  | probing (pid : ℤ)
  | replacing
  | creating
  | created (file : ℕ)
  | held (file : ℕ)
  | comparing (file : ℕ) (contents : LockContents)
  | unlinking (file : ℕ)
  | crashed
deriving DecidableEq, Repr

/-- What the probe of a process returns or raises. -/
inductive ProbeOutcome where
  | alive
  | noProcess
  | denied
  | overflow
deriving DecidableEq, Repr

inductive LockAction where
  | checkExists
  | read
  | probe (outcome : ProbeOutcome)
  | replace
  | create
  | write (succeeds : Bool)
  | readBack
  | compare
  | unlink
  | crash
deriving DecidableEq, Repr

/-- The process identifier, the run and the user of every process. -/
structure Collectors (Process : Type*) where
  pid : Process → ℤ
  runId : Process → String
  user : Process → ℕ

/-- The file at the lock's path, the contents of all files, and the phase of every process. -/
structure LockState (Process : Type*) where
  path : Option ℕ
  contents : ℕ → LockContents
  nextFile : ℕ
  phase : Process → LockPhase

namespace LockState

variable {Process : Type*} [DecidableEq Process] (collectors : Collectors Process)
  (state : LockState Process) (process : Process)

def goTo (phase : LockPhase) : LockState Process :=
  { state with phase := Function.update state.phase process phase }

@[simp] theorem goTo_path (phase : LockPhase) : (state.goTo process phase).path = state.path := rfl

@[simp] theorem goTo_phase (phase : LockPhase) :
    (state.goTo process phase).phase = Function.update state.phase process phase := rfl

/-- What `acquire` makes of a file it has read: a failed read and most defects count as stale, and
a conversion of the wrong type escapes. -/
def judge : Option LockContents → LockPhase
  | none => .replacing
  | some (.record pid _) => .probing pid
  | some (.noPid _) => .replacing
  | some (.oddPid _) => .idle
  | some .notObject => .idle
  | some .notJson => .replacing
  | some .notText => .replacing

/-- What `release` makes of the file it has read back; an error that escapes leaves the lock held. -/
def readBackPhase (file : ℕ) : Option LockContents → LockPhase
  | none => .idle
  | some .notJson => .idle
  | some .notObject => .held file
  | some .notText => .held file
  | some contents => .comparing file contents

/-- The contents at the lock's path. -/
def current : Option LockContents := state.path.map state.contents

/-- The file at the path is moved to a stale name. -/
def moveAside : LockState Process := { state with path := none }.goTo process .creating

/-- The exclusive creation of an empty file. -/
def createFile : LockState Process :=
  { state with
    path := some state.nextFile
    contents := Function.update state.contents state.nextFile .notJson
    nextFile := state.nextFile + 1 }.goTo process (.created state.nextFile)

/-- The record is written to the file that the process has created, wherever that file is. -/
def writeRecord (file : ℕ) : LockState Process :=
  { state with
    contents := Function.update state.contents file
      (.record (collectors.pid process) (some (collectors.runId process))) }.goTo process
        (.held file)

/-- One step of a process. A call that raises ends `acquire`; a process may start it again. -/
def step (entry : Process × LockAction) : Option (LockState Process) :=
  let process := entry.1
  match state.phase process, entry.2 with
  | .idle, .checkExists =>
    some (state.goTo process (if state.path.isSome then .reading else .creating))
  | .reading, .read => some (state.goTo process (judge state.current))
  | .probing _, .probe outcome =>
    match outcome with
    | .alive => some (state.goTo process .idle)
    | .overflow => some (state.goTo process .idle)
    | .noProcess => some (state.goTo process .replacing)
    | .denied => some (state.goTo process .replacing)
  | .replacing, .replace =>
    match state.path with
    | none => some (state.goTo process .idle)
    | some _ => some (state.moveAside process)
  | .creating, .create =>
    match state.path with
    | some _ => some (state.goTo process .idle)
    | none => some (state.createFile process)
  | .created file, .write succeeds =>
    if succeeds then some (writeRecord collectors state process file)
    else some (state.goTo process .idle)
  | .held file, .readBack => some (state.goTo process (readBackPhase file state.current))
  | .comparing file contents, .compare =>
    some (state.goTo process
      (if contents.runId = some (collectors.runId process) then .unlinking file else .idle))
  | .unlinking _, .unlink => some ({ state with path := none }.goTo process .idle)
  | .crashed, _ => none
  | _, .crash => some (state.goTo process .crashed)
  | _, _ => none

/-- The probe reports a missing process only if no living one has the identifier, and denies access
only to processes of another user. -/
def Truthful (entry : Process × LockAction) : Prop :=
  match state.phase entry.1, entry.2 with
  | .probing pid, .probe .noProcess =>
    ∀ other, collectors.pid other = pid → state.phase other = .crashed
  | .probing pid, .probe .denied =>
    ∀ other, collectors.pid other = pid → state.phase other ≠ .crashed →
      collectors.user other ≠ collectors.user entry.1
  | _, _ => True

/-- No process has begun; the path may hold a file that an earlier process has left. -/
def Fresh : Prop := ∀ process, state.phase process = .idle

end LockState

end PolymarketBt
