import PolymarketBt.Model.ProcessLock

/-! # Mutual exclusion of the collector's lock

Judging a lock file stale and moving it aside are separate steps, so a process can move the file
that another has created meanwhile. As long as every takeover moves a file that no living process
has created, the file of a process that is past its creation stays at the path, and the lock
excludes. Any other takeover can be continued to two holders.
-/

namespace PolymarketBt

open Transition

namespace LockPhase

/-- The process has created a file and has not given it up. -/
def Owns (phase : LockPhase) (file : ℕ) : Prop :=
  phase = .created file ∨ phase = .held file ∨ (∃ contents, phase = .comparing file contents) ∨
    phase = .unlinking file

/-- The process has returned from `acquire` and not from `release`. -/
def Holds (phase : LockPhase) (file : ℕ) : Prop :=
  phase = .held file ∨ (∃ contents, phase = .comparing file contents) ∨ phase = .unlinking file

variable {phase : LockPhase} {file other : ℕ}

theorem Holds.owns (holds : phase.Holds file) : phase.Owns file := .inr holds

theorem owns_created : (created file).Owns other ↔ file = other := by simp [Owns]

/-- A process that owns no file. -/
def Free (phase : LockPhase) : Prop := ∀ file, ¬ phase.Owns file

theorem free_idle : Free .idle := by simp [Free, Owns]
theorem free_reading : Free .reading := by simp [Free, Owns]
theorem free_replacing : Free .replacing := by simp [Free, Owns]
theorem free_creating : Free .creating := by simp [Free, Owns]
theorem free_crashed : Free .crashed := by simp [Free, Owns]

end LockPhase

namespace LockState

variable {Process : Type*} [DecidableEq Process] {collectors : Collectors Process}
  {state next first : LockState Process} {process other : Process}

/-- At most one living process holds the lock. -/
def MutuallyExclusive (state : LockState Process) : Prop :=
  ∀ process other file otherFile, (state.phase process).Holds file →
    (state.phase other).Holds otherFile → process = other

/-- A process that removes the lock removes no file that another process holds. -/
def ReleasesOwn (collectors : Collectors Process) (state : LockState Process) : Prop :=
  ∀ process next, step collectors state (process, .unlink) = some next →
    ∀ file other, state.path = some file → other ≠ process → ¬ (state.phase other).Holds file

/-- The file at the path was created by no living process. -/
def Orphaned (state : LockState Process) : Prop :=
  ∀ file, state.path = some file → ∀ process, ¬ (state.phase process).Owns file

/-- The kernel's answers are truthful, and a takeover finds an orphaned file. -/
def Guarded (collectors : Collectors Process) (state : LockState Process)
    (entry : Process × LockAction) : Prop :=
  Truthful collectors state entry ∧ (entry.2 = .replace → Orphaned state)

/-! ## What one step does -/

theorem judge_free (contents : Option LockContents) : (judge contents).Free := by
  unfold judge
  split <;> simp [LockPhase.Free, LockPhase.Owns]

theorem readBackPhase_owns {file owned : ℕ} {contents : Option LockContents}
    (owns : (readBackPhase file contents).Owns owned) : owned = file := by
  unfold readBackPhase at owns
  split at owns <;> simp_all [LockPhase.Owns]

/-- A step creates a file at the free path, moves or removes the file there, or leaves the path
alone and owns nothing new. -/
theorem step_cases {action : LockAction} (stepped : step collectors state (process, action) = some next) :
    (∃ phase, next.path = state.path ∧ next.phase = Function.update state.phase process phase ∧
        ∀ file, phase.Owns file → (state.phase process).Owns file) ∨
      (state.path = none ∧ next.path = some state.nextFile ∧
        next.phase = Function.update state.phase process (.created state.nextFile)) ∨
      (action = .replace ∧ next.phase = Function.update state.phase process .creating) ∨
      (action = .unlink ∧ (∃ file, state.phase process = .unlinking file) ∧
        next.phase = Function.update state.phase process .idle) := by
  have released {phase : LockPhase} (free : phase.Free) (path : next.path = state.path)
      (moved : next.phase = Function.update state.phase process phase) :
      ∃ phase, next.path = state.path ∧ next.phase = Function.update state.phase process phase ∧
        ∀ file, phase.Owns file → (state.phase process).Owns file :=
    ⟨phase, path, moved, fun file owns => absurd owns (free file)⟩
  unfold step at stepped
  dsimp only at stepped
  split at stepped
  · cases stepped
    refine .inl (released ?_ rfl rfl)
    split
    · exact LockPhase.free_reading
    · exact LockPhase.free_creating
  · cases stepped
    exact .inl (released (judge_free _) rfl rfl)
  · split at stepped
    · cases stepped
      exact .inl (released LockPhase.free_idle rfl rfl)
    · cases stepped
      exact .inl (released LockPhase.free_idle rfl rfl)
    · cases stepped
      exact .inl (released LockPhase.free_replacing rfl rfl)
    · cases stepped
      exact .inl (released LockPhase.free_replacing rfl rfl)
  · split at stepped
    · cases stepped
      exact .inl (released LockPhase.free_idle rfl rfl)
    · cases stepped
      exact .inr (.inr (.inl ⟨rfl, rfl⟩))
  · split at stepped
    · cases stepped
      exact .inl (released LockPhase.free_idle rfl rfl)
    · next free =>
      cases stepped
      exact .inr (.inl ⟨free, rfl, rfl⟩)
  · next file created =>
    split at stepped
    · cases stepped
      refine .inl ⟨_, rfl, rfl, fun owned owns => ?_⟩
      rw [created]
      simpa [LockPhase.Owns] using owns
    · cases stepped
      exact .inl (released LockPhase.free_idle rfl rfl)
  · next file held =>
    cases stepped
    refine .inl ⟨_, rfl, rfl, fun owned owns => ?_⟩
    rw [held, readBackPhase_owns owns]
    exact .inr (.inl rfl)
  · next file contents comparing =>
    cases stepped
    refine .inl ⟨_, rfl, rfl, fun owned owns => ?_⟩
    rw [comparing]
    split at owns
    · exact .inr (.inr (.inl ⟨contents, by simpa [LockPhase.Owns] using owns⟩))
    · exact absurd owns (LockPhase.free_idle owned)
  · next file unlinking =>
    cases stepped
    exact .inr (.inr (.inr ⟨rfl, ⟨file, unlinking⟩, rfl⟩))
  · cases stepped
  · cases stepped
    exact .inl (released LockPhase.free_crashed rfl rfl)
  · cases stepped

/-! ## The invariant -/

/-- The file of a process that is past its creation is at the path, and it is of no other. -/
structure Anchored (state : LockState Process) : Prop where
  atPath : ∀ process file, (state.phase process).Owns file → state.path = some file
  alone : ∀ process other file, (state.phase process).Owns file → (state.phase other).Owns file →
    process = other

omit [DecidableEq Process] in
theorem Fresh.anchored (fresh : Fresh state) : Anchored state where
  atPath process file owns := absurd owns (fresh process ▸ LockPhase.free_idle file)
  alone process _ file owns _ := absurd owns (fresh process ▸ LockPhase.free_idle file)

omit [DecidableEq Process] in
/-- When no process owns the file at the path, none owns a file. -/
theorem Anchored.free (anchored : Anchored state) (orphaned : Orphaned state) (process : Process) :
    (state.phase process).Free :=
  fun file owns => orphaned file (anchored.atPath process file owns) process owns

omit [DecidableEq Process] in
theorem Anchored.of_free (free : ∀ process, (state.phase process).Free) : Anchored state where
  atPath process file owns := absurd owns (free process file)
  alone process _ file owns _ := absurd owns (free process file)

theorem Anchored.step (anchored : Anchored state) {entry : Process × LockAction}
    (guarded : Guarded collectors state entry)
    (stepped : LockState.step collectors state entry = some next) : Anchored next := by
  obtain ⟨process, action⟩ := entry
  rcases step_cases stepped with ⟨phase, path, moved, kept⟩ | ⟨empty, path, moved⟩ |
    ⟨rfl, moved⟩ | ⟨rfl, ⟨file, unlinking⟩, moved⟩
  · have before (other : Process) (file : ℕ) (owns : (next.phase other).Owns file) :
        (state.phase other).Owns file := by
      rw [moved] at owns
      by_cases own : other = process
      · subst own
        rw [Function.update_self] at owns
        exact kept file owns
      · rwa [Function.update_of_ne own] at owns
    exact ⟨fun other file owns => path ▸ anchored.atPath other file (before other file owns),
      fun one other file owns again =>
        anchored.alone one other file (before one file owns) (before other file again)⟩
  · -- the path was free, so no other process owns a file
    have only (other : Process) (file : ℕ) (owns : (next.phase other).Owns file) :
        other = process ∧ state.nextFile = file := by
      rw [moved] at owns
      by_cases own : other = process
      · subst own
        rw [Function.update_self] at owns
        exact ⟨rfl, LockPhase.owns_created.mp owns⟩
      · rw [Function.update_of_ne own] at owns
        have present := anchored.atPath other file owns
        rw [empty] at present
        cases present
    exact ⟨fun other file owns => by rw [path, (only other file owns).2],
      fun one other file owns again =>
        (only one file owns).1.trans (only other file again).1.symm⟩
  · refine .of_free fun other file owns => ?_
    rw [moved] at owns
    by_cases own : other = process
    · subst own
      rw [Function.update_self] at owns
      exact LockPhase.free_creating file owns
    · rw [Function.update_of_ne own] at owns
      exact anchored.free (guarded.2 rfl) other file owns
  · -- the process removes its own file, and no other process owns one
    refine .of_free fun other owned owns => ?_
    have mine : (state.phase process).Owns file := by
      rw [unlinking]
      exact .inr (.inr (.inr rfl))
    rw [moved] at owns
    by_cases own : other = process
    · subst own
      rw [Function.update_self] at owns
      exact LockPhase.free_idle owned owns
    · rw [Function.update_of_ne own] at owns
      have same := (anchored.atPath other owned owns).symm.trans (anchored.atPath process file mine)
      obtain rfl := Option.some.inj same
      exact own (anchored.alone other process owned owns mine)

omit [DecidableEq Process] in
theorem Anchored.mutuallyExclusive (anchored : Anchored state) : MutuallyExclusive state := by
  intro process other file otherFile holds otherHolds
  have same := (anchored.atPath process file holds.owns).symm.trans
    (anchored.atPath other otherFile otherHolds.owns)
  obtain rfl := Option.some.inj same
  exact anchored.alone process other file holds.owns otherHolds.owns

theorem unlinking_of_unlink (stepped : step collectors state (process, .unlink) = some next) :
    ∃ file, state.phase process = .unlinking file := by
  unfold step at stepped
  cases phase : state.phase process with
  | unlinking file => exact ⟨file, rfl⟩
  | _ => simp [phase] at stepped

theorem Anchored.releasesOwn (anchored : Anchored state) : ReleasesOwn collectors state := by
  intro process next stepped file other path apart holds
  obtain ⟨own, unlinking⟩ := unlinking_of_unlink stepped
  have mine : (state.phase process).Owns own := unlinking ▸ .inr (.inr (.inr rfl))
  obtain rfl := Option.some.inj (path.symm.trans (anchored.atPath process own mine))
  exact apart (anchored.alone other process file holds.owns mine)

/-! ## Takeovers -/

theorem run_anchored {actions : List (Process × LockAction)} (anchored : Anchored first)
    (run : Run (step collectors) (Guarded collectors) first actions state) : Anchored state :=
  run.invariant anchored fun _ _ _ guarded stepped before => before.step guarded stepped

omit [DecidableEq Process] in
theorem guarded_of {action : LockAction} (settled : ∀ pid, state.phase process ≠ .probing pid)
    (other : action ≠ .replace) : Guarded collectors state (process, action) := by
  refine ⟨?_, fun same => absurd same other⟩
  unfold Truthful
  split
  · next pid probing _ => exact absurd probing (settled pid)
  · next pid probing _ => exact absurd probing (settled pid)
  · trivial

/-- A process that has taken the lock over creates its own file and holds it. -/
theorem creating_holds (creating : state.phase process = .creating) (free : state.path = none) :
    ∃ final, Run (step collectors) (Guarded collectors) state
        [(process, .create), (process, .write true)] final ∧
      (final.phase process).Holds state.nextFile ∧
      ∀ other, other ≠ process → final.phase other = state.phase other := by
  have created : step collectors state (process, .create) = some (state.createFile process) := by
    unfold step
    simp only [creating, free]
  have phase : (state.createFile process).phase process = .created state.nextFile :=
    Function.update_self ..
  have written : step collectors (state.createFile process) (process, .write true) =
      some (writeRecord collectors (state.createFile process) process state.nextFile) := by
    unfold step
    simp only [phase, if_true]
  refine ⟨_, .cons (guarded_of (by simp [creating]) (by simp)) created
    (.cons (guarded_of (by simp [phase]) (by simp)) written (.nil _)), ?_, fun other apart => ?_⟩
  · exact .inl (Function.update_self ..)
  · exact (Function.update_of_ne apart ..).trans (Function.update_of_ne apart ..)

/-- A process that owns a file can come to hold it. -/
theorem owner_holds {file : ℕ} (owns : (state.phase process).Owns file) :
    ∃ actions final, Run (step collectors) (Guarded collectors) state actions final ∧
      (final.phase process).Holds file ∧
      ∀ other, other ≠ process → final.phase other = state.phase other := by
  rcases owns with created | holds
  · have written : step collectors state (process, .write true) =
        some (writeRecord collectors state process file) := by
      unfold step
      simp only [created, if_true]
    exact ⟨[(process, .write true)], _, .cons (guarded_of (by simp [created]) (by simp)) written
      (.nil _), .inl (Function.update_self ..), fun other apart => Function.update_of_ne apart ..⟩
  · exact ⟨[], state, .nil _, holds, fun _ _ => rfl⟩

/-- A takeover of a living process's file can be continued to two holders. -/
theorem takeover_breaks {owner : Process} {file : ℕ}
    (stepped : step collectors state (process, .replace) = some next)
    (path : state.path = some file) (owns : (state.phase owner).Owns file) :
    ∃ later final, Run (step collectors) (Guarded collectors) next later final ∧
      ¬ MutuallyExclusive final := by
  have taken : state.phase process = .replacing ∧ next = state.moveAside process := by
    unfold step at stepped
    cases phase : state.phase process with
    | replacing =>
      simp only [phase, path, Option.some.injEq] at stepped
      exact ⟨rfl, stepped.symm⟩
    | _ => simp [phase] at stepped
  obtain ⟨replacing, rfl⟩ := taken
  have apart : owner ≠ process := by
    rintro rfl
    rw [replacing] at owns
    exact LockPhase.free_replacing file owns
  have creating : (state.moveAside process).phase process = .creating := Function.update_self ..
  obtain ⟨middle, creates, holds, kept⟩ := @creating_holds _ _ collectors _ _ creating rfl
  have still : (middle.phase owner).Owns file := by
    rw [kept owner apart, moveAside, goTo_phase, Function.update_of_ne apart]
    exact owns
  obtain ⟨later, final, continues, ownerHolds, unchanged⟩ := @owner_holds _ _ collectors _ _ _ still
  refine ⟨_, final, Run.append_iff.mpr ⟨middle, creates, continues⟩, fun exclusive => apart ?_⟩
  rw [← unchanged process apart.symm] at holds
  exact exclusive owner process _ _ ownerHolds holds

def twoCollectors : Collectors Bool where
  pid := fun process => if process then 101 else 100
  runId := fun process => if process then "run-b" else "run-a"
  user := fun _ => 1000

def noLock : LockState Bool where
  path := none
  contents := fun _ => .notJson
  nextFile := 1
  phase := fun _ => .idle

/-- A file that a collector with another identifier has left behind. -/
def leftoverLock : LockState Bool where
  path := some 0
  contents := fun _ => .record 99 (some "run-0")
  nextFile := 1
  phase := fun _ => .idle

/-- Both processes judge the leftover stale before either moves it. -/
def doubleTakeover : List (Bool × LockAction) :=
  [(false, .checkExists), (false, .read), (false, .probe .noProcess),
    (true, .checkExists), (true, .read), (true, .probe .noProcess),
    (false, .replace), (false, .create), (false, .write true),
    (true, .replace), (true, .create), (true, .write true)]

end LockState

end PolymarketBt
