import Mathlib.Logic.Function.Basic
import Mathlib.Tactic

/-! # Rows read under settings that stay

A log states values of keys, and a value stays in force until its key is stated again. Some rows of
the log are read under the value in force, and only those that lean on a key before the log has
stated it depend on the values before the log.
-/

inductive StickyWord (κ ν ρ : Type*) where
  | states (key : κ) (value : ν)
  | leans (key : κ) (row : ν → ρ)
  | yields (row : ρ)

namespace StickyWord

variable {κ ν ρ : Type*} [DecidableEq κ]

/-- The values in force after a word. -/
def settings (inForce : κ → ν) : StickyWord κ ν ρ → κ → ν
  | states key value => Function.update inForce key value
  | leans _ _ => inForce
  | yields _ => inForce

def rows (inForce : κ → ν) : StickyWord κ ν ρ → List ρ
  | states _ _ => []
  | leans key row => [row (inForce key)]
  | yields row => [row]

/-- The values in force after a log, and the rows it yields. -/
def run (inForce : κ → ν) : List (StickyWord κ ν ρ) → (κ → ν) × List ρ
  | [] => (inForce, [])
  | word :: rest =>
    let next := run (word.settings inForce) rest
    (next.1, word.rows inForce ++ next.2)

def statedAt (key : κ) : StickyWord κ ν ρ → Option ν
  | states other value => if other = key then some value else none
  | leans _ _ => none
  | yields _ => none

/-- The last value that a log states of a key. -/
def lastStated (key : κ) : List (StickyWord κ ν ρ) → Option ν
  | [] => none
  | word :: rest => (lastStated key rest).or (word.statedAt key)

/-- The log has a row that leans on a key before the key is stated. -/
def LeansOn (words : List (StickyWord κ ν ρ)) (key : κ) (row : ν → ρ) : Prop :=
  ∃ earlier later, words = earlier ++ leans key row :: later ∧ lastStated key earlier = none

/-- What a log states, without its rows. -/
def statements (words : List (StickyWord κ ν ρ)) : List (StickyWord κ ν ρ) :=
  words.filter fun
    | states _ _ => true
    | leans _ _ => false
    | yields _ => false

variable {inForce other : κ → ν} {words earlier later : List (StickyWord κ ν ρ)} {key : κ}

theorem run_append :
    run inForce (earlier ++ later) =
      ((run (run inForce earlier).1 later).1,
        (run inForce earlier).2 ++ (run (run inForce earlier).1 later).2) := by
  induction earlier generalizing inForce with
  | nil => rfl
  | cons word rest ih => simp only [List.cons_append, run, ih, List.append_assoc]

theorem lastStated_append :
    lastStated key (earlier ++ later) = (lastStated key later).or (lastStated key earlier) := by
  induction earlier with
  | nil => exact Option.or_none.symm
  | cons word rest ih => simp only [List.cons_append, lastStated, ih, Option.or_assoc]

theorem settings_apply (word : StickyWord κ ν ρ) :
    word.settings inForce key = (word.statedAt key).getD (inForce key) := by
  cases word with
  | states other value =>
    unfold settings statedAt
    by_cases same : other = key
    · subst same
      simp
    · simp [same, Function.update_of_ne (Ne.symm same)]
  | leans other row => rfl
  | yields row => rfl

theorem run_settings : (run inForce words).1 key = (lastStated key words).getD (inForce key) := by
  induction words generalizing inForce with
  | nil => rfl
  | cons word rest ih =>
    change (run (word.settings inForce) rest).1 key = _
    rw [ih, settings_apply, lastStated]
    cases lastStated key rest <;> rfl

theorem LeansOn.cons {word : StickyWord κ ν ρ} {row : ν → ρ} (leansOn : LeansOn words key row)
    (silent : word.statedAt key = none) : LeansOn (word :: words) key row := by
  obtain ⟨earlier, later, rfl, unstated⟩ := leansOn
  refine ⟨word :: earlier, later, rfl, ?_⟩
  rw [lastStated, unstated, silent]
  rfl

theorem run_statements : run inForce (statements words) = ((run inForce words).1, []) := by
  induction words generalizing inForce with
  | nil => rfl
  | cons word rest ih =>
    cases word with
    | states key value =>
      change ((run (Function.update inForce key value) (statements rest)).1,
        [] ++ (run (Function.update inForce key value) (statements rest)).2) = _
      rw [ih]
      rfl
    | leans key row => exact ih
    | yields row => exact ih

/-- A row of a sequence of logs is read under the values after the logs before its own. -/
theorem mem_rows_flatMap {ι : Type*} {logs : List ι} {f : ι → List (StickyWord κ ν ρ)} {row : ρ} :
    row ∈ (run inForce (logs.flatMap f)).2 ↔
      ∃ before log after, logs = before ++ log :: after ∧
        row ∈ (run (run inForce (before.flatMap f)).1 (f log)).2 := by
  constructor
  · intro member
    induction logs generalizing inForce with
    | nil => cases member
    | cons log rest ih =>
      rw [List.flatMap_cons, run_append] at member
      rcases List.mem_append.mp member with here | there
      · exact ⟨[], log, rest, rfl, here⟩
      · obtain ⟨before, other, after, rfl, inOther⟩ := ih there
        refine ⟨log :: before, other, after, rfl, ?_⟩
        rw [List.flatMap_cons, run_append]
        exact inOther
  · rintro ⟨before, log, after, rfl, member⟩
    rw [List.flatMap_append, List.flatMap_cons, run_append, run_append]
    exact List.mem_append_right _ (List.mem_append_left _ member)

/-- The rows depend on the values before the log only where a row leans on them. -/
theorem run_rows_congr
    (agree : ∀ key row, LeansOn words key row → row (inForce key) = row (other key)) :
    (run inForce words).2 = (run other words).2 := by
  induction words generalizing inForce other with
  | nil => rfl
  | cons word rest ih =>
    have here : word.rows inForce = word.rows other := by
      cases word with
      | states key value => rfl
      | leans key row => exact congrArg (fun read => [read]) (agree key row ⟨[], rest, rfl, rfl⟩)
      | yields row => rfl
    have there : (run (word.settings inForce) rest).2 = (run (word.settings other) rest).2 := by
      refine ih fun key row leansOn => ?_
      rw [settings_apply, settings_apply]
      cases silent : word.statedAt key with
      | some value => rfl
      | none => exact agree key row (leansOn.cons silent)
    simp only [run, here, there]

/-- A row that leans on a key before it is stated is read under the value before the log. -/
theorem LeansOn.mem_rows {row : ν → ρ} (leansOn : LeansOn words key row) :
    row (inForce key) ∈ (run inForce words).2 := by
  obtain ⟨earlier, later, rfl, unstated⟩ := leansOn
  have before : (run inForce earlier).1 key = inForce key := by
    rw [run_settings, unstated]
    rfl
  rw [run_append, ← before]
  exact List.mem_append_right _ (List.mem_append_left _ (List.mem_singleton_self _))

/-- Where the rows have distinct identities, a leaning row is told by its own. -/
theorem LeansOn.eq_of_identity {ι : Type*} {identity : ρ → ι} {row : ν → ρ} {found : ρ}
    (leansOn : LeansOn words key row) (distinct : ((run inForce words).2.map identity).Nodup)
    (member : found ∈ (run inForce words).2)
    (same : identity found = identity (row (inForce key))) : found = row (inForce key) :=
  List.inj_on_of_nodup_map distinct member leansOn.mem_rows same

end StickyWord
