import Mathlib.Tactic

/-! # Runs of a transition system

A transition system performs one action at a time; an action that is not enabled has no successor.
A run performs a list of actions, each of them allowed in the state where it is performed.
-/

namespace Transition

variable {σ α : Type*} {step : σ → α → Option σ} {allowed : σ → α → Prop}

/-- A run whose every action is allowed where it is performed. -/
inductive Run (step : σ → α → Option σ) (allowed : σ → α → Prop) : σ → List α → σ → Prop
  | nil (state : σ) : Run step allowed state [] state
  | cons {state next final : σ} {action : α} {rest : List α} (admitted : allowed state action)
      (stepped : step state action = some next) (later : Run step allowed next rest final) :
      Run step allowed state (action :: rest) final

namespace Run

variable {state final : σ} {actions : List α}

/-- What every allowed step preserves holds at the end of a run. -/
theorem invariant {inv : σ → Prop} (run : Run step allowed state actions final) (start : inv state)
    (preserved : ∀ before action after, allowed before action → step before action = some after →
      inv before → inv after) : inv final := by
  induction run with
  | nil => exact start
  | cons admitted stepped _ ih => exact ih (preserved _ _ _ admitted stepped start)

theorem append_iff {earlier later : List α} :
    Run step allowed state (earlier ++ later) final ↔
      ∃ middle, Run step allowed state earlier middle ∧ Run step allowed middle later final := by
  induction earlier generalizing state with
  | nil =>
    constructor
    · exact fun run => ⟨state, .nil state, run⟩
    · rintro ⟨middle, start, run⟩
      cases start
      exact run
  | cons action rest ih =>
    constructor
    · intro run
      cases run with
      | cons admitted stepped run =>
        obtain ⟨middle, start, run⟩ := ih.mp run
        exact ⟨middle, .cons admitted stepped start, run⟩
    · rintro ⟨middle, start, run⟩
      cases start with
      | cons admitted stepped start => exact .cons admitted stepped (ih.mpr ⟨middle, start, run⟩)

/-- A run that ends with an action performs it in the state that the rest of the run reaches. -/
theorem snoc_iff {earlier : List α} {action : α} :
    Run step allowed state (earlier ++ [action]) final ↔
      ∃ middle, Run step allowed state earlier middle ∧ allowed middle action ∧
        step middle action = some final := by
  rw [append_iff]
  constructor
  · rintro ⟨middle, start, run⟩
    cases run with
    | cons admitted stepped run =>
      cases run
      exact ⟨middle, start, admitted, stepped⟩
  · rintro ⟨middle, start, admitted, stepped⟩
    exact ⟨middle, start, .cons admitted stepped (.nil final)⟩

/-- A run without restrictions can be computed. -/
theorem of_foldlM (performed : actions.foldlM step state = some final) :
    Run step (fun _ _ => True) state actions final := by
  induction actions generalizing state with
  | nil =>
    cases performed
    exact .nil _
  | cons action rest ih =>
    rw [List.foldlM_cons] at performed
    obtain ⟨next, stepped, later⟩ := Option.bind_eq_some_iff.mp performed
    exact .cons trivial stepped (ih later)

end Run

end Transition
