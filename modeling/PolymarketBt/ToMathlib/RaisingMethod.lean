import Mathlib.Tactic

/-! # Methods that change an object and may raise

A method runs on the state of its object and leaves a state behind whether it returns or raises.
It is atomic when a raise leaves the state as it found it. That is a matter of order: what may
raise only reads, and what changes the state comes last and cannot raise.
-/

/-- A method on an object with state `σ`: what it returns or raises, and the state it leaves. -/
abbrev RaisingMethod (ε σ α : Type) := ExceptT ε (StateM σ) α

namespace RaisingMethod

variable {ε σ α β : Type}

/-- Run an expression that does not touch the state. -/
def raising (value : Except ε α) : RaisingMethod ε σ α := ExceptT.mk (pure value)

/-- Change the state. -/
def update (change : σ → σ) : RaisingMethod ε σ Unit := modify change

/-- The outcome and the state after running on a state. -/
def perform (method : RaisingMethod ε σ α) (state : σ) : Except ε α × σ := (ExceptT.run method) state

variable {method : RaisingMethod ε σ α} {next : α → RaisingMethod ε σ β} {state : σ}

@[simp] theorem perform_pure (value : α) :
    (pure value : RaisingMethod ε σ α).perform state = (.ok value, state) := rfl

@[simp] theorem perform_raising (value : Except ε α) :
    (raising value : RaisingMethod ε σ α).perform state = (value, state) := rfl

@[simp] theorem perform_get : (get : RaisingMethod ε σ σ).perform state = (.ok state, state) := rfl

@[simp] theorem perform_update (change : σ → σ) :
    (update change : RaisingMethod ε σ Unit).perform state = (.ok (), change state) := rfl

theorem perform_bind :
    (method >>= next).perform state =
      match method.perform state with
      | (.ok value, after) => (next value).perform after
      | (.error raised, after) => (.error raised, after) := by
  change (ExceptT.bindCont next (method.perform state).1) (method.perform state).2 = _
  cases method.perform state with
  | mk outcome after => cases outcome <;> rfl

theorem perform_get_bind {next : σ → RaisingMethod ε σ β} :
    ((get : RaisingMethod ε σ σ) >>= next).perform state = (next state).perform state := rfl

theorem perform_update_bind (change : σ → σ) {next : Unit → RaisingMethod ε σ β} :
    ((update change : RaisingMethod ε σ Unit) >>= next).perform state =
      (next ()).perform (change state) := rfl

theorem perform_raising_bind (value : Except ε α) :
    ((raising value : RaisingMethod ε σ α) >>= next).perform state =
      match value with
      | .ok value => (next value).perform state
      | .error raised => (.error raised, state) := by
  rw [perform_bind, perform_raising]
  cases value <;> rfl

/-- A sequence returns when both parts do, one after the other. -/
theorem perform_bind_eq_ok {result : β} {after : σ} :
    (method >>= next).perform state = (.ok result, after) ↔
      ∃ value middle, method.perform state = (.ok value, middle) ∧
        (next value).perform middle = (.ok result, after) := by
  rw [perform_bind]
  cases ran : method.perform state with
  | mk outcome middle =>
    cases outcome with
    | error raised => simp
    | ok value => simp

/-- A sequence raises when one of its parts does. -/
theorem perform_bind_eq_error {raised : ε} {after : σ} :
    (method >>= next).perform state = (.error raised, after) ↔
      method.perform state = (.error raised, after) ∨
        ∃ value middle, method.perform state = (.ok value, middle) ∧
          (next value).perform middle = (.error raised, after) := by
  rw [perform_bind]
  cases ran : method.perform state with
  | mk outcome middle =>
    cases outcome with
    | error other => simp
    | ok value => simp

theorem perform_raising_bind_eq_ok {value : Except ε α} {result : β} {after : σ} :
    ((raising value : RaisingMethod ε σ α) >>= next).perform state = (.ok result, after) ↔
      ∃ returned, value = .ok returned ∧ (next returned).perform state = (.ok result, after) := by
  rw [perform_raising_bind]
  cases value <;> simp

/-- What a computation of the next state means for an object: a raise keeps the old state. -/
def settle (state : σ) : Except ε σ → Except ε Unit × σ
  | .ok after => (.ok (), after)
  | .error raised => (.error raised, state)

theorem perform_raising_bind_settle {value : Except ε α} {next : α → RaisingMethod ε σ Unit}
    {rest : α → Except ε σ} (later : ∀ value, (next value).perform state = settle state (rest value)) :
    ((raising value : RaisingMethod ε σ α) >>= next).perform state =
      settle state (value >>= rest) := by
  rw [perform_raising_bind]
  cases value with
  | error raised => rfl
  | ok value => exact later value

/-- The method leaves the state alone. -/
def ReadOnly (method : RaisingMethod ε σ α) : Prop := ∀ state, (method.perform state).2 = state

/-- The method never raises. -/
def Returns (method : RaisingMethod ε σ α) : Prop :=
  ∀ state, ∃ value, (method.perform state).1 = .ok value

/-- A raise leaves the state as it was. -/
def Atomic (method : RaisingMethod ε σ α) : Prop :=
  ∀ state raised, (method.perform state).1 = .error raised → (method.perform state).2 = state

theorem readOnly_pure (value : α) : ReadOnly (pure value : RaisingMethod ε σ α) := fun _ => rfl
theorem readOnly_raising (value : Except ε α) :
    ReadOnly (raising value : RaisingMethod ε σ α) := fun _ => rfl
theorem readOnly_get : ReadOnly (get : RaisingMethod ε σ σ) := fun _ => rfl

theorem ReadOnly.bind (first : ReadOnly method) (second : ∀ value, ReadOnly (next value)) :
    ReadOnly (method >>= next) := by
  intro state
  have kept := first state
  rw [perform_bind]
  cases ran : method.perform state with
  | mk outcome after =>
    rw [ran] at kept
    obtain rfl : after = state := kept
    cases outcome with
    | error raised => rfl
    | ok value => exact second value _

theorem ReadOnly.atomic (reads : ReadOnly method) : Atomic method := fun state _ _ => reads state

theorem returns_pure (value : α) : Returns (pure value : RaisingMethod ε σ α) :=
  fun _ => ⟨value, rfl⟩
theorem returns_update (change : σ → σ) : Returns (update change : RaisingMethod ε σ Unit) :=
  fun _ => ⟨(), rfl⟩

theorem Returns.bind (first : Returns method) (second : ∀ value, Returns (next value)) :
    Returns (method >>= next) := by
  intro state
  obtain ⟨value, returned⟩ := first state
  rw [perform_bind]
  cases ran : method.perform state with
  | mk outcome after =>
    rw [ran] at returned
    obtain rfl : outcome = .ok value := returned
    exact second value after

theorem Returns.atomic (returns : Returns method) : Atomic method := by
  intro state raised failed
  obtain ⟨value, returned⟩ := returns state
  rw [returned] at failed
  cases failed

/-- The method leaves this part of the state alone, whether it returns or raises. -/
def Keeps {γ : Type} (part : σ → γ) (method : RaisingMethod ε σ α) : Prop :=
  ∀ state, part (method.perform state).2 = part state

theorem ReadOnly.keeps {γ : Type} (reads : ReadOnly method) (part : σ → γ) : Keeps part method :=
  fun state => congrArg part (reads state)

theorem keeps_update {γ : Type} {part : σ → γ} {change : σ → σ}
    (kept : ∀ state, part (change state) = part state) :
    Keeps part (update change : RaisingMethod ε σ Unit) := kept

theorem Keeps.bind {γ : Type} {part : σ → γ} (first : Keeps part method)
    (second : ∀ value, Keeps part (next value)) : Keeps part (method >>= next) := by
  intro state
  have kept := first state
  rw [perform_bind]
  cases ran : method.perform state with
  | mk outcome after =>
    rw [ran] at kept
    cases outcome with
    | error raised => exact kept
    | ok value => exact (second value after).trans kept

/-- Checks may come before an atomic method. -/
theorem ReadOnly.bind_atomic (first : ReadOnly method) (second : ∀ value, Atomic (next value)) :
    Atomic (method >>= next) := by
  intro state raised failed
  have kept := first state
  rw [perform_bind] at failed ⊢
  cases ran : method.perform state with
  | mk outcome after =>
    rw [ran] at kept failed
    obtain rfl : after = state := kept
    cases outcome with
    | error raised => rfl
    | ok value => exact second value _ raised failed

/-- Changes that cannot raise may come after an atomic method. -/
theorem Atomic.bind_returns (first : Atomic method) (second : ∀ value, Returns (next value)) :
    Atomic (method >>= next) := by
  intro state raised failed
  rw [perform_bind] at failed ⊢
  cases ran : method.perform state with
  | mk outcome after =>
    rw [ran] at failed
    cases outcome with
    | error error =>
      have kept := first state error (by rw [ran])
      rw [ran] at kept
      exact kept
    | ok value =>
      obtain ⟨result, returned⟩ := second value after
      rw [returned] at failed
      cases failed

end RaisingMethod
