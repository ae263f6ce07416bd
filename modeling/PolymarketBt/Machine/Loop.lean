import Mathlib.Tactic

/-! # Loops that may raise, continue or break

A `for` loop of an imperative program is a fold whose body either raises, goes on with the next
item, or leaves the loop. The rules below are the ones the program proofs use: an invariant of
every completed iteration is an invariant of the loop, a loop splits at any cut of its items, and
two loops over lists with a common prefix agree on an observation when they run in lockstep until
both fall quiet.
-/

namespace List

variable {α β : Type*} {related : α → β → Prop} {left : List α} {right : List β}

/-- Every element of the left list has a relative in the right one. -/
theorem Forall₂.right_of_mem (pairs : Forall₂ related left right) {x : α} (member : x ∈ left) :
    ∃ y ∈ right, related x y := by
  induction pairs with
  | nil => cases member
  | cons first _ ih =>
    rcases mem_cons.mp member with rfl | later
    · exact ⟨_, mem_cons_self, first⟩
    · obtain ⟨y, inRest, found⟩ := ih later
      exact ⟨y, mem_cons_of_mem _ inRest, found⟩

theorem Forall₂.left_of_mem (pairs : Forall₂ related left right) {y : β} (member : y ∈ right) :
    ∃ x ∈ left, related x y :=
  (Forall₂.flip (R := fun y x => related x y) pairs).right_of_mem member

end List

namespace Except

universe u v

variable {ε : Type u} {α β : Type v}

/-- A sequence succeeds exactly when both of its parts do. -/
theorem bind_eq_ok {first : Except ε α} {next : α → Except ε β} {result : β} :
    (first >>= next) = .ok result ↔ ∃ value, first = .ok value ∧ next value = .ok result := by
  cases first with
  | error e => simp [bind, Except.bind]
  | ok value => simp [bind, Except.bind]

theorem toOption_eq_some {first : Except ε α} {value : α} :
    first.toOption = some value ↔ first = .ok value := by
  cases first <;> simp [Except.toOption]

theorem map_eq_ok {first : Except ε α} {f : α → β} {result : β} :
    (f <$> first) = .ok result ↔ ∃ value, first = .ok value ∧ f value = result := by
  cases first with
  | error e => simp [Functor.map, Except.map]
  | ok value => simp [Functor.map, Except.map]

/-- A traversal succeeds exactly when it does at every element. -/
theorem mapM_eq_ok {f : α → Except ε β} {items : List α} {results : List β} :
    items.mapM f = .ok results ↔ List.Forall₂ (fun item result => f item = .ok result) items results := by
  induction items generalizing results with
  | nil => simp [pure, Except.pure, eq_comm]
  | cons item rest ih =>
    simp only [List.mapM_cons, bind_eq_ok, ih, List.forall₂_cons_left_iff]
    constructor
    · rintro ⟨first, ran, others, tail, done⟩
      cases done
      exact ⟨first, others, ran, tail, rfl⟩
    · rintro ⟨first, others, ran, tail, rfl⟩
      exact ⟨first, ran, others, tail, rfl⟩

/-- What every step of a completed fold preserves, the items consumed so far included. -/
theorem foldlM_history {σ : Type v} {items : List α} {step : σ → α → Except ε σ}
    (inv : List α → σ → Prop) {initial final : σ} (start : inv [] initial)
    (preserved : ∀ past item state after, item ∈ items → inv past state →
      step state item = .ok after → inv (past ++ [item]) after)
    (completed : items.foldlM step initial = .ok final) : inv items final := by
  suffices general : ∀ past future state, items = past ++ future → inv past state →
      future.foldlM step state = .ok final → inv items final from
    general [] items initial rfl start completed
  intro past future
  induction future generalizing past with
  | nil =>
    rintro state split holds ⟨⟩
    simpa [split] using holds
  | cons item rest ih =>
    intro state split holds done
    rw [List.foldlM_cons, bind_eq_ok] at done
    obtain ⟨after, ran, remaining⟩ := done
    exact ih (past ++ [item]) after (by simpa using split)
      (preserved past item state after (by simp [split]) holds ran) remaining

@[simp] theorem pure_eq_ok {value result : α} :
    (pure value : Except ε α) = .ok result ↔ value = result := by
  simp [pure, Except.pure]

@[simp] theorem ok_bind (value : α) (next : α → Except ε β) :
    ((Except.ok value : Except ε α) >>= next) = next value := rfl

@[simp] theorem error_bind (e : ε) (next : α → Except ε β) :
    ((Except.error e : Except ε α) >>= next) = .error e := rfl

theorem map_bind {γ : Type v} {first : Except ε α} {next : α → Except ε β} {f : β → γ} :
    (first >>= next).map f = first >>= fun value => (next value).map f := by
  cases first <;> rfl

/-- Continuations that agree on what the first part returns make the same sequence. -/
theorem bind_congr_ok {first : Except ε α} {next other : α → Except ε β}
    (same : ∀ value, first = .ok value → next value = other value) :
    (first >>= next) = (first >>= other) := by
  cases first with
  | error e => rfl
  | ok value => exact same value rfl

/-- The computation does not raise. -/
def Returns (computation : Except ε α) : Prop := ∃ value, computation = .ok value

@[simp] theorem returns_ok (value : α) : (Except.ok value : Except ε α).Returns := ⟨value, rfl⟩

@[simp] theorem returns_pure (value : α) : (pure value : Except ε α).Returns := ⟨value, rfl⟩

@[simp] theorem not_returns_error (e : ε) : ¬ (Except.error e : Except ε α).Returns := by
  rintro ⟨value, same⟩
  cases same

/-- A sequence returns exactly when both of its parts do. -/
theorem bind_returns {first : Except ε α} {next : α → Except ε β} :
    (first >>= next).Returns ↔ ∃ value, first = .ok value ∧ (next value).Returns := by
  cases first with
  | error e => simp
  | ok value => simp

theorem Returns.bind {first : Except ε α} {next : α → Except ε β} (returned : first.Returns)
    (later : ∀ value, first = .ok value → (next value).Returns) : (first >>= next).Returns := by
  obtain ⟨value, ran⟩ := returned
  exact bind_returns.mpr ⟨value, ran, later value ran⟩

/-- The same rule with a postcondition. -/
theorem exists_bind {first : Except ε α} {next : α → Except ε β} {post : β → Prop}
    (returned : first.Returns)
    (later : ∀ value, first = .ok value → ∃ result, next value = .ok result ∧ post result) :
    ∃ result, (first >>= next) = .ok result ∧ post result := by
  obtain ⟨value, ran⟩ := returned
  obtain ⟨result, done, holds⟩ := later value ran
  exact ⟨result, bind_eq_ok.mpr ⟨value, ran, done⟩, holds⟩

theorem mapM_returns {f : α → Except ε β} {items : List α}
    (each : ∀ item ∈ items, (f item).Returns) : (items.mapM f).Returns := by
  induction items with
  | nil => simp
  | cons item rest ih =>
    rw [List.mapM_cons]
    refine (each item (List.mem_cons_self ..)).bind fun _ _ => ?_
    refine (ih fun other member => each other (List.mem_cons_of_mem _ member)).bind fun _ _ => ?_
    exact returns_pure _

/-- A traversal returns exactly when it does at every element. -/
theorem mapM_returns_iff {f : α → Except ε β} {items : List α} :
    (items.mapM f).Returns ↔ ∀ item ∈ items, (f item).Returns := by
  refine ⟨fun returned item member => ?_, mapM_returns⟩
  obtain ⟨results, ran⟩ := returned
  obtain ⟨result, _, found⟩ := (mapM_eq_ok.mp ran).right_of_mem member
  exact ⟨result, found⟩

@[simp] theorem map_returns {first : Except ε α} {f : α → β} :
    (f <$> first).Returns ↔ first.Returns := by
  cases first <;> simp [Functor.map, Except.map]

/-- A fold returns when its step does in every state. -/
theorem foldlM_returns {σ : Type v} {items : List α} {step : σ → α → Except ε σ} {initial : σ}
    (each : ∀ state, ∀ item ∈ items, (step state item).Returns) :
    (items.foldlM step initial).Returns := by
  induction items generalizing initial with
  | nil => exact returns_pure _
  | cons item rest ih =>
    rw [List.foldlM_cons]
    refine (each initial item List.mem_cons_self).bind fun _ _ => ?_
    exact ih fun state other member => each state other (List.mem_cons_of_mem _ member)

theorem forM_eq_ok {f : α → Except ε PUnit} {items : List α}
    (each : ∀ item ∈ items, f item = .ok ⟨⟩) : items.forM f = .ok ⟨⟩ := by
  induction items with
  | nil => rfl
  | cons item rest ih =>
    rw [List.forM_eq_forM, List.forM_cons, each item (List.mem_cons_self ..), ok_bind]
    exact ih fun other member => each other (List.mem_cons_of_mem _ member)

/-- A traversal that returned has run every item. -/
theorem of_forM_eq_ok {f : α → Except ε PUnit} {items : List α} (ran : items.forM f = .ok ⟨⟩) :
    ∀ item ∈ items, f item = .ok ⟨⟩ := by
  induction items with
  | nil => exact fun item member => absurd member List.not_mem_nil
  | cons first rest ih =>
    rw [List.forM_eq_forM, List.forM_cons] at ran
    obtain ⟨_, done, later⟩ := bind_eq_ok.mp ran
    intro item member
    rcases List.mem_cons.mp member with rfl | member
    · exact done
    · exact ih later item member

end Except

namespace Machine

/-- What one iteration asks of its loop, with the state it leaves. -/
inductive Flow (σ : Type*) where
  | next (state : σ)
  | stop (state : σ)
deriving DecidableEq, Repr

/-- The state an iteration leaves, whichever way it ends. -/
def Flow.state {σ : Type*} : Flow σ → σ
  | .next state => state
  | .stop state => state

@[simp] theorem Flow.state_next {σ : Type*} (state : σ) : (Flow.next state).state = state := rfl
@[simp] theorem Flow.state_stop {σ : Type*} (state : σ) : (Flow.stop state).state = state := rfl

variable {ε σ τ α : Type*}

def Flow.map (f : σ → τ) : Flow σ → Flow τ
  | .next state => .next (f state)
  | .stop state => .stop (f state)

/-- Run the body over the items until it raises, breaks or no item is left. -/
def forLoop (body : σ → α → Except ε (Flow σ)) : σ → List α → Except ε σ
  | state, [] => .ok state
  | state, item :: rest =>
    match body state item with
    | .error e => .error e
    | .ok (.stop after) => .ok after
    | .ok (.next after) => forLoop body after rest

/-- A completed loop over a nonempty list completed its first iteration. -/
theorem forLoop_cons_eq_ok {body : σ → α → Except ε (Flow σ)} {state final : σ} {item : α}
    {rest : List α} :
    forLoop body state (item :: rest) = .ok final ↔
      body state item = .ok (.stop final) ∨
        ∃ after, body state item = .ok (.next after) ∧ forLoop body after rest = .ok final := by
  simp only [forLoop]
  cases body state item with
  | error e => simp
  | ok flow => cases flow <;> simp

/-- Whatever every completed iteration preserves holds when the loop completes. -/
theorem forLoop_invariant {body : σ → α → Except ε (Flow σ)} (inv : σ → Prop) {items : List α}
    {initial final : σ} (start : inv initial)
    (step : ∀ state item flow, item ∈ items → inv state → body state item = .ok flow →
      inv flow.state)
    (completed : forLoop body initial items = .ok final) : inv final := by
  induction items generalizing initial with
  | nil =>
    cases completed
    exact start
  | cons item rest ih =>
    rcases forLoop_cons_eq_ok.mp completed with stopped | ⟨after, ran, remaining⟩
    · exact step initial item _ (List.mem_cons_self ..) start stopped
    · exact ih (step initial item _ (List.mem_cons_self ..) start ran)
        (fun state other flow member => step state other flow (List.mem_cons_of_mem _ member))
        remaining

/-- A loop keeps one property while it runs and ends with another, whether it stops or runs out. -/
theorem forLoop_ends {body : σ → α → Except ε (Flow σ)} (running ended : σ → Prop) {items : List α}
    {initial final : σ} (start : running initial)
    (next : ∀ state item after, item ∈ items → running state → body state item = .ok (.next after) →
      running after)
    (stop : ∀ state item after, item ∈ items → running state → body state item = .ok (.stop after) →
      ended after)
    (out : ∀ state, running state → ended state)
    (completed : forLoop body initial items = .ok final) : ended final := by
  induction items generalizing initial with
  | nil =>
    cases completed
    exact out _ start
  | cons item rest ih =>
    rcases forLoop_cons_eq_ok.mp completed with stopped | ⟨after, ran, remaining⟩
    · exact stop _ item _ (List.mem_cons_self ..) start stopped
    · exact ih (next _ item after (List.mem_cons_self ..) start ran)
        (fun s i a member => next s i a (List.mem_cons_of_mem _ member))
        (fun s i a member => stop s i a (List.mem_cons_of_mem _ member)) remaining

/-- The invariant may name the items already consumed, so it can relate the state to the past. -/
theorem forLoop_history {body : σ → α → Except ε (Flow σ)} (inv : List α → σ → Prop)
    {items : List α} {initial final : σ} (start : inv [] initial)
    (step : ∀ past item future state flow, items = past ++ item :: future → inv past state →
      body state item = .ok flow → inv (past ++ [item]) flow.state)
    (completed : forLoop body initial items = .ok final) :
    ∃ past future, items = past ++ future ∧ inv past final := by
  suffices general : ∀ past future state, items = past ++ future → inv past state →
      forLoop body state future = .ok final →
        ∃ past future, items = past ++ future ∧ inv past final from
    general [] items initial rfl start completed
  intro past future
  induction future generalizing past with
  | nil =>
    intro state split holds done
    cases done
    exact ⟨past, [], split, holds⟩
  | cons item rest ih =>
    intro state split holds done
    have regroup : items = (past ++ [item]) ++ rest := by simpa using split
    rcases forLoop_cons_eq_ok.mp done with stopped | ⟨after, ran, remaining⟩
    · exact ⟨_, _, regroup, step past item rest state _ split holds stopped⟩
    · exact ih _ after regroup (step past item rest state _ split holds ran) remaining

/-- The loop has gone over these items, without a break, from the first state to the second. -/
inductive Reaches (body : σ → α → Except ε (Flow σ)) : σ → List α → σ → Prop
  | nil (state : σ) : Reaches body state [] state
  | cons {state after final : σ} {item : α} {rest : List α}
      (ran : body state item = .ok (.next after)) (later : Reaches body after rest final) :
      Reaches body state (item :: rest) final

/-- What every iteration the loop goes on after preserves holds of the states it reaches. -/
theorem Reaches.invariant {body : σ → α → Except ε (Flow σ)} (inv : σ → Prop) {items : List α}
    {initial final : σ} (reached : Reaches body initial items final) (start : inv initial)
    (step : ∀ state item after, item ∈ items → inv state → body state item = .ok (.next after) →
      inv after) : inv final := by
  induction reached with
  | nil => exact start
  | cons ran _ ih =>
    exact ih (step _ _ _ (List.mem_cons_self ..) start ran) fun state other after member =>
      step state other after (List.mem_cons_of_mem _ member)

theorem Reaches.concat {body : σ → α → Except ε (Flow σ)} {initial state after : σ} {items : List α}
    {item : α} (reached : Reaches body initial items state)
    (ran : body state item = .ok (.next after)) : Reaches body initial (items ++ [item]) after := by
  induction reached with
  | nil => exact .cons ran (.nil _)
  | cons first _ ih => exact .cons first (ih ran)

/-- The invariant of a reached state may name the items gone over. -/
theorem Reaches.history {body : σ → α → Except ε (Flow σ)} (inv : List α → σ → Prop) {items : List α}
    {initial final : σ} (reached : Reaches body initial items final) (start : inv [] initial)
    (step : ∀ past item future state after, items = past ++ item :: future →
      Reaches body initial past state → inv past state → body state item = .ok (.next after) →
        inv (past ++ [item]) after) : inv items final := by
  suffices general : ∀ past future state, items = past ++ future → Reaches body initial past state →
      inv past state → Reaches body state future final → inv items final from
    general [] items initial rfl (.nil _) start reached
  intro past future
  induction future generalizing past with
  | nil =>
    rintro state split _ holds ⟨⟩
    rw [split, List.append_nil]
    exact holds
  | cons item rest ih =>
    intro state split before holds later
    cases later with
    | cons ran later =>
      exact ih (past ++ [item]) _ (by simpa using split) (before.concat ran)
        (step past item rest state _ split before holds ran) later

/-- A completed loop ran out of items in a state it reached, or was left from one. -/
theorem forLoop_end_reached {body : σ → α → Except ε (Flow σ)} {items : List α} {initial final : σ}
    (completed : forLoop body initial items = .ok final) :
    ∃ past future state, items = past ++ future ∧ Reaches body initial past state ∧
      ((future = [] ∧ final = state) ∨
        ∃ item rest, future = item :: rest ∧ body state item = .ok (.stop final)) := by
  induction items generalizing initial with
  | nil =>
    cases completed
    exact ⟨[], [], _, rfl, .nil _, .inl ⟨rfl, rfl⟩⟩
  | cons item rest ih =>
    rcases forLoop_cons_eq_ok.mp completed with stopped | ⟨after, ran, remaining⟩
    · exact ⟨[], item :: rest, initial, rfl, .nil _, .inr ⟨item, rest, rfl, stopped⟩⟩
    · obtain ⟨past, future, state, split, reached, ends⟩ := ih remaining
      exact ⟨item :: past, future, state, by rw [split, List.cons_append], .cons ran reached, ends⟩

/-- An invariant that every iteration keeps in the states the loop reaches. -/
theorem forLoop_reached {body : σ → α → Except ε (Flow σ)} (inv : σ → Prop) {items : List α}
    {initial final : σ} (start : inv initial)
    (step : ∀ past item future state flow, items = past ++ item :: future →
      Reaches body initial past state → inv state → body state item = .ok flow → inv flow.state)
    (completed : forLoop body initial items = .ok final) : inv final := by
  suffices general : ∀ past future state, items = past ++ future → Reaches body initial past state →
      inv state → forLoop body state future = .ok final → inv final from
    general [] items initial rfl (.nil _) start completed
  intro past future
  induction future generalizing past with
  | nil =>
    intro state _ _ holds done
    cases done
    exact holds
  | cons item rest ih =>
    intro state split reached holds done
    rcases forLoop_cons_eq_ok.mp done with stopped | ⟨after, ran, remaining⟩
    · exact step past item rest state _ split reached holds stopped
    · exact ih (past ++ [item]) after (by simpa using split) (reached.concat ran)
        (step past item rest state _ split reached holds ran) remaining

/-- A loop returns exactly when its body does in every state the loop reaches. -/
theorem forLoop_returns_iff {body : σ → α → Except ε (Flow σ)} {initial : σ} {items : List α} :
    (forLoop body initial items).Returns ↔
      ∀ past item future state, items = past ++ item :: future → Reaches body initial past state →
        (body state item).Returns := by
  induction items generalizing initial with
  | nil => simp [forLoop]
  | cons first rest ih =>
    constructor
    · rintro ⟨final, completed⟩ past item future state split reached
      cases reached with
      | nil =>
        obtain ⟨rfl, rfl⟩ := List.cons.inj split
        rcases forLoop_cons_eq_ok.mp completed with stopped | ⟨after, ran, _⟩
        · exact ⟨_, stopped⟩
        · exact ⟨_, ran⟩
      | cons ran reached =>
        obtain ⟨rfl, tail⟩ := List.cons.inj split
        rcases forLoop_cons_eq_ok.mp completed with stopped | ⟨after, same, remaining⟩
        · rw [ran] at stopped
          cases stopped
        · rw [ran] at same
          cases same
          exact ih.mp ⟨final, remaining⟩ _ item future state tail reached
    · intro each
      obtain ⟨flow, ran⟩ := each [] first rest initial rfl (.nil initial)
      cases flow with
      | stop after => exact ⟨after, forLoop_cons_eq_ok.mpr (.inl ran)⟩
      | next after =>
        have later := ih.mpr fun past item future state split reached =>
          each (first :: past) item future state (by rw [split, List.cons_append])
            (.cons ran reached)
        obtain ⟨final, completed⟩ := later
        exact ⟨final, forLoop_cons_eq_ok.mpr (.inr ⟨after, ran, completed⟩)⟩

/-- A loop returns when its body does in every state with an invariant it keeps; the invariant may
name the items already consumed. -/
theorem forLoop_returns {body : σ → α → Except ε (Flow σ)} (inv : List α → σ → Prop)
    {items : List α} {initial : σ} (start : inv [] initial)
    (step : ∀ past item future state, items = past ++ item :: future → inv past state →
      ∃ flow, body state item = .ok flow ∧ inv (past ++ [item]) flow.state) :
    (forLoop body initial items).Returns := by
  suffices general : ∀ past future state, items = past ++ future → inv past state →
      (forLoop body state future).Returns from general [] items initial rfl start
  intro past future
  induction future generalizing past with
  | nil => exact fun state _ _ => ⟨state, rfl⟩
  | cons item rest ih =>
    intro state split holds
    obtain ⟨flow, ran, kept⟩ := step past item rest state split holds
    cases flow with
    | stop after => exact ⟨after, forLoop_cons_eq_ok.mpr (.inl ran)⟩
    | next after =>
      obtain ⟨final, completed⟩ := ih (past ++ [item]) after (by simpa using split) kept
      exact ⟨final, forLoop_cons_eq_ok.mpr (.inr ⟨after, ran, completed⟩)⟩

/-- Bodies that agree in every state the loop reaches run the same loop, errors included. -/
theorem forLoop_congr_reached {body other : σ → α → Except ε (Flow σ)} {initial : σ} {items : List α}
    (same : ∀ past item future state, items = past ++ item :: future →
      Reaches body initial past state → body state item = other state item) :
    forLoop body initial items = forLoop other initial items := by
  induction items generalizing initial with
  | nil => rfl
  | cons item rest ih =>
    simp only [forLoop, ← same [] item rest initial rfl (.nil initial)]
    cases ran : body initial item with
    | error e => rfl
    | ok flow =>
      cases flow with
      | stop after => rfl
      | next after =>
        exact ih fun past other future state split reached =>
          same (item :: past) other future state (by rw [split, List.cons_append]) (.cons ran reached)

theorem forLoop_congr {body other : σ → α → Except ε (Flow σ)} {items : List α}
    (same : ∀ state, ∀ item ∈ items, body state item = other state item) (state : σ) :
    forLoop body state items = forLoop other state items :=
  forLoop_congr_reached fun _ item _ state split _ => same state item (by simp [split])

/-- A loop whose body commutes with a map of states commutes with it. -/
theorem forLoop_map {f : σ → τ} {body : σ → α → Except ε (Flow σ)} {image : τ → α → Except ε (Flow τ)}
    (commutes : ∀ state item, image (f state) item = (body state item).map (Flow.map f))
    (initial : σ) (items : List α) :
    forLoop image (f initial) items = (forLoop body initial items).map f := by
  induction items generalizing initial with
  | nil => rfl
  | cons item rest ih =>
    simp only [forLoop, commutes]
    cases body initial item with
    | error e => rfl
    | ok flow =>
      cases flow with
      | stop after => rfl
      | next after => exact ih after

/-- The first iteration of a completed loop, and what became of the rest. -/
def Resumes (body : σ → α → Except ε (Flow σ)) (rest : List α) (flow : Flow σ) (final : σ) : Prop :=
  match flow with
  | .stop after => after = final
  | .next after => forLoop body after rest = .ok final

theorem forLoop_cons_resumes {body : σ → α → Except ε (Flow σ)} {state final : σ} {item : α}
    {rest : List α} (completed : forLoop body state (item :: rest) = .ok final) :
    ∃ flow, body state item = .ok flow ∧ Resumes body rest flow final := by
  rcases forLoop_cons_eq_ok.mp completed with stopped | ⟨after, ran, remaining⟩
  · exact ⟨_, stopped, rfl⟩
  · exact ⟨_, ran, remaining⟩

section Observation

variable {ω : Type*} (observe : σ → ω) (quiet : σ → Prop)

/-- A quiet state stays quiet over an item and its observation does not move. -/
def Calm (body : σ → α → Except ε (Flow σ)) (items : List α) : Prop :=
  ∀ state item flow, item ∈ items → quiet state → body state item = .ok flow →
    quiet flow.state ∧ observe flow.state = observe state

/-- No item of the list moves the observation, from whatever state it is met. -/
def Late (body : σ → α → Except ε (Flow σ)) (items : List α) : Prop :=
  ∀ state item flow, item ∈ items → body state item = .ok flow →
    observe flow.state = observe state

variable {observe quiet}

theorem Calm.tail {body : σ → α → Except ε (Flow σ)} {item : α} {rest : List α}
    (calm : Calm observe quiet body (item :: rest)) : Calm observe quiet body rest :=
  fun state other flow member => calm state other flow (List.mem_cons_of_mem _ member)

/-- A loop over late items ends with the observation it started with. -/
theorem Late.observe_eq {body : σ → α → Except ε (Flow σ)} {items : List α}
    (late : Late observe body items) {initial final : σ}
    (completed : forLoop body initial items = .ok final) : observe final = observe initial :=
  forLoop_invariant (fun state => observe state = observe initial) rfl
    (fun state item flow member same ran => (late state item flow member ran).trans same) completed

/-- From a quiet state, calm items followed by late ones leave the observation alone. -/
theorem Calm.observe_eq {body : σ → α → Except ε (Flow σ)} {before after : List α}
    (calm : Calm observe quiet body before) (late : Late observe body after) {initial final : σ}
    (start : quiet initial) (completed : forLoop body initial (before ++ after) = .ok final) :
    observe final = observe initial := by
  induction before generalizing initial with
  | nil => exact late.observe_eq completed
  | cons item rest ih =>
    obtain ⟨flow, ran, resumes⟩ := forLoop_cons_resumes completed
    have moved := calm initial item flow (List.mem_cons_self ..) start ran
    cases flow with
    | stop after =>
      obtain rfl : after = final := resumes
      exact moved.2
    | next after => exact (ih calm.tail moved.1 resumes).trans moved.2

/-- The same rule after the first iteration, whichever way it ended. -/
theorem Calm.observe_resumes {body : σ → α → Except ε (Flow σ)} {before after : List α}
    (calm : Calm observe quiet body before) (late : Late observe body after) {flow : Flow σ}
    {final : σ} (start : quiet flow.state) (resumes : Resumes body (before ++ after) flow final) :
    observe final = observe flow.state := by
  cases flow with
  | stop after =>
    obtain rfl : after = final := resumes
    rfl
  | next next => exact calm.observe_eq late start resumes

/-- Two completed loops over lists with a common prefix end with the same observation when, on the
common items, they stay in lockstep until both are quiet with equal observations. -/
theorem forLoop_two_runs {left right : σ → α → Except ε (Flow σ)} {common leftRest rightRest : List α}
    (lockstep : ∀ state item leftFlow rightFlow, item ∈ common → left state item = .ok leftFlow →
      right state item = .ok rightFlow → leftFlow = rightFlow ∨
        (quiet leftFlow.state ∧ quiet rightFlow.state ∧
          observe leftFlow.state = observe rightFlow.state))
    (leftCalm : Calm observe quiet left common) (rightCalm : Calm observe quiet right common)
    (leftLate : Late observe left leftRest) (rightLate : Late observe right rightRest)
    {initial leftFinal rightFinal : σ}
    (leftRun : forLoop left initial (common ++ leftRest) = .ok leftFinal)
    (rightRun : forLoop right initial (common ++ rightRest) = .ok rightFinal) :
    observe leftFinal = observe rightFinal := by
  induction common generalizing initial with
  | nil => exact (leftLate.observe_eq leftRun).trans (rightLate.observe_eq rightRun).symm
  | cons item rest ih =>
    obtain ⟨leftFlow, leftStep, leftTail⟩ := forLoop_cons_resumes leftRun
    obtain ⟨rightFlow, rightStep, rightTail⟩ := forLoop_cons_resumes rightRun
    rcases lockstep initial item _ _ (List.mem_cons_self ..) leftStep rightStep with
      rfl | ⟨leftQuiet, rightQuiet, same⟩
    · cases leftFlow with
      | stop after =>
        obtain rfl : after = leftFinal := leftTail
        exact congrArg observe rightTail
      | next after =>
        exact ih (fun s i f g member => lockstep s i f g (List.mem_cons_of_mem _ member))
          leftCalm.tail rightCalm.tail leftTail rightTail
    · exact (leftCalm.tail.observe_resumes leftLate leftQuiet leftTail).trans
        (same.trans (rightCalm.tail.observe_resumes rightLate rightQuiet rightTail).symm)

end Observation

end Machine
