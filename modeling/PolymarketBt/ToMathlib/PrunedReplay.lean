import Mathlib.Tactic

/-! # Replaying a log of statements with and without pruning

An event of a log states what some keys hold and admits some keys. One view takes every statement,
the other also drops what an event does not admit. What a view holds at a key is decided by the
last event that speaks of the key, and the two agree exactly where that event and all later ones
admit the value it gave.
-/

/-- What the events of a log say of a key: nothing, that it is empty, or its value. -/
structure PrunedReplay (α κ ν : Type*) where
  states : α → κ → Option (Option ν)
  admits : α → κ → Prop

namespace PrunedReplay

variable {α κ ν : Type*} (replay : PrunedReplay α κ ν)

/-- The view after an event that is taken at its word. -/
def stated (view : κ → Option ν) (event : α) : κ → Option ν :=
  fun key => (replay.states event key).getD (view key)

open Classical in
/-- The view after an event that also drops what it does not admit. -/
noncomputable def pruned (view : κ → Option ν) (event : α) : κ → Option ν :=
  fun key => if replay.admits event key then replay.stated view event key else none

/-- No event speaks of the key. -/
def Silent (events : List α) (key : κ) : Prop := ∀ event ∈ events, replay.states event key = none

/-- Every event admits the key. -/
def Admitted (events : List α) (key : κ) : Prop := ∀ event ∈ events, replay.admits event key

variable {replay} {events earlier later : List α} {event : α} {key : κ} {view : κ → Option ν}

theorem foldl_stated_of_silent (silent : replay.Silent events key) :
    events.foldl replay.stated view key = view key := by
  induction events generalizing view with
  | nil => rfl
  | cons event rest ih =>
    obtain ⟨quiet, rest⟩ := List.forall_mem_cons.mp silent
    rw [List.foldl_cons, ih rest, stated, quiet, Option.getD_none]

open Classical in
theorem foldl_pruned_of_silent (silent : replay.Silent events key) :
    events.foldl replay.pruned view key =
      if replay.Admitted events key then view key else none := by
  induction events generalizing view with
  | nil => exact (if_pos fun _ member => nomatch member).symm
  | cons event rest ih =>
    obtain ⟨quiet, rest⟩ := List.forall_mem_cons.mp silent
    rw [List.foldl_cons, ih rest, pruned, stated, quiet, Option.getD_none]
    by_cases admitted : replay.admits event key
    · simp [Admitted, admitted]
    · simp [Admitted, admitted]

/-- A key that is spoken of has a last event that speaks of it. -/
theorem exists_last (spoken : ¬ replay.Silent events key) :
    ∃ earlier event later value, events = earlier ++ event :: later ∧
      replay.states event key = some value ∧ replay.Silent later key := by
  induction events with
  | nil => exact absurd (fun _ member => nomatch member) spoken
  | cons event rest ih =>
    by_cases silent : replay.Silent rest key
    · cases said : replay.states event key with
      | none =>
        have quiet : replay.Silent (event :: rest) key := List.forall_mem_cons.mpr ⟨said, silent⟩
        exact absurd quiet spoken
      | some value => exact ⟨[], event, rest, value, rfl, said, silent⟩
    · obtain ⟨earlier, last, later, value, rfl, said, quiet⟩ := ih silent
      exact ⟨event :: earlier, last, later, value, rfl, said, quiet⟩

section Last

variable {value : Option ν} (said : replay.states event key = some value)
  (silent : replay.Silent later key)
include said silent

theorem foldl_stated_of_last : (earlier ++ event :: later).foldl replay.stated view key = value := by
  rw [List.foldl_append, List.foldl_cons, foldl_stated_of_silent silent, stated, said,
    Option.getD_some]

open Classical in
theorem foldl_pruned_of_last : (earlier ++ event :: later).foldl replay.pruned view key =
    if replay.Admitted (event :: later) key then value else none := by
  rw [List.foldl_append, List.foldl_cons, foldl_pruned_of_silent silent, pruned, stated, said,
    Option.getD_some]
  by_cases admitted : replay.admits event key
  · simp [Admitted, admitted]
  · simp [Admitted, admitted]

end Last

/-- When no two events speak of one key, a view that starts empty holds what was stated. -/
theorem foldl_stated_eq_some_iff {value : ν}
    (distinct : events.Pairwise fun first second => ∀ key,
      replay.states first key ≠ none → replay.states second key = none)
    (empty : view key = none) :
    events.foldl replay.stated view key = some value ↔
      ∃ event ∈ events, replay.states event key = some (some value) := by
  constructor
  · intro holds
    by_cases silent : replay.Silent events key
    · rw [foldl_stated_of_silent silent, empty] at holds
      cases holds
    · obtain ⟨earlier, event, later, said, rfl, speaks, quiet⟩ := exists_last silent
      rw [foldl_stated_of_last speaks quiet] at holds
      exact ⟨event, by simp, holds ▸ speaks⟩
  · rintro ⟨event, member, speaks⟩
    obtain ⟨earlier, later, rfl⟩ := List.append_of_mem member
    have apart := (List.pairwise_cons.mp (List.pairwise_append.mp distinct).2.1).1
    refine foldl_stated_of_last speaks fun next isLater => apart next isLater key ?_
    rw [speaks]
    exact Option.some_ne_none _

/-- Every value that stands at the end was held by both views or stated by an event, and has been
admitted ever since. -/
structure Unpruned (replay : PrunedReplay α κ ν) (view kept : κ → Option ν) (events : List α) :
    Prop where
  held : ∀ key value, view key = some value → replay.Silent events key →
    kept key = some value ∧ replay.Admitted events key
  stated : ∀ earlier event later key value, events = earlier ++ event :: later →
    replay.states event key = some (some value) → replay.Silent later key →
    replay.Admitted (event :: later) key

/-- The two views agree exactly when nothing that stands at the end was ever pruned. -/
theorem foldl_eq_iff_unpruned {kept : κ → Option ν}
    (below : ∀ key value, kept key = some value → view key = some value) :
    (∀ key, events.foldl replay.stated view key = events.foldl replay.pruned kept key) ↔
      replay.Unpruned view kept events := by
  constructor
  · intro agree
    constructor
    · intro key value held silent
      have same := agree key
      rw [foldl_stated_of_silent silent, foldl_pruned_of_silent silent, held] at same
      split at same
      · next admitted => exact ⟨same.symm, admitted⟩
      · cases same
    · rintro earlier event later key value rfl said silent
      have same := agree key
      rw [foldl_stated_of_last said silent, foldl_pruned_of_last said silent] at same
      split at same
      · next admitted => exact admitted
      · cases same
  · intro unpruned key
    by_cases silent : replay.Silent events key
    · rw [foldl_stated_of_silent silent, foldl_pruned_of_silent silent]
      cases held : view key with
      | none =>
        cases keeps : kept key with
        | none => exact (ite_self _).symm
        | some value =>
          rw [below key value keeps] at held
          cases held
      | some value =>
        obtain ⟨keeps, admitted⟩ := unpruned.held key value held silent
        rw [if_pos admitted, keeps]
    · obtain ⟨earlier, event, later, value, rfl, said, quiet⟩ := exists_last silent
      rw [foldl_stated_of_last said quiet, foldl_pruned_of_last said quiet]
      cases value with
      | none => exact (ite_self _).symm
      | some value =>
        rw [if_pos (unpruned.stated earlier event later key value rfl said quiet)]

end PrunedReplay
