import PolymarketBt.Model.Maker

/-! # The queue models bracket each other

Three orders that differ only in their queue model watch one level. The size ahead of the
proportional one never exceeds the displayed total, which is what makes its floored share of a
decrease at most the decrease itself; the code does not state this bound, and the order of the models
rests on it.
-/

namespace PolymarketBt

/-! ## What happens at a level -/

/-- What happens at the level of a simulated order. -/
inductive LevelEvent where
  | trade (sizeScaled : ℤ)
  | cancellation (sizeScaled : ℤ)
  /-- New size, which joins behind the order. -/
  | behind (sizeScaled : ℤ)
deriving DecidableEq, Repr

namespace LevelEvent

/-- The displayed total after an event. -/
def total (totalScaled : ℤ) : LevelEvent → ℤ
  | trade size => totalScaled - size
  | cancellation size => totalScaled - size
  | behind size => totalScaled + size

/-- What an event can be at a level that displays a total. -/
def Fits (totalScaled : ℤ) : LevelEvent → Prop
  | trade size => 0 ≤ size ∧ size ≤ totalScaled
  | cancellation size => 0 ≤ size ∧ size ≤ totalScaled
  | behind size => 0 ≤ size

instance (totalScaled : ℤ) (event : LevelEvent) : Decidable (event.Fits totalScaled) :=
  match event with
  | trade size => inferInstanceAs (Decidable (0 ≤ size ∧ size ≤ totalScaled))
  | cancellation size => inferInstanceAs (Decidable (0 ≤ size ∧ size ≤ totalScaled))
  | behind size => inferInstanceAs (Decidable (0 ≤ size))

/-- Events that each fit the total the ones before leave. -/
def AllFit : ℤ → List LevelEvent → Prop
  | _, [] => True
  | totalScaled, event :: later => event.Fits totalScaled ∧ AllFit (event.total totalScaled) later

end LevelEvent

/-! ## Three orders at one level -/

/-- The orders of the three models, and what each has done so far. -/
structure WatchedLevel where
  totalScaled : ℤ
  tradedScaled : ℤ
  queue : QueueModel → MakerQueueState
  /-- The fills `observeTrade` has returned. -/
  fillsScaled : QueueModel → ℤ
  /-- The size that trades have taken off the queue. -/
  advancedScaled : QueueModel → ℤ

namespace WatchedLevel

/-- Orders that differ only in their queue model, before anything happens at the level. -/
def start (orderId : String) (sizeScaled aheadScaled totalScaled : ℤ) : WatchedLevel where
  totalScaled := totalScaled
  tradedScaled := 0
  queue model := {
    orderId
    displayedAheadScaled := aheadScaled
    simulatedSizeScaled := sizeScaled
    queueModel := model }
  fillsScaled _ := 0
  advancedScaled _ := 0

def step (level : WatchedLevel) (event : LevelEvent) : WatchedLevel :=
  match event with
  | .trade size => {
      totalScaled := event.total level.totalScaled
      tradedScaled := level.tradedScaled + size
      queue := fun model => ((level.queue model).observeTrade size).2
      fillsScaled := fun model =>
        level.fillsScaled model + ((level.queue model).observeTrade size).1
      advancedScaled := fun model => level.advancedScaled model +
        ((level.queue model).displayedAheadScaled -
          ((level.queue model).observeTrade size).2.displayedAheadScaled) }
  | .cancellation size => { level with
      totalScaled := event.total level.totalScaled
      queue := fun model => (level.queue model).observeDisplayedDecrease size level.totalScaled }
  | .behind _ => { level with totalScaled := event.total level.totalScaled }

def run (level : WatchedLevel) (events : List LevelEvent) : WatchedLevel := events.foldl step level

/-- The models in order, and every order within its size and the traded volume. -/
structure Bracketed (level : WatchedLevel) (sizeScaled : ℤ) : Prop where
  ahead : 0 ≤ (level.queue .optimistic).displayedAheadScaled ∧
    (level.queue .optimistic).displayedAheadScaled ≤
      (level.queue .proportional).displayedAheadScaled ∧
    (level.queue .proportional).displayedAheadScaled ≤
      (level.queue .conservative).displayedAheadScaled
  filled : 0 ≤ (level.queue .conservative).filledScaled ∧
    (level.queue .conservative).filledScaled ≤ (level.queue .proportional).filledScaled ∧
    (level.queue .proportional).filledScaled ≤ (level.queue .optimistic).filledScaled ∧
    (level.queue .optimistic).filledScaled ≤ sizeScaled
  volume : ∀ model, level.fillsScaled model = (level.queue model).filledScaled ∧
    level.fillsScaled model + level.advancedScaled model ≤ level.tradedScaled

end WatchedLevel

/-! ## One order ahead of another -/

namespace MakerQueueState

/-- An order with no more ahead of it than another of its size, and no less of it filled. -/
structure AheadOf (first second : MakerQueueState) : Prop where
  size : first.simulatedSizeScaled = second.simulatedSizeScaled
  ahead : first.displayedAheadScaled ≤ second.displayedAheadScaled
  filled : second.filledScaled ≤ first.filledScaled

variable {first second state : MakerQueueState} {sizeScaled totalScaled : ℤ}

/-- A trade keeps the order between two queues. -/
theorem AheadOf.trade (before : first.AheadOf second) :
    (first.observeTrade sizeScaled).2.AheadOf (second.observeTrade sizeScaled).2 := by
  obtain ⟨size, ahead, filled⟩ := before
  refine ⟨size, ?_, ?_⟩
  · change first.displayedAheadScaled - min first.displayedAheadScaled sizeScaled ≤
      second.displayedAheadScaled - min second.displayedAheadScaled sizeScaled
    omega
  · change second.filledScaled + min (sizeScaled - min second.displayedAheadScaled sizeScaled)
        (second.simulatedSizeScaled - second.filledScaled) ≤
      first.filledScaled + min (sizeScaled - min first.displayedAheadScaled sizeScaled)
        (first.simulatedSizeScaled - first.filledScaled)
    omega

/-- A trade splits into what it takes off the queue, what it fills, and what passes by. -/
theorem trade_volume (sizeScaled : ℤ) (room : state.filledScaled ≤ state.simulatedSizeScaled) :
    0 ≤ (state.observeTrade sizeScaled).1 ∧
      0 ≤ (state.observeTrade sizeScaled).2.displayedAheadScaled ∧
      (state.observeTrade sizeScaled).2.filledScaled ≤ state.simulatedSizeScaled ∧
      (state.observeTrade sizeScaled).1 + (state.displayedAheadScaled -
        (state.observeTrade sizeScaled).2.displayedAheadScaled) ≤ sizeScaled := by
  simp only [observeTrade]
  omega

/-- The share of a decrease ahead of an order within the total is between nothing and all of it, and
leaves what is ahead within the total. -/
theorem aheadShare_bounds (queued : 0 ≤ state.displayedAheadScaled)
    (within : state.displayedAheadScaled ≤ totalScaled) (some : 0 < totalScaled)
    (size : 0 ≤ sizeScaled) (fits : sizeScaled ≤ totalScaled) :
    0 ≤ state.displayedAheadScaled * sizeScaled / totalScaled ∧
      state.displayedAheadScaled * sizeScaled / totalScaled ≤ sizeScaled ∧
      state.displayedAheadScaled * sizeScaled / totalScaled ≤ state.displayedAheadScaled ∧
      state.displayedAheadScaled - state.displayedAheadScaled * sizeScaled / totalScaled ≤
        totalScaled - sizeScaled := by
  refine ⟨Int.ediv_nonneg (mul_nonneg queued size) some.le, ?_, ?_, ?_⟩
  · refine Int.ediv_le_of_le_mul some ?_
    rw [mul_comm]
    exact mul_le_mul_of_nonneg_left within size
  · exact Int.ediv_le_of_le_mul some (mul_le_mul_of_nonneg_left fits queued)
  · rw [sub_le_comm, Int.le_ediv_iff_mul_le some]
    nlinarith

/-- A cancellation takes off an optimistic queue at least what it takes off a proportional one. -/
theorem AheadOf.cancel_optimistic (before : first.AheadOf second)
    (optimistic : first.queueModel = .optimistic) (proportional : second.queueModel = .proportional)
    (queued : 0 ≤ second.displayedAheadScaled) (within : second.displayedAheadScaled ≤ totalScaled)
    (size : 0 ≤ sizeScaled) (fits : sizeScaled ≤ totalScaled) :
    (first.observeDisplayedDecrease sizeScaled totalScaled).AheadOf
        (second.observeDisplayedDecrease sizeScaled totalScaled) ∧
      (second.observeDisplayedDecrease sizeScaled totalScaled).displayedAheadScaled ≤
        totalScaled - sizeScaled := by
  obtain ⟨same, ahead, filled⟩ := before
  simp only [observeDisplayedDecrease, optimistic, proportional]
  split
  · exact ⟨⟨same, by dsimp only; omega, filled⟩, by omega⟩
  · next some =>
    obtain ⟨nonneg, share, part, left⟩ :=
      aheadShare_bounds queued within (not_le.mp some) size fits
    exact ⟨⟨same, by dsimp only; omega, filled⟩, by dsimp only; omega⟩

/-- A cancellation takes nothing off a conservative queue. -/
theorem AheadOf.cancel_conservative (before : first.AheadOf second)
    (proportional : first.queueModel = .proportional)
    (conservative : second.queueModel = .conservative)
    (queued : 0 ≤ first.displayedAheadScaled) (size : 0 ≤ sizeScaled) :
    (first.observeDisplayedDecrease sizeScaled totalScaled).AheadOf
      (second.observeDisplayedDecrease sizeScaled totalScaled) := by
  obtain ⟨same, ahead, filled⟩ := before
  simp only [observeDisplayedDecrease, proportional, conservative]
  split
  · exact ⟨same, ahead, filled⟩
  · next some =>
    have share : 0 ≤ first.displayedAheadScaled * sizeScaled / totalScaled :=
      Int.ediv_nonneg (mul_nonneg queued size) (not_le.mp some).le
    exact ⟨same, by dsimp only; omega, filled⟩

@[simp] theorem observeDisplayedDecrease_filled :
    (state.observeDisplayedDecrease sizeScaled totalScaled).filledScaled = state.filledScaled := by
  unfold observeDisplayedDecrease
  repeat' split
  all_goals rfl

@[simp] theorem observeDisplayedDecrease_size :
    (state.observeDisplayedDecrease sizeScaled totalScaled).simulatedSizeScaled =
      state.simulatedSizeScaled := by
  unfold observeDisplayedDecrease
  repeat' split
  all_goals rfl

@[simp] theorem observeDisplayedDecrease_model :
    (state.observeDisplayedDecrease sizeScaled totalScaled).queueModel = state.queueModel := by
  unfold observeDisplayedDecrease
  repeat' split
  all_goals rfl

theorem optimistic_nonneg (optimistic : state.queueModel = .optimistic) :
    0 ≤ (state.observeDisplayedDecrease sizeScaled totalScaled).displayedAheadScaled := by
  simp only [observeDisplayedDecrease, optimistic]
  exact le_max_left _ _

end MakerQueueState

namespace WatchedLevel

variable {level : WatchedLevel} {sizeScaled : ℤ} {event : LevelEvent}

/-- What every event keeps of three orders of one size. -/
structure Coupled (level : WatchedLevel) (sizeScaled : ℤ) : Prop where
  model : ∀ model, (level.queue model).queueModel = model
  size : ∀ model, (level.queue model).simulatedSizeScaled = sizeScaled
  optimistic : (level.queue .optimistic).AheadOf (level.queue .proportional)
  conservative : (level.queue .proportional).AheadOf (level.queue .conservative)
  queued : 0 ≤ (level.queue .optimistic).displayedAheadScaled
  /-- The bound the code does not state. -/
  within : (level.queue .proportional).displayedAheadScaled ≤ level.totalScaled
  filled : 0 ≤ (level.queue .conservative).filledScaled
  room : (level.queue .optimistic).filledScaled ≤ sizeScaled
  volume : ∀ model, level.fillsScaled model = (level.queue model).filledScaled ∧
    level.fillsScaled model + level.advancedScaled model ≤ level.tradedScaled

theorem Coupled.room_of (coupled : level.Coupled sizeScaled) (model : QueueModel) :
    (level.queue model).filledScaled ≤ (level.queue model).simulatedSizeScaled := by
  rw [coupled.size]
  have first := coupled.optimistic.filled
  have second := coupled.conservative.filled
  have room := coupled.room
  cases model <;> omega

theorem Coupled.bracketed (coupled : level.Coupled sizeScaled) : level.Bracketed sizeScaled where
  ahead := ⟨coupled.queued, coupled.optimistic.ahead, coupled.conservative.ahead⟩
  filled := ⟨coupled.filled, coupled.conservative.filled, coupled.optimistic.filled, coupled.room⟩
  volume := coupled.volume

theorem start_coupled {orderId : String} {aheadScaled totalScaled : ℤ} (size : 0 ≤ sizeScaled)
    (queued : 0 ≤ aheadScaled) (within : aheadScaled ≤ totalScaled) :
    (start orderId sizeScaled aheadScaled totalScaled).Coupled sizeScaled where
  model _ := rfl
  size _ := rfl
  optimistic := ⟨rfl, le_rfl, le_rfl⟩
  conservative := ⟨rfl, le_rfl, le_rfl⟩
  queued := queued
  within := within
  filled := le_rfl
  room := size
  volume _ := ⟨rfl, le_rfl⟩

theorem Coupled.trade {size : ℤ} (coupled : level.Coupled sizeScaled)
    (fits : (LevelEvent.trade size).Fits level.totalScaled) :
    (level.step (.trade size)).Coupled sizeScaled := by
  have first := coupled.room_of .optimistic
  have last := coupled.room_of .conservative
  refine ⟨coupled.model, coupled.size, coupled.optimistic.trade, coupled.conservative.trade,
    (MakerQueueState.trade_volume size first).2.1, ?_, ?_, ?_, fun model => ?_⟩
  · have within := coupled.within
    have nonneg := fits.1
    change (level.queue .proportional).displayedAheadScaled -
      min (level.queue .proportional).displayedAheadScaled size ≤ level.totalScaled - size
    have bound := fits.2
    omega
  · have filled := coupled.filled
    have fill := (MakerQueueState.trade_volume size last).1
    exact add_nonneg filled fill
  · have bounded := (MakerQueueState.trade_volume size first).2.2.1
    rwa [coupled.size] at bounded
  · obtain ⟨fills, volume⟩ := coupled.volume model
    obtain ⟨_, _, _, split⟩ := MakerQueueState.trade_volume size (coupled.room_of model)
    refine ⟨congrArg (· + _) fills, ?_⟩
    simp only [step]
    omega

theorem Coupled.cancellation {size : ℤ} (coupled : level.Coupled sizeScaled)
    (fits : (LevelEvent.cancellation size).Fits level.totalScaled) :
    (level.step (.cancellation size)).Coupled sizeScaled := by
  have queued : 0 ≤ (level.queue .proportional).displayedAheadScaled :=
    coupled.queued.trans coupled.optimistic.ahead
  obtain ⟨optimistic, within⟩ := coupled.optimistic.cancel_optimistic (coupled.model _)
    (coupled.model _) queued coupled.within fits.1 fits.2
  exact {
    model := fun model => MakerQueueState.observeDisplayedDecrease_model.trans (coupled.model model)
    size := fun model => MakerQueueState.observeDisplayedDecrease_size.trans (coupled.size model)
    optimistic
    conservative :=
      coupled.conservative.cancel_conservative (coupled.model _) (coupled.model _) queued fits.1
    queued := MakerQueueState.optimistic_nonneg (coupled.model _)
    within
    filled := coupled.filled.trans_eq MakerQueueState.observeDisplayedDecrease_filled.symm
    room := MakerQueueState.observeDisplayedDecrease_filled.trans_le coupled.room
    volume := fun model => ⟨(coupled.volume model).1.trans
      MakerQueueState.observeDisplayedDecrease_filled.symm, (coupled.volume model).2⟩ }

theorem Coupled.step (coupled : level.Coupled sizeScaled) (fits : event.Fits level.totalScaled) :
    (level.step event).Coupled sizeScaled := by
  cases event with
  | trade size => exact coupled.trade fits
  | cancellation size => exact coupled.cancellation fits
  | behind size => exact { coupled with within := coupled.within.trans (le_add_of_nonneg_right fits) }

theorem step_total : (level.step event).totalScaled = event.total level.totalScaled := by
  cases event <;> rfl

/-- After every event of a sequence that fits the level, the models bracket each other. -/
theorem Coupled.run {events : List LevelEvent} (coupled : level.Coupled sizeScaled)
    (fits : LevelEvent.AllFit level.totalScaled events) :
    ∀ prior ∈ events.inits, (level.run prior).Coupled sizeScaled := by
  induction events generalizing level with
  | nil =>
    intro prior member
    obtain rfl := List.mem_singleton.mp member
    exact coupled
  | cons event later ih =>
    obtain ⟨own, rest⟩ := fits
    rw [← step_total] at rest
    intro prior member
    rw [List.inits_cons, List.mem_cons, List.mem_map] at member
    rcases member with rfl | ⟨others, member, rfl⟩
    · exact coupled
    · exact ih (coupled.step own) rest others member

/-- Three orders that differ only in their queue model bracket each other after every event. -/
theorem queue_models_bracket (orderId : String) {sizeScaled aheadScaled totalScaled : ℤ}
    (size : 0 ≤ sizeScaled) (queued : 0 ≤ aheadScaled) (within : aheadScaled ≤ totalScaled)
    {events : List LevelEvent} (fits : LevelEvent.AllFit totalScaled events) :
    ∀ prior ∈ events.inits,
      ((start orderId sizeScaled aheadScaled totalScaled).run prior).Bracketed sizeScaled :=
  fun prior member => ((start_coupled size queued within).run fits prior member).bracketed

/-- A cancellation of a third of the level lets the models part, and a trade reaches two orders. -/
theorem queue_models_bracket_apart :
    let level := (start "maker" 5000000 7000000 9000000).run [.cancellation 3000000, .trade 6000000]
    level.Bracketed 5000000 ∧
      [QueueModel.conservative, .proportional, .optimistic].map
        (fun model => (level.queue model).filledScaled) = [0, 1333333, 2000000] := by
  have fits : LevelEvent.AllFit 9000000 [.cancellation 3000000, .trade 6000000, .behind 2000000] :=
    ⟨by decide, by decide, by decide, trivial⟩
  exact ⟨queue_models_bracket "maker" (by decide) (by decide) (by decide) fits
    [.cancellation 3000000, .trade 6000000] (by decide), by decide⟩

end WatchedLevel

end PolymarketBt
