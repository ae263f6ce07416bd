import PolymarketBt.Proofs.Engine

/-! # Gaps in a replay

The engine compares quality intervals with the receipt times of the events it applies. A completed
run therefore knows exactly the intervals that contain such a receipt time, and it misses the gaps
that fall between two of them.
-/

namespace PolymarketBt

namespace QualityInterval

/-- The states that a run without gaps must not meet. -/
def Unusable (interval : QualityInterval) : Prop :=
  interval.state = .unreliable ∨ interval.state = .excluded

/-- The states that a run with gaps must list. -/
def Imperfect (interval : QualityInterval) : Prop :=
  interval.Unusable ∨ interval.state = .degraded

/-- The interval meets the span from the first receipt to the last. -/
def Intersects (interval : QualityInterval) (events : List ReplayEvent) : Prop :=
  ∃ timestampNs, interval.contains timestampNs ∧
    (∃ first ∈ events, first.receivedUtcNs ≤ timestampNs) ∧
    ∃ last ∈ events, timestampNs ≤ last.receivedUtcNs

/-- An event was received inside the interval. -/
def Observed (interval : QualityInterval) (events : List ReplayEvent) : Prop :=
  ∃ event ∈ events, interval.contains event.receivedUtcNs

end QualityInterval

namespace ReplayIntegrity

@[simp] theorem mem_noteUsed {used : List QualityInterval} {interval other : QualityInterval} :
    other ∈ noteUsed used interval ↔ other ∈ used ∨ other = interval := by
  unfold noteUsed
  split
  · next known =>
    constructor
    · exact .inl
    · rintro (old | rfl)
      · exact old
      · exact known
  · simp

/-- One interval of a check is listed when it is imperfect, and refused when it is unusable. -/
theorem checkInterval_spec {rejectOnGap : Bool} {timestampNs : ℤ} {interval : QualityInterval}
    {found after : List QualityInterval × QualityState}
    (ran : checkInterval rejectOnGap timestampNs found interval = .ok after) :
    (∀ other, other ∈ after.1 ↔ other ∈ found.1 ∨
      other = interval ∧ interval.contains timestampNs ∧ interval.Imperfect) ∧
    (rejectOnGap → interval.contains timestampNs → ¬ interval.Unusable) := by
  unfold checkInterval at ran
  split at ran
  · next inside =>
    cases quality : interval.state with
    | complete =>
      simp only [quality] at ran
      cases ran
      simp [QualityInterval.Imperfect, QualityInterval.Unusable, quality]
    | degraded =>
      simp only [quality] at ran
      cases ran
      simp [QualityInterval.Imperfect, QualityInterval.Unusable, quality, inside]
    | unreliable =>
      simp only [quality] at ran
      split at ran
      · cases ran
      · next accepts =>
        cases ran
        simp [QualityInterval.Imperfect, QualityInterval.Unusable, quality, inside, accepts]
    | excluded =>
      simp only [quality] at ran
      split at ran
      · cases ran
      · next accepts =>
        cases ran
        simp [QualityInterval.Imperfect, QualityInterval.Unusable, quality, inside, accepts]
  · next outside =>
    cases ran
    simp [outside]

/-- What the integrity of a replay knows once the events have been checked. -/
structure Knows (intervals : List QualityInterval) (rejectOnGap : Bool)
    (events : List ReplayEvent) (integrity : ReplayIntegrity) : Prop where
  sameIntervals : integrity.intervals = intervals
  samePolicy : integrity.rejectOnGap = rejectOnGap
  listed : ∀ interval, interval ∈ integrity.usedDegraded ↔
    interval ∈ intervals ∧ interval.Observed events ∧ interval.Imperfect
  refused : rejectOnGap → ∀ interval ∈ intervals, interval.Observed events → ¬ interval.Unusable

theorem check_knows {intervals : List QualityInterval} {rejectOnGap : Bool}
    {past : List ReplayEvent} {event : ReplayEvent} {integrity : ReplayIntegrity}
    {after : ReplayIntegrity × QualityState} (knows : Knows intervals rejectOnGap past integrity)
    (ran : integrity.check event.receivedUtcNs = .ok after) :
    Knows intervals rejectOnGap (past ++ [event]) after.1 := by
  unfold check at ran
  simp only [Except.bind_eq_ok, Except.pure_eq_ok] at ran
  obtain ⟨found, ran, rfl⟩ := ran
  rw [knows.sameIntervals, knows.samePolicy] at ran
  have observed (interval : QualityInterval) : interval.Observed (past ++ [event]) ↔
      interval.Observed past ∨ interval.contains event.receivedUtcNs := by
    simp [QualityInterval.Observed, or_and_right, exists_or]
  obtain ⟨listed, refused⟩ := Except.foldlM_history
    (fun checked (found : List QualityInterval × QualityState) =>
      (∀ other, other ∈ found.1 ↔ other ∈ integrity.usedDegraded ∨
        other ∈ checked ∧ other.contains event.receivedUtcNs ∧ other.Imperfect) ∧
      (rejectOnGap → ∀ other ∈ checked, other.contains event.receivedUtcNs → ¬ other.Unusable))
    (by simp) (fun checked interval found after _ holds stepped => by
      obtain ⟨listed, refused⟩ := checkInterval_spec stepped
      refine ⟨fun other => ?_, fun rejects other member => ?_⟩
      · rw [listed, holds.1]
        constructor
        · rintro ((old | ⟨member, relevant⟩) | ⟨rfl, relevant⟩)
          · exact .inl old
          · exact .inr ⟨List.mem_append_left _ member, relevant⟩
          · exact .inr ⟨List.mem_append_right _ List.mem_cons_self, relevant⟩
        · rintro (old | ⟨member, relevant⟩)
          · exact .inl (.inl old)
          · rcases List.mem_append.mp member with earlier | last
            · exact .inl (.inr ⟨earlier, relevant⟩)
            · obtain rfl := List.mem_singleton.mp last
              exact .inr ⟨rfl, relevant⟩
      · rcases List.mem_append.mp member with earlier | last
        · exact holds.2 rejects other earlier
        · obtain rfl := List.mem_singleton.mp last
          exact refused rejects) ran
  refine ⟨knows.sameIntervals, knows.samePolicy, fun interval => ?_, fun rejects interval member => ?_⟩
  · rw [listed, knows.listed, observed]
    tauto
  · rw [observed]
    rintro (earlier | inside)
    · exact knows.refused rejects interval member earlier
    · exact refused rejects interval member inside

end ReplayIntegrity

namespace BacktestEngine

open ReplayIntegrity (Knows)

variable {σ : Type} {engine : BacktestEngine σ} {events : List ReplayEvent}
  {artifacts : BacktestArtifacts}

theorem executeOrder_integrity {state after : EngineState σ} {order : PendingOrder}
    (ran : engine.executeOrder state order = .ok after) : after.integrity = state.integrity := by
  obtain ⟨⟨_, _, _, _, rfl, _⟩, _⟩ := executeOrder_effect ran
  rfl

theorem stepEvent_knows {past : List ReplayEvent} {state after : EngineState σ}
    {event : ReplayEvent} (ran : engine.stepEvent state event = .ok after)
    (knows : Knows engine.qualityIntervals engine.config.rejectOnGap past state.integrity) :
    Knows engine.qualityIntervals engine.config.rejectOnGap (past ++ [event]) after.integrity := by
  obtain ⟨integrity, found, heard, strategyState, intents, checked, _, recorded, _, scheduled⟩ :=
    stepEvent_eq_ok_iff.mp ran
  obtain ⟨_, _, _, _, rfl⟩ := schedule_writes scheduled
  obtain ⟨⟨_, _, _, _, _, rfl⟩, _, _⟩ := recordEvent_effect recorded
  exact ReplayIntegrity.check_knows knows checked

/-- A completed run knows the intervals that contain the receipt time of one of its events. -/
theorem run_knows (completed : engine.run events = .ok artifacts) :
    (∀ interval, interval ∈ artifacts.qualityIntervalsUsed ↔
      interval ∈ engine.qualityIntervals ∧ interval.Observed events ∧ interval.Imperfect) ∧
    (engine.config.rejectOnGap → ∀ interval ∈ engine.qualityIntervals, interval.Observed events →
      ¬ interval.Unusable) := by
  unfold run at completed
  simp only [Except.bind_eq_ok, Except.pure_eq_ok, mergeEvents_eq_ok_iff] at completed
  obtain ⟨_, ⟨_, rfl⟩, final, replayed, rfl⟩ := completed
  have knows : Knows engine.qualityIntervals engine.config.rejectOnGap
      (StableSort.sortByKey (eventKey engine.mode) events) final.integrity := by
    refine replay_history
      (fun past state =>
        Knows engine.qualityIntervals engine.config.rejectOnGap past state.integrity)
      (fun _ => ⟨rfl, rfl, ?_, ?_⟩) (fun _ _ _ held => held)
      (fun _ _ _ _ ran held => ?_) (fun _ _ _ _ => stepEvent_knows) replayed
    · simp [initialState, QualityInterval.Observed]
    · simp [QualityInterval.Observed]
    · exact executeOrder_integrity ran ▸ held
  have observed (interval : QualityInterval) :
      interval.Observed (StableSort.sortByKey (eventKey engine.mode) events) ↔
        interval.Observed events := by
    simp [QualityInterval.Observed]
  refine ⟨fun interval => ?_, fun rejects interval member inside => ?_⟩
  · rw [← observed]
    exact knows.listed interval
  · exact knows.refused rejects interval member ((observed interval).mpr inside)

/-- The promise about gaps: a run that rejects them completes only without one, and a run that
accepts them lists every one. -/
def FailsClosed (engine : BacktestEngine σ) (events : List ReplayEvent)
    (artifacts : BacktestArtifacts) : Prop :=
  if engine.config.rejectOnGap then
    ∀ interval ∈ engine.qualityIntervals, interval.Unusable → ¬ interval.Intersects events
  else
    ∀ interval ∈ engine.qualityIntervals, interval.Imperfect → interval.Intersects events →
      interval ∈ artifacts.qualityIntervalsUsed

/-- The intervals that the promise is about. -/
def Concerns (engine : BacktestEngine σ) (interval : QualityInterval) : Prop :=
  if engine.config.rejectOnGap then interval.Unusable else interval.Imperfect

/-- A completed run keeps the promise exactly when every interval that concerns it and meets the
span of the replay contains the receipt time of an event. -/
theorem failsClosed_iff_observed (completed : engine.run events = .ok artifacts) :
    FailsClosed engine events artifacts ↔
      ∀ interval ∈ engine.qualityIntervals, Concerns engine interval →
        interval.Intersects events → interval.Observed events := by
  obtain ⟨listed, refused⟩ := run_knows completed
  unfold FailsClosed Concerns
  cases rejects : engine.config.rejectOnGap with
  | true =>
    simp only [if_true]
    constructor
    · exact fun kept interval member unusable meets => absurd meets (kept interval member unusable)
    · exact fun observed interval member unusable meets =>
        refused rejects interval member (observed interval member unusable meets) unusable
  | false =>
    simp only [Bool.false_eq_true, if_false]
    constructor
    · exact fun kept interval member imperfect meets =>
        ((listed interval).mp (kept interval member imperfect meets)).2.1
    · exact fun observed interval member imperfect meets =>
        (listed interval).mpr ⟨member, observed interval member imperfect meets, imperfect⟩

/-- An engine that only watches, with one gap on record. -/
def watchingEngine (rejectOnGap : Bool) (gap : QualityInterval) : BacktestEngine Unit where
  config := {
    startingCashScaled := 1000000000
    replayClock := .localReceiveTime
    rejectOnGap := rejectOnGap
    allowNegativeCash := false
    allowShortPositions := false
    latency := .disabled
    fee := ⟨.taker, .zero, 0, 1, 0, .halfUp⟩
    makerQueueModel := .conservative }
  strategy := noOpStrategy
  qualityIntervals := [gap]
  feeModel := ⟨⟨.taker, .zero, 0, 1, 0, .halfUp⟩, 0⟩
  draws := ⟨fun _ => 0, fun _ => 0⟩
  uuid5 := id
  int := fun _ => .ok 0

def printAt (timestampNs : ℤ) : ReplayEvent where
  exchangeTimestampNs := none
  receivedUtcNs := timestampNs
  receivedMonotonicNs := timestampNs
  connectionId := "trade-feed"
  sequence := timestampNs
  parentChangeIndex := 0
  sourcePriority := 30
  payload := .trade ⟨"t", timestampNs, "c", "u", "UP", none, timestampNs, timestampNs, 500000, none,
    none, none, none, none, none, "clob_market_ws", "r"⟩

/-- A run that accepts gaps lists one in which an event was received. -/
theorem entered_gap_failsClosed :
    ∃ artifacts, (watchingEngine false ⟨1500, some 2500, .unreliable, "disconnect", []⟩).run
        [printAt 1000, printAt 2000, printAt 3000] = .ok artifacts ∧
      FailsClosed (watchingEngine false ⟨1500, some 2500, .unreliable, "disconnect", []⟩)
        [printAt 1000, printAt 2000, printAt 3000] artifacts := by
  refine ⟨_, rfl, (failsClosed_iff_observed rfl).mpr fun interval member _ _ => ?_⟩
  obtain rfl := List.mem_singleton.mp member
  exact ⟨printAt 2000, by simp, by decide⟩

/-- A run that rejects gaps completes across one between two events. -/
theorem silent_gap_not_failsClosed :
    ∃ artifacts, (watchingEngine true ⟨1500, some 2500, .unreliable, "disconnect", []⟩).run
        [printAt 1000, printAt 3000] = .ok artifacts ∧
      ¬ FailsClosed (watchingEngine true ⟨1500, some 2500, .unreliable, "disconnect", []⟩)
        [printAt 1000, printAt 3000] artifacts := by
  refine ⟨_, rfl, fun kept => ?_⟩
  exact kept _ List.mem_cons_self (.inl rfl)
    ⟨2000, by decide, ⟨printAt 1000, by simp, by decide⟩, printAt 3000, by simp, by decide⟩

end BacktestEngine

end PolymarketBt
