import PolymarketBt.Machine.Loop
import PolymarketBt.Model.Replay

/-! # Keys of replay events

The merger fails only for want of an exchange time, and otherwise sorts the events by their keys.
Two events with the same receipt stamp are compared by their replay times, their priorities and
their change indices.
-/

namespace PolymarketBt

open StableSort (InOrder sortByKey sortByKey_map)

namespace ReplayEvent

/-- The replay time; an event without one has no key. -/
def timeAt (mode : ReplayClockMode) (event : ReplayEvent) : ℤ :=
  match mode with
  | .localReceiveTime => event.receivedUtcNs
  | .exchangeTime => event.exchangeTimestampNs.getD 0

/-- The clock of the replay has a time for the event. -/
def Timed (mode : ReplayClockMode) (event : ReplayEvent) : Prop :=
  mode = .exchangeTime → event.exchangeTimestampNs.isSome

variable {mode : ReplayClockMode} {event : ReplayEvent}

theorem timestamp_eq_ok_iff {timestampNs : ℤ} :
    event.timestamp mode = .ok timestampNs ↔ event.Timed mode ∧ event.timeAt mode = timestampNs := by
  unfold timestamp Timed timeAt
  cases mode with
  | localReceiveTime => simp
  | exchangeTime => cases event.exchangeTimestampNs <;> simp

theorem timestamp_of_timed (timed : event.Timed mode) :
    event.timestamp mode = .ok (event.timeAt mode) :=
  timestamp_eq_ok_iff.mpr ⟨timed, rfl⟩

end ReplayEvent

/-- The key by which the merger sorts events that the clock has a time for. -/
def eventKey (mode : ReplayClockMode) (event : ReplayEvent) : EventKey :=
  eventKeyAt (event.timeAt mode) event

theorem deterministicEventKey_eq_ok_iff {mode : ReplayClockMode} {event : ReplayEvent}
    {key : EventKey} :
    deterministicEventKey event mode = .ok key ↔ event.Timed mode ∧ eventKey mode event = key := by
  unfold deterministicEventKey eventKey
  simp only [Except.bind_eq_ok, ReplayEvent.timestamp_eq_ok_iff, Except.pure_eq_ok]
  constructor
  · rintro ⟨_, ⟨timed, rfl⟩, rfl⟩
    exact ⟨timed, rfl⟩
  · rintro ⟨timed, rfl⟩
    exact ⟨_, ⟨timed, rfl⟩, rfl⟩

theorem mapM_keyed_eq_ok_iff {mode : ReplayClockMode} {events : List ReplayEvent}
    {keyed : List (EventKey × ReplayEvent)} :
    (events.mapM fun event => do return (← deterministicEventKey event mode, event)) =
        (.ok keyed : Except PyError _) ↔
      (∀ event ∈ events, event.Timed mode) ∧
        keyed = events.map fun event => (eventKey mode event, event) := by
  induction events generalizing keyed with
  | nil => simp [eq_comm, pure, Except.pure]
  | cons event rest ih =>
    simp only [List.mapM_cons, Except.bind_eq_ok, Except.pure_eq_ok, ih,
      deterministicEventKey_eq_ok_iff, List.forall_mem_cons, List.map_cons]
    constructor
    · rintro ⟨_, ⟨_, ⟨timed, rfl⟩, rfl⟩, _, ⟨others, rfl⟩, rfl⟩
      exact ⟨⟨timed, others⟩, rfl⟩
    · rintro ⟨⟨timed, others⟩, rfl⟩
      exact ⟨_, ⟨_, ⟨timed, rfl⟩, rfl⟩, _, ⟨others, rfl⟩, rfl⟩

/-- The merger sorts by the event key whenever the clock has a time for every event. -/
theorem mergeEvents_eq_ok_iff {mode : ReplayClockMode} {events merged : List ReplayEvent} :
    mergeEvents events mode = .ok merged ↔
      (∀ event ∈ events, event.Timed mode) ∧ merged = sortByKey (eventKey mode) events := by
  unfold mergeEvents
  simp only [Except.bind_eq_ok, mapM_keyed_eq_ok_iff, Except.pure_eq_ok]
  have sorted : (sortByKey Prod.fst
      (events.map fun event => (eventKey mode event, event))).map Prod.snd =
        sortByKey (eventKey mode) events := by
    rw [sortByKey_map, List.map_map]
    exact List.map_id _
  constructor
  · rintro ⟨_, ⟨timed, rfl⟩, rfl⟩
    exact ⟨timed, sorted⟩
  · rintro ⟨timed, rfl⟩
    exact ⟨_, ⟨timed, rfl⟩, sorted⟩

/-! ## Events with one receipt stamp -/

/-- The events were received together. -/
structure SameReceipt (first second : ReplayEvent) : Prop where
  receivedUtcNs : first.receivedUtcNs = second.receivedUtcNs
  connectionId : first.connectionId = second.connectionId
  sequence : first.sequence = second.sequence

namespace SameReceipt

variable {first second : ReplayEvent} (same : SameReceipt first second)
include same

theorem eventKey_le_iff {mode : ReplayClockMode} :
    eventKey mode first ≤ eventKey mode second ↔
      first.timeAt mode < second.timeAt mode ∨ first.timeAt mode = second.timeAt mode ∧
        (first.sourcePriority < second.sourcePriority ∨
          first.sourcePriority = second.sourcePriority ∧
            first.parentChangeIndex ≤ second.parentChangeIndex) := by
  simp [eventKey, eventKeyAt, Prod.Lex.toLex_le_toLex, same.receivedUtcNs, same.connectionId,
    same.sequence]

theorem tapeOrderKey_le_iff :
    tapeOrderKey first ≤ tapeOrderKey second ↔
      tapeKind first.payload < tapeKind second.payload ∨
        tapeKind first.payload = tapeKind second.payload ∧
          first.parentChangeIndex ≤ second.parentChangeIndex := by
  simp [tapeOrderKey, Prod.Lex.toLex_le_toLex, same.receivedUtcNs, same.sequence]

end SameReceipt

end PolymarketBt
