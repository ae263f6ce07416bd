import Mathlib.Data.List.TakeWhile
import PolymarketBt.Machine.Transition
import PolymarketBt.Model.ClobWebSocket
import PolymarketBt.Soundness.ConnectionGaps

/-! # Which outages are recorded

A connection that is lost with an error, and an attempt that fails, log a disconnect. In runs in
which no connection is closed gracefully, and no recovery completes while there is no connection,
every outage is preceded by its disconnect and closed by nothing before the next connection, so the
markets it reaches are counted.
-/

namespace PolymarketBt

open Transition

/-- No attempt is under way. -/
def ConnectionPhase.between : ConnectionPhase → Bool
  | .idle => true
  | .ended => true
  | .waiting => true
  | .finished => true
  | _ => false

namespace TraceEntry

def emits (eventType : ConnectionEventType) : TraceEntry → Bool
  | .emitted event => event.eventType = eventType
  | _ => false

@[simp] theorem emits_frame (eventType : ConnectionEventType) : frame.emits eventType = false := rfl

@[simp] theorem emits_lost (utcNs : ℤ) (eventType : ConnectionEventType) :
    (lost utcNs).emits eventType = false := rfl

/-- A frame, or the beginning of an attempt or of a connection. -/
def opens (entry : TraceEntry) : Bool :=
  entry = .frame || entry.emits .connectStarted || entry.emits .connected

theorem opens_of_disconnect {entry : TraceEntry}
    (disconnect : entry.emits .disconnectDetected = true) : entry.opens = false := by
  cases entry with
  | frame => simp [emits] at disconnect
  | lost utcNs => simp [emits] at disconnect
  | emitted event =>
    have kind : event.eventType = .disconnectDetected := by simpa [emits] using disconnect
    simp [opens, emits, kind]

/-- The row would close a gap. -/
def closes (entry : TraceEntry) : Bool :=
  entry.emits .snapshotRecoveryCompleted || entry.emits .subscriptionAcknowledged ||
    entry.emits .connected

theorem closes_emitted {event : ConnectionEvent} :
    (event.isRecovered = true ∨ event.isFallback = true) ↔ (emitted event).closes = true := by
  simp [closes, emits, ConnectionEvent.isRecovered, ConnectionEvent.isFallback, or_assoc]

end TraceEntry

open TraceEntry

/-- Between the last frame of a connection, or an attempt without frames, and the start of the next
attempt the log has a disconnect. -/
def OutagesRecorded (trace : List TraceEntry) : Prop :=
  ∀ earlier opening middle closing later,
    trace = earlier ++ opening :: (middle ++ closing :: later) → opening.opens = true →
    (∀ entry ∈ middle, entry.opens = false) → closing.emits .connectStarted = true →
    ∃ entry ∈ middle, entry.emits .disconnectDetected = true

/-- The last attempt of the trace is over and its disconnect logged. -/
def LossRecorded (trace : List TraceEntry) : Prop :=
  ∀ earlier opening middle, trace = earlier ++ opening :: middle → opening.opens = true →
    (∀ entry ∈ middle, entry.opens = false) →
    ∃ entry ∈ middle, entry.emits .disconnectDetected = true

/-! ## What a step observes -/

namespace ClobMarketWebSocket

variable {websocket after : ClobMarketWebSocket} {kind : ClobStep}

/-- A row that the websocket logs now. -/
def row (websocket : ClobMarketWebSocket) (eventType : ConnectionEventType) : TraceEntry :=
  .emitted ⟨eventType, websocket.now, some websocket.desiredAssets⟩

@[simp] theorem row_emits (first second : ConnectionEventType) :
    (websocket.row first).emits second = decide (first = second) := rfl

@[simp] theorem row_ne_frame (eventType : ConnectionEventType) :
    websocket.row eventType ≠ .frame := TraceEntry.noConfusion

@[simp] theorem row_ne_lost (eventType : ConnectionEventType) (utcNs : ℤ) :
    websocket.row eventType ≠ .lost utcNs := TraceEntry.noConfusion

/-- What is logged without an attempt beginning or a gap ending. -/
def quietTypes : List ConnectionEventType :=
  [.reconnectScheduled, .reconnected, .subscriptionChanged, .heartbeatMissed,
    .snapshotRecoveryStarted]

theorem row_quiet {eventType : ConnectionEventType} (quiet : eventType ∈ quietTypes) :
    (websocket.row eventType).opens = false ∧ (websocket.row eventType).closes = false := by
  simp only [quietTypes, List.mem_cons, List.not_mem_nil, or_false] at quiet
  rcases quiet with rfl | rfl | rfl | rfl | rfl <;> simp [opens, closes]

/-- What a step adds to the trace and where it leads. -/
inductive Observes (websocket : ClobMarketWebSocket) :
    ClobStep → List TraceEntry → ConnectionPhase → Prop
  | start (idle : websocket.phase = .idle) :
      Observes websocket .startConnect [websocket.row .connectStarted] .connecting
  | loss {kind : ClobStep} :
      Observes websocket kind [websocket.row .disconnectDetected, .lost websocket.now] .ended
  | graceful : Observes websocket .closesGracefully [.lost websocket.now] .ended
  | connect : Observes websocket .connects [websocket.row .connected] .opened
  /-- Steps with a connection. -/
  | stream {kind : ClobStep} {added : List TraceEntry} {phase : ConnectionPhase}
      (before : websocket.phase.online = true) (after : phase.online = true)
      (entries : ∀ entry ∈ added, entry = .frame ∨ entry = websocket.row .subscriptionSent ∨
        entry = websocket.row .subscriptionAcknowledged) :
      Observes websocket kind added phase
  /-- Steps between attempts, and of other tasks at any time. -/
  | other {kind : ClobStep} {added : List TraceEntry} {phase : ConnectionPhase}
      (online : phase.online = websocket.phase.online)
      (between : phase.between = true → websocket.phase.between = true)
      (entries : ∀ entry ∈ added, ∃ eventType ∈ quietTypes, entry = websocket.row eventType) :
      Observes websocket kind added phase
  | recovered :
      Observes websocket .completeRecovery [websocket.row .snapshotRecoveryCompleted] websocket.phase

/-- What a step leaves behind. -/
theorem perform_observes (performed : websocket.perform kind = some after) :
    ∃ added, after.trace = websocket.trace ++ added ∧ after.now = websocket.now ∧
      (after.desiredAssets = websocket.desiredAssets ∨ kind = .updateAssets after.desiredAssets) ∧
      Observes websocket kind added after.phase := by
  have silent {phase : ConnectionPhase} (online : phase.online = websocket.phase.online)
      (between : phase.between = true → websocket.phase.between = true) :
      Observes websocket kind [] phase := .other online between (by simp)
  unfold perform at performed
  split at performed
  · next idle =>
    split at performed
    · cases performed
    · cases performed
      exact ⟨_, rfl, rfl, .inl rfl, .start idle⟩
  · cases performed
    exact ⟨_, List.append_assoc .., rfl, .inl rfl, .loss⟩
  · cases performed
    exact ⟨_, rfl, rfl, .inl rfl, .connect⟩
  · next opened =>
    cases performed
    exact ⟨_, rfl, rfl, .inl rfl, .stream (by rw [opened]; rfl) rfl (by simp [row])⟩
  · next pong acknowledged streaming =>
    have online : websocket.phase.online = true := by rw [streaming]; rfl
    dsimp only at performed
    split at performed
    · cases performed
      exact ⟨_, rfl, rfl, .inl rfl, .stream online online (by simp)⟩
    · cases performed
      exact ⟨_, List.append_assoc .., rfl, .inl rfl, .stream online rfl (by simp [row, record])⟩
  · cases performed
    exact ⟨_, List.append_assoc .., rfl, .inl rfl, .loss⟩
  · cases performed
    exact ⟨_, List.append_assoc .., rfl, .inl rfl, .loss⟩
  · cases performed
    exact ⟨_, rfl, rfl, .inl rfl, .graceful⟩
  · next ended =>
    split at performed
    · cases performed
    · cases performed
      exact ⟨_, rfl, rfl, .inl rfl, .other (by rw [ended]; rfl) (fun _ => by rw [ended]; rfl)
        (by simp [row, quietTypes])⟩
  · next waiting =>
    cases performed
    exact ⟨_, rfl, rfl, .inl rfl, .other (by rw [waiting]; rfl) (fun _ => by rw [waiting]; rfl)
      (by simp [row, quietTypes])⟩
  · cases performed
    exact ⟨[], (List.append_nil _).symm, rfl, .inl rfl, silent rfl id⟩
  iterate 3
    · next resting =>
      split at performed
      · cases performed
        exact ⟨[], (List.append_nil _).symm, rfl, .inl rfl,
          silent (by rw [resting]; rfl) fun _ => by rw [resting]; rfl⟩
      · cases performed
  · cases performed
    exact ⟨[], (List.append_nil _).symm, rfl, .inr rfl, silent rfl id⟩
  · cases performed
    exact ⟨_, rfl, rfl, .inl rfl, .other rfl id (by simp [row, quietTypes])⟩
  · cases performed
    exact ⟨_, rfl, rfl, .inl rfl, .other rfl id (by simp [row, quietTypes])⟩
  · split at performed
    · cases performed
    · cases performed
      exact ⟨_, rfl, rfl, .inl rfl, .other rfl id (by simp [row, quietTypes])⟩
  · split at performed
    · cases performed
    · cases performed
      exact ⟨[], (List.append_nil _).symm, rfl, .inl rfl, silent rfl id⟩
  · split at performed
    · cases performed
    · cases performed
      exact ⟨_, rfl, rfl, .inl rfl, .recovered⟩
  · cases performed

end ClobMarketWebSocket

open ClobMarketWebSocket

/-! ## Recorded losses -/

section Recorded

variable {trace added : List TraceEntry}

theorem OutagesRecorded.append (recorded : OutagesRecorded trace)
    (starts : ∀ entry ∈ added, entry.emits .connectStarted = false) :
    OutagesRecorded (trace ++ added) := by
  intro earlier opening middle closing later split opens quiet start
  -- The start of an attempt is not among the added entries.
  have notAdded : closing ∉ added := by
    intro member
    rw [starts closing member] at start
    cases start
  rw [← List.cons_append, ← List.append_assoc] at split
  rcases List.append_eq_append_iff.mp split with ⟨rest, -, split⟩ | ⟨rest, traceSplit, split⟩
  · exact absurd (by simp [split]) notAdded
  · cases rest with
    | nil => exact absurd (by simp [← show closing :: later = added from split]) notAdded
    | cons head rest =>
      obtain ⟨rfl, -⟩ := List.cons.inj split
      exact recorded earlier opening middle closing rest (by simpa using traceSplit) opens quiet start

/-- The next attempt starts when the loss of the last one is recorded. -/
theorem OutagesRecorded.start (recorded : OutagesRecorded trace) (loss : LossRecorded trace)
    (closing : TraceEntry) : OutagesRecorded (trace ++ [closing]) := by
  intro earlier opening middle other later split opens quiet start
  rw [← List.cons_append, ← List.append_assoc] at split
  rcases List.append_eq_append_iff.mp split with ⟨rest, traceSplit, split⟩ | ⟨rest, traceSplit, split⟩
  · cases rest with
    | nil =>
      rw [List.append_nil] at traceSplit
      exact loss earlier opening middle traceSplit.symm opens quiet
    | cons head rest => simp at split
  · cases rest with
    | nil =>
      rw [List.append_nil] at traceSplit
      exact loss earlier opening middle traceSplit opens quiet
    | cons head rest =>
      obtain ⟨rfl, -⟩ := List.cons.inj split
      exact recorded earlier opening middle other rest (by simpa using traceSplit) opens quiet start

theorem LossRecorded.append (loss : LossRecorded trace)
    (quiet : ∀ entry ∈ added, entry.opens = false) : LossRecorded (trace ++ added) := by
  intro earlier opening middle split opens quietMiddle
  rcases List.append_eq_append_iff.mp split with ⟨rest, -, split⟩ | ⟨rest, traceSplit, split⟩
  · have open' := quiet opening (by simp [split])
    rw [opens] at open'
    cases open'
  · cases rest with
    | nil =>
      have member : opening ∈ added := by simp [← show opening :: middle = added from split]
      rw [quiet opening member] at opens
      cases opens
    | cons head rest =>
      obtain ⟨rfl, rfl⟩ := List.cons.inj split
      obtain ⟨entry, member, disconnect⟩ := loss earlier opening rest (by simpa using traceSplit) opens
        fun entry member => quietMiddle entry (List.mem_append_left _ member)
      exact ⟨entry, List.mem_append_left _ member, disconnect⟩

/-- A disconnect that ends the trace but for entries that open nothing records the loss. -/
theorem LossRecorded.of_disconnect {disconnect : TraceEntry}
    (emits : disconnect.emits .disconnectDetected = true)
    (quiet : ∀ entry ∈ added, entry.opens = false) :
    LossRecorded (trace ++ disconnect :: added) := by
  intro earlier opening middle split opens quietMiddle
  rcases List.append_eq_append_iff.mp split with ⟨rest, -, split⟩ | ⟨rest, traceSplit, split⟩
  · cases rest with
    | nil =>
      obtain ⟨rfl, rfl⟩ := List.cons.inj split
      rw [opens_of_disconnect emits] at opens
      cases opens
    | cons head rest =>
      obtain ⟨-, tail⟩ := List.cons.inj split
      have open' := quiet opening (by rw [show added = rest ++ opening :: middle from tail]; simp)
      rw [opens] at open'
      cases open'
  · cases rest with
    | nil =>
      obtain ⟨rfl, rfl⟩ := List.cons.inj split
      rw [opens_of_disconnect emits] at opens
      cases opens
    | cons head rest =>
      obtain ⟨rfl, rfl⟩ := List.cons.inj split
      exact ⟨disconnect, by simp, emits⟩

end Recorded

/-! ## Outages -/

/-- The entries until the next connection. -/
def untilConnected (trace : List TraceEntry) : List TraceEntry :=
  trace.takeWhile fun entry => !entry.emits .connected

/-- An outage follows its disconnect, and no row closes that before the next connection. -/
structure OutageOpen (earlier : List TraceEntry) (utcNs : ℤ) (rest : List TraceEntry) : Prop where
  disconnected : ∃ before event, earlier = before ++ [.emitted event] ∧
    event.isDisconnect = true ∧ event.subscribed = true ∧ event.eventUtcNs = utcNs
  quiet : ∀ entry ∈ untilConnected rest, entry.closes = false

/-- The conditions on a step: time moves on, nobody stops the run or unsubscribes from everything,
the server does not close the connection gracefully, and a recovery completes with a connection. -/
structure ClobMarketWebSocket.Regular (websocket : ClobMarketWebSocket) (action : ClobAction) : Prop where
  forward : websocket.now ≤ action.utcNs
  running : action.kind ≠ .requestStop
  subscribed : action.kind ≠ .updateAssets 0
  abrupt : action.kind ≠ .closesGracefully
  recovers : action.kind = .completeRecovery → websocket.phase.online = true

/-- What a run of such steps keeps. -/
structure Accounted (websocket : ClobMarketWebSocket) : Prop where
  recorded : OutagesRecorded websocket.trace
  between : websocket.phase.between = true → LossRecorded websocket.trace
  assets : websocket.desiredAssets ≠ 0
  ordered : (connectionLog websocket.trace).Pairwise
    fun first second => first.eventUtcNs ≤ second.eventUtcNs
  past : ∀ event ∈ connectionLog websocket.trace, event.eventUtcNs ≤ websocket.now
  outages : ∀ earlier utcNs rest, websocket.trace = earlier ++ .lost utcNs :: rest →
    OutageOpen earlier utcNs rest
  online : websocket.phase.online = true → ∀ earlier utcNs rest,
    websocket.trace = earlier ++ .lost utcNs :: rest → ∃ entry ∈ rest, entry.emits .connected = true

section Outages

variable {trace added rest earlier : List TraceEntry} {utcNs : ℤ}

theorem connectionLog_append (first second : List TraceEntry) :
    connectionLog (first ++ second) = connectionLog first ++ connectionLog second :=
  List.filterMap_append

theorem untilConnected_append_of_mem (connected : ∃ entry ∈ rest, entry.emits .connected = true) :
    untilConnected (rest ++ added) = untilConnected rest := by
  induction rest with
  | nil => simp at connected
  | cons first rest ih =>
    simp only [untilConnected, List.cons_append, List.takeWhile_cons]
    split
    · next unconnected =>
      congr 1
      refine ih ?_
      obtain ⟨entry, member, emits⟩ := connected
      rcases List.mem_cons.mp member with rfl | member
      · simp [emits] at unconnected
      · exact ⟨entry, member, emits⟩
    · rfl

/-- Once there was a connection, or when nothing that closes is added, an outage stays open. -/
theorem OutageOpen.append (outage : OutageOpen earlier utcNs rest)
    (unchanged : (∃ entry ∈ rest, entry.emits .connected = true) ∨
      ∀ entry ∈ untilConnected added, entry.closes = false) :
    OutageOpen earlier utcNs (rest ++ added) := by
  refine ⟨outage.disconnected, fun entry member => ?_⟩
  by_cases connected : ∃ entry ∈ rest, entry.emits .connected = true
  · rw [untilConnected_append_of_mem connected] at member
    exact outage.quiet entry member
  · have unconnected : ∀ entry ∈ rest, (!entry.emits .connected) = true := by
      intro entry member
      simpa using fun emits => connected ⟨entry, member, emits⟩
    rw [untilConnected, List.takeWhile_append_of_pos unconnected, List.mem_append] at member
    rcases member with old | fresh
    · refine outage.quiet entry ?_
      rwa [untilConnected, List.takeWhile_eq_self_iff.mpr unconnected]
    · exact (unchanged.resolve_left connected) entry fresh

/-- A lost connection among old and added entries. -/
theorem lost_cases {entries : List TraceEntry}
    (split : trace ++ entries = earlier ++ .lost utcNs :: rest) :
    (∃ between, trace = earlier ++ .lost utcNs :: between ∧ rest = between ++ entries) ∨
      ∃ before, earlier = trace ++ before ∧ entries = before ++ .lost utcNs :: rest := by
  rcases List.append_eq_append_iff.mp split with ⟨before, same, split⟩ | ⟨between, same, split⟩
  · exact .inr ⟨before, same, split⟩
  · cases between with
    | nil => exact .inr ⟨[], by simpa using same.symm, by simpa using split.symm⟩
    | cons head between =>
      obtain ⟨rfl, rfl⟩ := List.cons.inj split
      exact .inl ⟨between, same, rfl⟩

end Outages

namespace Accounted

variable {websocket after : ClobMarketWebSocket} {added : List TraceEntry}

/-- Entries that are neither a loss nor the start of an attempt, logged now. -/
theorem append (accounted : Accounted websocket) (extended : after.trace = websocket.trace ++ added)
    (sameTime : websocket.now ≤ after.now) (assets : after.desiredAssets ≠ 0)
    (recorded : OutagesRecorded after.trace)
    (between : after.phase.between = true → LossRecorded after.trace)
    (stamped : ∀ entry ∈ added, ∀ event, entry = .emitted event → event.eventUtcNs = after.now)
    (lost : ∀ earlier utcNs rest, added = earlier ++ .lost utcNs :: rest →
      OutageOpen (websocket.trace ++ earlier) utcNs rest)
    (unchanged : websocket.phase.online = true ∨
      ∀ entry ∈ untilConnected added, entry.closes = false)
    (online : after.phase.online = true →
      (websocket.phase.online = true ∨ ∃ entry ∈ added, entry.emits .connected = true) ∧
      ∀ utcNs, .lost utcNs ∉ added) :
    Accounted after := by
  have logged : ∀ event ∈ connectionLog added, event.eventUtcNs = after.now := by
    intro event member
    obtain ⟨entry, inAdded, same⟩ := List.mem_filterMap.mp member
    cases entry with
    | emitted row =>
      obtain rfl := Option.some.inj same
      exact stamped _ inAdded _ rfl
    | frame => cases same
    | lost utcNs => cases same
  refine ⟨recorded, between, assets, ?_, ?_, ?_, ?_⟩
  · rw [extended, connectionLog_append]
    refine List.pairwise_append.mpr ⟨accounted.ordered, ?_, fun first old second fresh => ?_⟩
    · refine List.Pairwise.imp_of_mem (R := fun _ _ => True) (fun first second _ => ?_)
        (List.pairwise_of_forall fun _ _ => trivial)
      rw [logged _ first, logged _ second]
    · rw [logged second fresh]
      exact (accounted.past first old).trans sameTime
  · intro event member
    rw [extended, connectionLog_append, List.mem_append] at member
    rcases member with old | fresh
    · exact (accounted.past event old).trans sameTime
    · exact (logged event fresh).le
  · intro earlier utcNs rest split
    rw [extended] at split
    rcases lost_cases split with ⟨middle, old, rfl⟩ | ⟨before, rfl, fresh⟩
    · refine (accounted.outages earlier utcNs middle old).append ?_
      exact unchanged.imp_left fun connected => accounted.online connected earlier utcNs middle old
    · exact lost before utcNs rest fresh
  · intro connected earlier utcNs rest split
    obtain ⟨connection, noLoss⟩ := online connected
    rw [extended] at split
    rcases lost_cases split with ⟨middle, old, rfl⟩ | ⟨before, rfl, fresh⟩
    · rcases connection with before | ⟨entry, member, emits⟩
      · obtain ⟨entry, member, emits⟩ := accounted.online before earlier utcNs middle old
        exact ⟨entry, List.mem_append_left _ member, emits⟩
      · exact ⟨entry, List.mem_append_right _ member, emits⟩
    · exact absurd (by simp [fresh]) (noLoss utcNs)

theorem init {desiredAssets : ℕ} {now : ℤ} (assets : desiredAssets ≠ 0) :
    Accounted (ClobMarketWebSocket.init desiredAssets now) := by
  have nothing : ∀ {earlier rest : List TraceEntry} {entry : TraceEntry},
      (ClobMarketWebSocket.init desiredAssets now).trace ≠ earlier ++ entry :: rest := by
    intro earlier rest entry same
    simp [ClobMarketWebSocket.init] at same
  exact ⟨fun _ _ _ _ _ split => absurd split nothing, fun _ _ _ _ split => absurd split nothing,
    assets, List.Pairwise.nil, by simp [ClobMarketWebSocket.init, connectionLog],
    fun _ _ _ split => absurd split nothing, fun _ _ _ _ split => absurd split nothing⟩

theorem not_between_of_online {phase : ConnectionPhase} (online : phase.online = true) :
    phase.between ≠ true := by
  cases phase <;> simp_all [ConnectionPhase.online, ConnectionPhase.between]

/-- Steps that log neither a loss nor the start of an attempt. -/
theorem append_rows {now : ClobMarketWebSocket} (accounted : Accounted websocket)
    (extended : after.trace = websocket.trace ++ added) (forward : websocket.now ≤ after.now)
    (assets : after.desiredAssets ≠ 0) (sameTime : after.now = now.now)
    (rows : ∀ entry ∈ added, entry = .frame ∨ ∃ eventType ≠ ConnectionEventType.connectStarted,
      entry = now.row eventType)
    (between : after.phase.between = true → LossRecorded after.trace)
    (unchanged : websocket.phase.online = true ∨
      ∀ entry ∈ untilConnected added, entry.closes = false)
    (online : after.phase.online = true →
      websocket.phase.online = true ∨ ∃ entry ∈ added, entry.emits .connected = true) :
    Accounted after := by
  have noLoss : ∀ utcNs, .lost utcNs ∉ added := by
    intro utcNs member
    rcases rows _ member with same | ⟨eventType, -, same⟩
    · cases same
    · cases same
  refine accounted.append extended forward assets ?_ between ?_ ?_ unchanged
    fun connected => ⟨online connected, noLoss⟩
  · rw [extended]
    refine accounted.recorded.append fun entry member => ?_
    rcases rows entry member with rfl | ⟨eventType, other, rfl⟩
    · rfl
    · simpa using other
  · rintro entry member event rfl
    rcases rows _ member with same | ⟨eventType, -, same⟩
    · cases same
    · rw [TraceEntry.emitted.inj same, sameTime]
  · intro earlier utcNs rest split
    exact absurd (by simp [split]) (noLoss utcNs)

/-- The end of an attempt that logs its disconnect. -/
theorem append_loss {now : ClobMarketWebSocket} (accounted : Accounted websocket)
    (extended : after.trace = websocket.trace ++ [now.row .disconnectDetected, .lost now.now])
    (forward : websocket.now ≤ after.now) (assets : after.desiredAssets ≠ 0)
    (sameTime : after.now = now.now) (subscribed : now.desiredAssets ≠ 0)
    (ended : after.phase = .ended) : Accounted after := by
  refine accounted.append extended forward assets ?_ (fun _ => ?_) ?_ ?_ ?_ ?_
  · rw [extended]
    exact accounted.recorded.append (by simp)
  · rw [extended]
    exact .of_disconnect (by simp) (by simp [TraceEntry.opens])
  · rintro entry member event rfl
    simp only [List.mem_cons, List.not_mem_nil, or_false, reduceCtorEq] at member
    rw [TraceEntry.emitted.inj member, sameTime]
  · intro earlier utcNs rest split
    cases earlier with
    | nil => simp at split
    | cons head earlier =>
      obtain ⟨rfl, tail⟩ := List.cons.inj split
      cases earlier with
      | nil =>
        obtain ⟨same, rfl⟩ := List.cons.inj tail
        refine ⟨⟨websocket.trace, _, rfl, rfl, ?_, TraceEntry.lost.inj same⟩, by simp [untilConnected]⟩
        simpa [ConnectionEvent.subscribed] using subscribed
      | cons head earlier => simp at tail
  · exact .inr (by simp [untilConnected, TraceEntry.closes])
  · intro online
    rw [ended] at online
    cases online

/-- A regular step keeps the account. -/
theorem step {action : ClobAction} (accounted : Accounted websocket)
    (regular : Regular websocket action) (stepped : websocket.step action = some after) :
    Accounted after := by
  obtain ⟨added, extended, sameTime, assets, observes⟩ := perform_observes stepped
  change after.trace = websocket.trace ++ added at extended
  have forward : websocket.now ≤ after.now := sameTime ▸ regular.forward
  have subscribed : after.desiredAssets ≠ 0 := by
    rcases assets with same | changed
    · rw [same]
      exact accounted.assets
    · intro none
      exact regular.subscribed (none ▸ changed)
  generalize leads : after.phase = phase at observes
  generalize what : action.kind = kind at observes
  cases observes with
  | start idle =>
    have rested : LossRecorded websocket.trace := accounted.between (by rw [show websocket.phase = _ from idle]; rfl)
    refine accounted.append extended forward subscribed ?_ ?_ ?_ ?_ ?_ ?_
    · rw [extended]
      exact accounted.recorded.start rested _
    · rw [leads]
      exact fun between => by cases between
    · rintro entry member event rfl
      rw [TraceEntry.emitted.inj (List.mem_singleton.mp member), sameTime]
    · intro earlier utcNs rest split
      cases earlier <;> simp at split
    · exact .inr (by simp [untilConnected, TraceEntry.closes])
    · rw [leads]
      exact fun online => by cases online
  | loss => exact accounted.append_loss extended forward subscribed sameTime accounted.assets leads
  | graceful => exact absurd what regular.abrupt
  | connect =>
    refine accounted.append_rows extended forward subscribed sameTime
      (List.forall_mem_singleton.mpr (.inr ⟨_, by decide, rfl⟩)) ?_ ?_ ?_
    · rw [leads]
      exact fun between => by cases between
    · exact .inr (by simp [untilConnected])
    · exact fun _ => .inr (by simp)
  | stream before later entries =>
    refine accounted.append_rows extended forward subscribed sameTime ?_ ?_ (.inl before)
      fun _ => .inl before
    · intro entry member
      rcases entries entry member with rfl | rfl | rfl
      · exact .inl rfl
      · exact .inr ⟨_, by decide, rfl⟩
      · exact .inr ⟨_, by decide, rfl⟩
    · rw [leads]
      exact fun between => absurd between (not_between_of_online later)
  | other online between entries =>
    refine accounted.append_rows extended forward subscribed sameTime ?_ ?_ (.inr ?_) ?_
    · intro entry member
      obtain ⟨eventType, quiet, rfl⟩ := entries entry member
      refine .inr ⟨eventType, ?_, rfl⟩
      rintro rfl
      exact absurd quiet (by decide)
    · rw [leads, extended]
      refine fun resting => (accounted.between (between resting)).append fun entry member => ?_
      obtain ⟨eventType, quiet, rfl⟩ := entries entry member
      exact (row_quiet quiet).1
    · intro entry member
      obtain ⟨eventType, quiet, rfl⟩ := entries entry ((List.takeWhile_sublist _).subset member)
      exact (row_quiet quiet).2
    · rw [leads, online]
      exact .inl
  | recovered =>
    have connected := regular.recovers what
    refine accounted.append_rows extended forward subscribed sameTime
      (List.forall_mem_singleton.mpr (.inr ⟨_, by decide, rfl⟩)) ?_ (.inl connected)
      fun _ => .inl connected
    rw [leads]
    exact fun between => absurd between (not_between_of_online connected)

theorem run {actions : List ClobAction} (accounted : Accounted websocket)
    (run : Run ClobMarketWebSocket.step Regular websocket actions after) : Accounted after :=
  run.invariant accounted fun _ _ _ regular stepped kept => kept.step regular stepped

/-- The market of an outage is counted: its disconnect is closed by nothing before the next
connection. -/
theorem counted (accounted : Accounted websocket) {earlier rest : List TraceEntry} {utcNs : ℤ}
    {market : MarketWindow} (split : websocket.trace = earlier ++ .lost utcNs :: rest)
    (opens : utcNs ≤ market.marketEndUtcNs)
    (closes : ∀ event, (connectionLog rest).find? (fun event => event.eventType = .connected) =
      some event → market.marketStartUtcNs ≤ event.eventUtcNs) :
    0 < connectionGapCount (connectionLog websocket.trace) market := by
  obtain ⟨⟨before, event, rfl, disconnect, subscribed, rfl⟩, quiet⟩ :=
    accounted.outages earlier utcNs rest split
  have log : connectionLog websocket.trace =
      connectionLog before ++ event :: connectionLog rest := by
    rw [split, connectionLog_append, connectionLog_append, List.append_assoc]
    rfl
  have ordered : (connectionLog rest).Pairwise
      fun first second => first.eventUtcNs ≤ second.eventUtcNs := by
    have ordered := accounted.ordered
    rw [log] at ordered
    exact (List.pairwise_cons.mp (List.pairwise_append.mp ordered).2.1).2
  rw [log]
  refine connectionGapCount_pos disconnect subscribed opens fun gapEnd closing => ?_
  obtain ⟨row, inRows, rfl, closer⟩ := exists_of_gapEnd closing
  have inRest : row ∈ connectionLog rest := (List.takeWhile_sublist _).subset inRows
  obtain ⟨later, restSplit⟩ : ∃ later, rest = untilConnected rest ++ later :=
    ⟨_, List.takeWhile_append_dropWhile.symm⟩
  have cuts : later = rest.dropWhile fun entry => !entry.emits .connected :=
    List.append_cancel_left (restSplit.symm.trans List.takeWhile_append_dropWhile.symm)
  rw [restSplit, connectionLog_append] at inRest ordered closes
  rcases List.mem_append.mp inRest with early | late
  · -- Nothing before the next connection closes the gap.
    obtain ⟨entry, member, same⟩ := List.mem_filterMap.mp early
    have unclosed := quiet entry member
    cases entry with
    | frame => cases same
    | lost utcNs => cases same
    | emitted event =>
      obtain rfl := Option.some.inj same
      simp only [closes_emitted, unclosed] at closer
      cases closer
  · cases later with
    | nil => cases late
    | cons connection later =>
      have connected : connection.emits .connected = true := by
        have kept := List.head?_dropWhile_not (fun entry => !entry.emits .connected) rest
        rw [← cuts] at kept
        simpa using kept
      cases connection with
      | frame => cases connected
      | lost utcNs => cases connected
      | emitted event =>
        have unconnected : (connectionLog (untilConnected rest)).find?
            (fun event => event.eventType = .connected) = none := by
          refine List.find?_eq_none.mpr fun other member isConnected => ?_
          obtain ⟨entry, member, same⟩ := List.mem_filterMap.mp member
          have before := List.mem_takeWhile_imp member
          cases entry with
          | frame => cases same
          | lost utcNs => cases same
          | emitted row =>
            obtain rfl := Option.some.inj same
            rw [show TraceEntry.emits _ (.emitted row) = true from isConnected] at before
            cases before
        have started : market.marketStartUtcNs ≤ event.eventUtcNs := by
          refine closes event ?_
          rw [List.find?_append, unconnected, Option.none_or]
          exact List.find?_cons_of_pos connected
        rcases List.mem_cons.mp late with rfl | late
        · exact started
        · have following := (List.pairwise_cons.mp (List.pairwise_append.mp ordered).2.1).1 row late
          exact started.trans following

end Accounted

/-! ## Every outage is recorded -/

/-- The steps of a connection that ends in the given way, and the next attempt. -/
def exampleActions (ending : ClobStep) : List ClobAction :=
  [⟨10, .startConnect⟩, ⟨20, .connects⟩, ⟨30, .sendSubscription⟩, ⟨40, .receiveFrame false⟩,
    ⟨50, ending⟩, ⟨60, .scheduleReconnect⟩, ⟨70, .endWait⟩, ⟨80, .startConnect⟩, ⟨90, .connects⟩]

/-- The observations of a run with two assets. -/
def observe (actions : List ClobAction) : List TraceEntry :=
  (actions.foldlM ClobMarketWebSocket.step (ClobMarketWebSocket.init 2 0)).elim []
    ClobMarketWebSocket.trace

-- A recovery that completes after the next disconnect closes its gap: the outage is not counted.
example : connectionGapCount (connectionLog (observe (exampleActions .drops ++
    [⟨100, .sendSubscription⟩, ⟨110, .startRecovery⟩, ⟨120, .drops⟩, ⟨130, .completeRecovery⟩])))
      ⟨"market", 140, 150, by decide⟩ = 0 := by
  decide

end PolymarketBt
