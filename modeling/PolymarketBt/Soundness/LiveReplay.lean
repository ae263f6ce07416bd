import PolymarketBt.Proofs.Reconstructor
import PolymarketBt.Soundness.FrameOrder

/-! # Live reconstruction against replay

The live worker applies the snapshots, the level changes and the tick changes of a frame in this
order, while the merger sorts tick changes before level changes and level changes by their index.
Books of different tokens do not meet, so the two agree when both orders are the same for every
token.
-/

namespace PolymarketBt

open StableSort

/-! ## What agreement demands -/

/-- Live reconstruction and replay of the same frames leave the same book, with its levels and its
validity, and the same tick size for every token. -/
def ReplayAgrees (mode : ReplayClockMode) (start : BookReconstructor) (frames : List ParsedEvents) :
    Prop :=
  ∃ merged, mergeEvents (readEvents frames) mode = .ok merged ∧ ∀ tokenId,
    BookReconstructor.SameAt tokenId (frames.foldl BookReconstructor.bookWorker start)
      (start.absorbAll (replayBookEvents merged))

/-- No token of the frame has both a level change and a tick change, and the level changes of a
token come with indices that do not go back. -/
structure FrameAlike (parsed : ParsedEvents) : Prop where
  apart : ∀ update ∈ parsed.updates, ∀ change ∈ parsed.tickSizeChanges,
    update.tokenId ≠ change.tokenId
  numbered : parsed.updates.Pairwise fun first second =>
    first.tokenId = second.tokenId → first.changeIndex ≤ second.changeIndex

/-- The token of a book event. -/
def ReplayEvent.token (event : ReplayEvent) : Option String :=
  event.payload.bookEvent.map BookEvent.tokenId

/-- A replay by exchange times finds one on every event, and none goes back for a token. -/
def Timely (mode : ReplayClockMode) (frames : List ParsedEvents) : Prop :=
  mode = .exchangeTime →
    (∀ event ∈ frames.flatMap ParsedEvents.replayEvents, event.exchangeTimestampNs.isSome) ∧
      (frames.flatMap ParsedEvents.replayEvents).Pairwise fun first second =>
        first.token = second.token → first.timeAt .exchangeTime ≤ second.timeAt .exchangeTime

/-! ## Receipt stamps of parsed frames -/

/-- The event has the receipt stamp of the envelope. -/
structure FromEnvelope (envelope : RawEnvelope) (event : ReplayEvent) : Prop where
  receivedUtcNs : event.receivedUtcNs = envelope.receivedUtcNs
  connectionId : event.connectionId = envelope.connectionId
  sequence : event.sequence = envelope.sequence

/-- All book events of the result have it. -/
structure Received (envelope : RawEnvelope) (parsed : ParsedEvents) : Prop where
  snapshots : ∀ snapshot ∈ parsed.snapshots, FromEnvelope envelope snapshot.replayEvent
  updates : ∀ update ∈ parsed.updates, FromEnvelope envelope update.replayEvent
  ticks : ∀ change ∈ parsed.tickSizeChanges, FromEnvelope envelope change.replayEvent

theorem Received.mem {envelope : RawEnvelope} {parsed : ParsedEvents}
    (received : Received envelope parsed) :
    ∀ event ∈ parsed.replayEvents, FromEnvelope envelope event := by
  intro event member
  simp only [ParsedEvents.replayEvents, List.mem_append, List.mem_map] at member
  rcases member with (⟨snapshot, own, rfl⟩ | ⟨update, own, rfl⟩) | ⟨change, own, rfl⟩
  · exact received.snapshots snapshot own
  · exact received.updates update own
  · exact received.ticks change own

namespace EventParser

open JsonValue ParserState

variable {parser : EventParser} {envelope : RawEnvelope} {rawReference : String}

theorem received_addUpdate {state : ParserState} {update : ParsedChange}
    (received : Received envelope state.result) (own : FromEnvelope envelope update.replayEvent) :
    Received envelope (state.addUpdate update).result where
  snapshots := received.snapshots
  updates := List.forall_mem_append.mpr ⟨received.updates, List.forall_mem_singleton.mpr own⟩
  ticks := received.ticks

theorem parseChanges_received (message : Members) (index : ℕ) (changes : List (JsonValue × ℕ))
    (state : ParserState) (received : Received envelope state.result) :
    Received envelope
      (parser.parseChanges envelope message index rawReference changes state).1.result := by
  induction changes generalizing state with
  | nil => exact received
  | cons entry rest ih =>
    unfold parseChanges
    cases read : parser.readUpdate envelope message index entry.2 rawReference entry.1 with
    | error e => exact received
    | ok found =>
      obtain ⟨sequence, receipt, connection, _⟩ := readUpdate_spec read
      have added : Received envelope (state.addUpdate found.1).result :=
        received_addUpdate received ⟨receipt, connection, sequence⟩
      dsimp only
      cases parser.reportedTop envelope found.1 found.2 with
      | error e => exact added
      | ok top =>
        cases top with
        | none => exact ih _ added
        | some top => exact ih _ ⟨added.snapshots, added.updates, added.ticks⟩

theorem parseBook_received (message : Members) (index : ℕ) (state : ParserState)
    (received : Received envelope state.result) :
    Received envelope (parser.parseBook envelope message index rawReference state).1.result := by
  unfold parseBook
  cases parser.readBookHead state.tickSizeByToken message with
  | error e => exact received
  | ok head =>
    dsimp only
    cases read : parser.readSnapshot envelope message index rawReference head.1 head.2.1
        head.2.2 with
    | error e => exact received
    | ok snapshot =>
      have stamped := readSnapshot_stamped read
      refine ⟨List.forall_mem_append.mpr ⟨received.snapshots, List.forall_mem_singleton.mpr ?_⟩,
        received.updates, received.ticks⟩
      exact ⟨stamped.receivedUtcNs, stamped.connectionId, stamped.sequence⟩

theorem parseTickSizeChange_received (message : Members) (index : ℕ) (state : ParserState)
    (received : Received envelope state.result) :
    Received envelope
      (parser.parseTickSizeChange envelope message index rawReference state).1.result := by
  unfold parseTickSizeChange
  cases read : parser.readTickSizeChange envelope message index rawReference with
  | error e => exact received
  | ok change =>
    refine ⟨received.snapshots, received.updates,
      List.forall_mem_append.mpr ⟨received.ticks, List.forall_mem_singleton.mpr ?_⟩⟩
    unfold readTickSizeChange at read
    simp only [Except.bind_eq_ok, Except.pure_eq_ok] at read
    obtain ⟨_, _, _, _, _, _, _, _, _, _, rfl⟩ := read
    exact ⟨rfl, rfl, rfl⟩

theorem parseClobMessage_received (message : Members) (eventType : String) (index : ℕ)
    (state : ParserState) (received : Received envelope state.result) :
    Received envelope
      (parser.parseClobMessage envelope message eventType index rawReference state).1.result := by
  have same {after : ParsedEvents} (snapshots : after.snapshots = state.result.snapshots)
      (updates : after.updates = state.result.updates)
      (ticks : after.tickSizeChanges = state.result.tickSizeChanges) : Received envelope after :=
    ⟨snapshots ▸ received.snapshots, updates ▸ received.updates, ticks ▸ received.ticks⟩
  unfold parseClobMessage
  split
  · exact parseBook_received message index state received
  · unfold parsePriceChange
    split
    · exact received
    · exact parseChanges_received message index _ state received
    · exact received
  · unfold parseTrade
    split
    · exact received
    split
    · exact received
    · next warning _ =>
      cases warning <;> dsimp only [Option.elim] <;> split <;> exact same rfl rfl rfl
  · exact parseTickSizeChange_received message index state received
  · unfold parseResolution
    dsimp only
    split
    · exact same rfl rfl rfl
    split
    · exact same rfl rfl rfl
    split <;> exact same rfl rfl rfl
  · unfold parseBestBidAsk
    split <;> exact same rfl rfl rfl
  · exact received
  · exact same rfl rfl rfl

theorem parseMessage_received {entry : JsonValue × ℕ} {state after : ParserState}
    (parsed : parser.parseMessage envelope rawReference state entry = .ok after)
    (received : Received envelope state.result) : Received envelope after.result := by
  rcases entry with ⟨value, index⟩
  cases value with
  | object message =>
    have kept := @parseClobMessage_received parser envelope rawReference message
      (parser.library.textOr message "event_type" "unknown") index
      (state.addEventType (parser.library.textOr message "event_type" "unknown"))
      ⟨received.snapshots, received.updates, received.ticks⟩
    unfold parseMessage at parsed
    dsimp only at parsed
    generalize parser.parseClobMessage envelope message
      (parser.library.textOr message "event_type" "unknown") index rawReference
      (state.addEventType (parser.library.textOr message "event_type" "unknown")) = run
      at parsed kept
    rcases run with ⟨final, e | done⟩
    · dsimp only at parsed
      split at parsed
      · cases parsed
        exact ⟨kept.snapshots, kept.updates, kept.ticks⟩
      · cases parsed
    · cases parsed
      exact kept
  | _ =>
    cases parsed
    exact ⟨received.snapshots, received.updates, received.ticks⟩

theorem parseClob_received {reference : Option String} {ticks : String → Option ℤ}
    {final : ParserState} (parsed : parser.parseClob envelope reference ticks = .ok final) :
    Received envelope final.result := by
  have none : Received envelope {} := ⟨by simp, by simp, by simp⟩
  unfold parseClob at parsed
  dsimp only at parsed
  split at parsed
  · cases parsed
    exact ⟨none.snapshots, none.updates, none.ticks⟩
  split at parsed
  · split at parsed
    · cases parsed
      exact ⟨none.snapshots, none.updates, none.ticks⟩
    · cases parsed
  · next payload _ =>
    have run (entries : List (JsonValue × ℕ)) (state : ParserState)
        (received : Received envelope state.result)
        (folded : entries.foldlM (parser.parseMessage envelope (referenceOf envelope reference))
          state = .ok final) : Received envelope final.result := by
      induction entries generalizing state with
      | nil =>
        cases folded
        exact received
      | cons entry rest ih =>
        rw [List.foldlM_cons, Except.bind_eq_ok] at folded
        obtain ⟨next, step, later⟩ := folded
        exact ih next (parseMessage_received step received) later
    exact run _ _ none parsed

theorem parsePrice_received {topic : String} {message payload : Members} {state after : ParserState}
    (parsed : parser.parsePrice envelope rawReference topic message payload state = .ok after)
    (received : Received envelope state.result) : Received envelope after.result := by
  unfold parsePrice at parsed
  dsimp only at parsed
  split at parsed
  · split at parsed
    · cases parsed
      exact ⟨received.snapshots, received.updates, received.ticks⟩
    · cases parsed
  · simp only [Except.bind_eq_ok, Except.pure_eq_ok] at parsed
    obtain ⟨_, _, _, _, rfl⟩ := parsed
    exact ⟨received.snapshots, received.updates, received.ticks⟩

theorem parseRtds_received {reference : Option String} {ticks : String → Option ℤ}
    {final : ParserState} (parsed : parser.parseRtds envelope reference ticks = .ok final) :
    Received envelope final.result := by
  have none : Received envelope {} := ⟨by simp, by simp, by simp⟩
  unfold parseRtds at parsed
  dsimp only at parsed
  split at parsed
  · cases parsed
    exact ⟨none.snapshots, none.updates, none.ticks⟩
  split at parsed
  · cases parsed
    exact ⟨none.snapshots, none.updates, none.ticks⟩
  split at parsed
  · split at parsed
    · cases parsed
      exact ⟨none.snapshots, none.updates, none.ticks⟩
    · cases parsed
  · unfold parseRtdsMessage at parsed
    dsimp only at parsed
    split at parsed
    · cases parsed
      exact ⟨none.snapshots, none.updates, none.ticks⟩
    split at parsed
    · cases parsed
      exact ⟨none.snapshots, none.updates, none.ticks⟩
    split at parsed
    · exact parsePrice_received parsed ⟨none.snapshots, none.updates, none.ticks⟩
    · cases parsed
      exact ⟨none.snapshots, none.updates, none.ticks⟩
  · cases parsed
    exact ⟨none.snapshots, none.updates, none.ticks⟩

/-- Every book event of a parsed frame carries the receipt stamp of its envelope. -/
theorem parse_received {reference : Option String} {ticks : String → Option ℤ}
    {final : ParserState} (parsed : parser.parse envelope reference ticks = .ok final) :
    Received envelope final.result := by
  unfold parse at parsed
  split at parsed
  · exact parseClob_received parsed
  · exact parseRtds_received parsed
  · cases parsed
    exact ⟨by simp, by simp, by simp⟩

theorem parseFrames_received {envelopes : List RawEnvelope} {ticks : String → Option ℤ}
    {frames : List ParsedEvents} (parsed : parser.parseFrames ticks envelopes = .ok frames) :
    List.Forall₂ Received envelopes frames := by
  induction envelopes generalizing ticks frames with
  | nil =>
    cases parsed
    exact .nil
  | cons envelope rest ih =>
    unfold parseFrames at parsed
    simp only [Except.bind_eq_ok, Except.pure_eq_ok] at parsed
    obtain ⟨state, own, later, others, rfl⟩ := parsed
    exact .cons (parse_received own) (ih others)

end EventParser

/-! ## The order of replay -/

theorem FromEnvelope.sameReceipt {envelope : RawEnvelope} {first second : ReplayEvent}
    (own : FromEnvelope envelope first) (other : FromEnvelope envelope second) :
    SameReceipt first second where
  receivedUtcNs := own.receivedUtcNs.trans other.receivedUtcNs.symm
  connectionId := own.connectionId.trans other.connectionId.symm
  sequence := own.sequence.trans other.sequence.symm

/-- An event of an earlier receipt sorts first unless its replay time is later. -/
theorem eventKey_le_of_received {mode : ReplayClockMode} {first second : ReplayEvent}
    (time : first.timeAt mode ≤ second.timeAt mode)
    (received : first.receivedUtcNs < second.receivedUtcNs) :
    eventKey mode first ≤ eventKey mode second := by
  simp only [eventKey, eventKeyAt, Prod.Lex.toLex_le_toLex, received, true_or, and_true]
  exact time.lt_or_eq

/-- The live order of a token's events in one frame, by priority and change index. -/
theorem FrameAlike.ranked {parsed : ParsedEvents} (alike : FrameAlike parsed) :
    parsed.replayEvents.Pairwise fun first second => first.token = second.token →
      first.sourcePriority < second.sourcePriority ∨
        first.sourcePriority = second.sourcePriority ∧
          first.parentChangeIndex ≤ second.parentChangeIndex := by
  unfold ParsedEvents.replayEvents
  refine List.pairwise_append.mpr ⟨List.pairwise_append.mpr ⟨?_, ?_, ?_⟩, ?_, ?_⟩
  · rw [List.pairwise_map]
    exact List.pairwise_of_forall fun _ _ _ => .inr ⟨rfl, le_rfl⟩
  · rw [List.pairwise_map]
    exact alike.numbered.imp fun index token => .inr ⟨rfl, index (Option.some.inj token)⟩
  · intro first own second other _
    obtain ⟨_, _, rfl⟩ := List.mem_map.mp own
    obtain ⟨_, _, rfl⟩ := List.mem_map.mp other
    exact .inl (by decide : 10 < 20)
  · rw [List.pairwise_map]
    exact List.pairwise_of_forall fun _ _ _ => .inr ⟨rfl, le_rfl⟩
  · intro first own second other token
    obtain ⟨change, known, rfl⟩ := List.mem_map.mp other
    rcases List.mem_append.mp own with snapshots | updates
    · obtain ⟨_, _, rfl⟩ := List.mem_map.mp snapshots
      exact .inl (by decide : 10 < 15)
    · obtain ⟨update, changed, rfl⟩ := List.mem_map.mp updates
      exact absurd (Option.some.inj token) (alike.apart update changed change known)

/-- In the live order the keys of a token's events do not go back. -/
theorem live_inOrder {mode : ReplayClockMode} {envelopes : List RawEnvelope}
    {frames : List ParsedEvents} (received : List.Forall₂ Received envelopes frames)
    (increasing : envelopes.Pairwise fun earlier later =>
      earlier.receivedUtcNs < later.receivedUtcNs)
    (alike : ∀ parsed ∈ frames, FrameAlike parsed) (timely : Timely mode frames) :
    (frames.flatMap ParsedEvents.replayEvents).Pairwise fun first second =>
      first.token = second.token → eventKey mode first ≤ eventKey mode second := by
  have times : (frames.flatMap ParsedEvents.replayEvents).Pairwise fun first second =>
      mode = .exchangeTime → first.token = second.token →
        first.timeAt mode ≤ second.timeAt mode := by
    cases mode with
    | localReceiveTime => exact List.pairwise_of_forall fun _ _ exchange => nomatch exchange
    | exchangeTime => exact (timely rfl).2.imp fun time _ => time
  clear timely
  induction received with
  | nil => exact List.Pairwise.nil
  | @cons envelope parsed envelopes frames own others ih =>
    rw [List.flatMap_cons] at times ⊢
    obtain ⟨within, later, across⟩ := List.pairwise_append.mp times
    obtain ⟨before, rest⟩ := List.pairwise_cons.mp increasing
    refine List.pairwise_append.mpr ⟨?_,
      ih rest (fun other member => alike other (List.mem_cons_of_mem _ member)) later, ?_⟩
    · refine (within.and (alike parsed List.mem_cons_self).ranked).imp_of_mem
        fun {first second} inFrame too both token => ?_
      have same := (own.mem first inFrame).sameReceipt (own.mem second too)
      rw [same.eventKey_le_iff]
      have time : first.timeAt mode ≤ second.timeAt mode := by
        cases mode with
        | localReceiveTime => exact same.receivedUtcNs.le
        | exchangeTime => exact both.1 rfl token
      have ranked := both.2 token
      omega
    · intro first inFrame second member token
      obtain ⟨other, known, inOther⟩ := List.mem_flatMap.mp member
      obtain ⟨otherEnvelope, listed, stamped⟩ : ∃ otherEnvelope ∈ envelopes,
          Received otherEnvelope other := by
        obtain ⟨index, bound, rfl⟩ := List.getElem_of_mem known
        have lengths := others.length_eq
        exact ⟨envelopes[index], List.getElem_mem _, others.get (by omega) bound⟩
      have receipt : first.receivedUtcNs < second.receivedUtcNs := by
        rw [(own.mem first inFrame).receivedUtcNs, (stamped.mem second inOther).receivedUtcNs]
        exact before otherEnvelope listed
      have time : first.timeAt mode ≤ second.timeAt mode := by
        cases mode with
        | localReceiveTime => exact receipt.le
        | exchangeTime => exact across first inFrame second member rfl token
      exact eventKey_le_of_received time receipt

/-- Events of one priority come from one dataset, where the reader keeps the frames' order. -/
theorem readEvents_filter (frames : List ParsedEvents) (priority : ℕ) {keep : ReplayEvent → Bool}
    (single : ∀ event, keep event → event.sourcePriority = priority) :
    (readEvents frames).filter keep =
      (frames.flatMap ParsedEvents.replayEvents).filter keep := by
  have snapshots (parsed : ParsedEvents) (other : priority ≠ 10) :
      (parsed.snapshots.map ParsedSnapshot.replayEvent).filter keep = [] := by
    refine List.filter_eq_nil_iff.mpr fun event member kept => other ?_
    obtain ⟨_, _, rfl⟩ := List.mem_map.mp member
    exact (single _ kept).symm
  have updates (parsed : ParsedEvents) (other : priority ≠ 20) :
      (parsed.updates.map ParsedChange.replayEvent).filter keep = [] := by
    refine List.filter_eq_nil_iff.mpr fun event member kept => other ?_
    obtain ⟨_, _, rfl⟩ := List.mem_map.mp member
    exact (single _ kept).symm
  have ticks (parsed : ParsedEvents) (other : priority ≠ 15) :
      (parsed.tickSizeChanges.map ParsedTickSizeChange.replayEvent).filter keep = [] := by
    refine List.filter_eq_nil_iff.mpr fun event member kept => other ?_
    obtain ⟨_, _, rfl⟩ := List.mem_map.mp member
    exact (single _ kept).symm
  unfold readEvents
  simp only [List.filter_append, List.filter_flatMap, ParsedEvents.replayEvents]
  have none : frames.flatMap (fun _ => ([] : List ReplayEvent)) = [] :=
    List.flatMap_eq_nil_iff.mpr fun _ _ => rfl
  by_cases ten : priority = 10
  · simp [none, fun parsed => updates parsed (by omega), fun parsed => ticks parsed (by omega)]
  by_cases twenty : priority = 20
  · simp [none, fun parsed => snapshots parsed ten, fun parsed => ticks parsed (by omega)]
  · simp [none, fun parsed => snapshots parsed ten, fun parsed => updates parsed twenty]

theorem sortByKey_readEvents (mode : ReplayClockMode) (frames : List ParsedEvents) :
    sortByKey (eventKey mode) (readEvents frames) =
      sortByKey (eventKey mode) (frames.flatMap ParsedEvents.replayEvents) := by
  refine sortByKey_congr fun key => ?_
  refine readEvents_filter frames (ofLex (ofLex (ofLex key).2).2).1 fun event kept => ?_
  rw [← of_decide_eq_true kept]
  rfl

/-- The merged events of a token are its events in the live order. -/
theorem merged_filter {mode : ReplayClockMode} {events : List ReplayEvent} (tokenId : String)
    (inOrder : events.Pairwise fun first second =>
      first.token = second.token → eventKey mode first ≤ eventKey mode second) :
    (sortByKey (eventKey mode) events).filter (fun event => event.token = some tokenId) =
      events.filter fun event => event.token = some tokenId := by
  rw [sortByKey_filter]
  refine InOrder.sortByKey_eq ?_
  refine (List.Pairwise.filter _ inOrder).imp_of_mem fun {first second} own other le => le ?_
  rw [of_decide_eq_true (List.mem_filter.mp own).2, of_decide_eq_true (List.mem_filter.mp other).2]

theorem replayBookEvents_filter (events : List ReplayEvent) (tokenId : String) :
    (replayBookEvents events).filter (fun event => event.tokenId = tokenId) =
      replayBookEvents (events.filter fun event => event.token = some tokenId) := by
  unfold replayBookEvents
  induction events with
  | nil => rfl
  | cons event rest ih =>
    rw [List.filterMap_cons, List.filter_cons]
    cases known : event.payload.bookEvent with
    | none =>
      have absent : event.token = none := by rw [ReplayEvent.token, known, Option.map_none]
      simpa [absent] using ih
    | some found =>
      have token : event.token = some found.tokenId := by
        rw [ReplayEvent.token, known, Option.map_some]
      by_cases own : found.tokenId = tokenId
      · simpa [token, own, known] using ih
      · simpa [token, own] using ih

/-! ## The live worker -/

theorem replayBookEvents_replayEvents (parsed : ParsedEvents) :
    replayBookEvents parsed.replayEvents = parsed.workerEvents := by
  unfold replayBookEvents ParsedEvents.replayEvents ParsedEvents.workerEvents
  simp only [List.filterMap_append, List.filterMap_map]
  congr 1
  · congr 1
    · exact congrFun List.filterMap_eq_map _
    · exact congrFun List.filterMap_eq_map _
  · exact congrFun List.filterMap_eq_map _

namespace BookReconstructor

/-- The worker's record of a failure touches neither book nor tick size of any token. -/
theorem workerApply_sameAt (reconstructor : BookReconstructor) (event : BookEvent)
    (tokenId : String) :
    SameAt tokenId (reconstructor.workerApply event) (reconstructor.absorb event) := by
  unfold workerApply absorb
  rcases reconstructor.applyEvent event with ⟨applied, e | done⟩
  · exact ⟨rfl, rfl⟩
  · exact .refl tokenId applied

theorem workerAll_sameAt {tokenId : String} {first second : BookReconstructor}
    (same : SameAt tokenId first second) (events : List BookEvent) :
    SameAt tokenId (events.foldl workerApply first) (second.absorbAll events) := by
  induction events generalizing first second with
  | nil => exact same
  | cons event rest ih =>
    refine ih ((first.workerApply_sameAt event tokenId).trans ?_)
    by_cases own : event.tokenId = tokenId
    · subst own
      exact same.absorb
    · have distinct : tokenId ≠ event.tokenId := fun equal => own equal.symm
      exact (absorb_sameAt_of_ne event distinct).trans
        (same.trans (absorb_sameAt_of_ne event distinct).symm)

theorem bookWorker_sameAt (start : BookReconstructor) (frames : List ParsedEvents)
    (tokenId : String) :
    SameAt tokenId (frames.foldl bookWorker start)
      (start.absorbAll (replayBookEvents (frames.flatMap ParsedEvents.replayEvents))) := by
  have flat : frames.foldl bookWorker start =
      (frames.flatMap ParsedEvents.workerEvents).foldl workerApply start := by
    induction frames generalizing start with
    | nil => rfl
    | cons parsed rest ih =>
      rw [List.foldl_cons, ih, List.flatMap_cons, List.foldl_append]
      rfl
  have events : replayBookEvents (frames.flatMap ParsedEvents.replayEvents) =
      frames.flatMap ParsedEvents.workerEvents := by
    unfold replayBookEvents
    rw [List.filterMap_flatMap]
    exact List.flatMap_congr fun parsed _ => replayBookEvents_replayEvents parsed
  rw [flat, events]
  exact workerAll_sameAt (.refl tokenId start) _

end BookReconstructor

namespace EventParser

def bookMessage : JsonValue :=
  .object [("event_type", .text "book"), ("asset_id", .text "17"), ("market", .text "0x0f"),
    ("timestamp", .text "1700000000000"), ("tick_size", .text "0.01"),
    ("bids", .array [.object [("price", .text "0.47"), ("size", .text "5")]]),
    ("asks", .array [.object [("price", .text "0.52"), ("size", .text "5")]])]

def bookText : String :=
  "\x7b\"event_type\":\"book\",\"asset_id\":\"17\",\"market\":\"0x0f\"," ++
    "\"timestamp\":\"1700000000000\",\"tick_size\":\"0.01\"," ++
    "\"bids\":[\x7b\"price\":\"0.47\",\"size\":\"5\"\x7d]," ++
    "\"asks\":[\x7b\"price\":\"0.52\",\"size\":\"5\"\x7d]\x7d"

def tickMessage : JsonValue :=
  .object [("event_type", .text "tick_size_change"), ("asset_id", .text "17"),
    ("market", .text "0x0f"), ("old_tick_size", .text "0.01"), ("new_tick_size", .text "0.001"),
    ("timestamp", .text "1700000000001")]

def tickText : String :=
  "\x7b\"event_type\":\"tick_size_change\",\"asset_id\":\"17\",\"market\":\"0x0f\"," ++
    "\"old_tick_size\":\"0.01\",\"new_tick_size\":\"0.001\"," ++
    "\"timestamp\":\"1700000000001\"\x7d"

/-- The tick is refined, and then a level at a price of the new tick is set. -/
def finerText : String :=
  "[" ++ tickText ++ ",\x7b\"event_type\":\"price_change\",\"market\":\"0x0f\"," ++
    "\"timestamp\":\"1700000000000\",\"price_changes\":[\x7b\"asset_id\":\"17\"," ++
    "\"price\":\"0.485\",\"size\":\"100\",\"side\":\"BUY\"\x7d]\x7d]"

/-- The libraries as they behave on these frames. -/
def tickParser : EventParser where
  library := { (bidParser bookMessage).library with
    loads := fun text =>
      .ok (if text = bookText then bookMessage
        else if text = tickText then tickMessage
        else .array [tickMessage, bidChanges [("0.485", "100")]])
    decimal := fun
      | "0.01" => some (.finite (1 / 100))
      | "0.001" => some (.finite (1 / 1000))
      | "0.47" => some (.finite (47 / 100))
      | "0.485" => some (.finite (485 / 1000))
      | "0.52" => some (.finite (52 / 100))
      | "5" => some (.finite 5)
      | "100" => some (.finite 100)
      | "1700000000000" => some (.finite 1700000000000)
      | "1700000000001" => some (.finite 1700000000001)
      | _ => none
    looksNumeric := fun text => text = "1700000000000" ∨ text = "1700000000001" }
  marketForToken := halfChangeParser.marketForToken

/-- A book frame, and a frame received after it. -/
def afterBook (payloadRaw : String) : List RawEnvelope :=
  [{ bidEnvelope bookText with receivedUtcNs := 900, sequence := 6, sequence_pos := by decide },
    bidEnvelope payloadRaw]

end EventParser

open EventParser

end PolymarketBt
