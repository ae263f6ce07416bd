import PolymarketBt.Proofs.Replay
import PolymarketBt.Soundness.ParserIsolation

/-! # Order of the events of one frame

All events of a frame share their receipt stamp. The change index restarts in every message, and
snapshots sort before changes. So a sorted frame is in the order of its messages exactly when only
the last message that yields book events is a price change and no exchange time goes back.
-/

namespace PolymarketBt

open JsonValue ParserState
open StableSort (InOrder sortByKey_eq_self_iff)

/-- The snapshots and level changes among parsed events, as replay events. -/
def ParsedEvents.bookEvents (parsed : ParsedEvents) : List ReplayEvent :=
  parsed.snapshots.map ParsedSnapshot.replayEvent ++ parsed.updates.map ParsedChange.replayEvent

namespace EventParser

variable (parser : EventParser) (envelope : RawEnvelope) (rawReference : String)

/-! ## The order of the messages -/

/-- What each message of a frame adds, in the order of the messages. -/
def contributions : (String → Option ℤ) → List (JsonValue × ℕ) → Except ReadError (List ParsedEvents)
  | _, [] => .ok []
  | tickSizeByToken, entry :: rest => do
    let alone ← parser.parseMessage envelope rawReference ⟨tickSizeByToken, {}⟩ entry
    return alone.result :: (← contributions alone.tickSizeByToken rest)

/-- Both sorts give the events message by message, and no two level changes share a key. -/
def InFrameOrder (tickSizeByToken : String → Option ℤ) (payload : JsonValue) (final : ParserState)
    (mode : ReplayClockMode) : Prop :=
  ∃ parts, parser.contributions envelope rawReference tickSizeByToken (messages payload).zipIdx =
      .ok parts ∧
    mergeEvents final.result.bookEvents mode = .ok (parts.flatMap ParsedEvents.bookEvents) ∧
    iterBookEvents final.result.bookEvents = parts.flatMap ParsedEvents.bookEvents ∧
    (final.result.updates.map ParsedChange.replayEvent).Pairwise fun first second =>
      deterministicEventKey first mode ≠ deterministicEventKey second mode ∧
        tapeOrderKey first ≠ tapeOrderKey second

/-! ## What the messages yield -/

inductive MessageKind where
  | book
  | changes
deriving DecidableEq, Repr

/-- The kind of book events that a message yields, and their exchange time. -/
structure MessageHead where
  kind : MessageKind
  exchangeTimestampNs : Option ℤ
deriving DecidableEq, Repr

/-- A book yields events if it reads, and a price change if its first change does. -/
def messageHead (tickSizeByToken : String → Option ℤ) : JsonValue × ℕ → Option MessageHead
  | (.object message, index) =>
    match parser.library.textOr message "event_type" "unknown" with
    | "book" =>
      match parser.readBookHead tickSizeByToken message with
      | .error _ => none
      | .ok (tokenId, market, tickSizeScaled) =>
        match parser.readSnapshot envelope message index rawReference tokenId market
            tickSizeScaled with
        | .error _ => none
        | .ok snapshot => some ⟨.book, snapshot.exchangeTimestampNs⟩
    | "price_change" =>
      match message.lookup "price_changes" with
      | some (.array (change :: _)) =>
        match parser.readUpdate envelope message index 0 rawReference change with
        | .error _ => none
        | .ok (update, _) => some ⟨.changes, update.exchangeTimestampNs⟩
      | _ => none
    | _ => none
  | _ => none

/-- The messages of a frame that yield book events. -/
def frameHeads : (String → Option ℤ) → List (JsonValue × ℕ) → List MessageHead
  | _, [] => []
  | tickSizeByToken, entry :: rest =>
    (parser.messageHead envelope rawReference tickSizeByToken entry).toList ++
      frameHeads (parser.remember envelope rawReference tickSizeByToken entry) rest

/-- Only the last message is a price change, and the exchange times that a replay by them needs
are there and never go back. -/
def FrameOrdered (mode : ReplayClockMode) (heads : List MessageHead) : Prop :=
  (heads.Pairwise fun earlier _ => earlier.kind = .book) ∧
    (mode = .exchangeTime → ∃ stamps : List ℤ,
      heads.map MessageHead.exchangeTimestampNs = stamps.map some ∧ stamps.Pairwise (· ≤ ·))

/-! ## What one message adds -/

/-- The event has the receipt stamp of the envelope and the exchange time. -/
structure Stamped (stamp : Option ℤ) (event : ReplayEvent) : Prop where
  receivedUtcNs : event.receivedUtcNs = envelope.receivedUtcNs
  connectionId : event.connectionId = envelope.connectionId
  sequence : event.sequence = envelope.sequence
  exchangeTimestampNs : event.exchangeTimestampNs = stamp

/-- What a message with a head adds: one snapshot, or changes numbered from zero. -/
inductive Yields : MessageHead → ParsedEvents → Prop
  | book {stamp : Option ℤ} {part : ParsedEvents} (snapshot : ParsedSnapshot)
      (snapshots : part.snapshots = [snapshot]) (updates : part.updates = [])
      (stamped : Stamped envelope stamp snapshot.replayEvent) : Yields ⟨.book, stamp⟩ part
  | changes {stamp : Option ℤ} {part : ParsedEvents} (snapshots : part.snapshots = [])
      (some : part.updates ≠ [])
      (numbered : part.updates.map ParsedChange.changeIndex = List.range part.updates.length)
      (stamped : ∀ update ∈ part.updates, Stamped envelope stamp update.replayEvent) :
      Yields ⟨.changes, stamp⟩ part

/-- The message adds no book event. -/
def Silent (part : ParsedEvents) : Prop := part.snapshots = [] ∧ part.updates = []

variable {parser envelope rawReference}

/-- The changes that are added are the first ones of the message. -/
theorem parseChanges_updates (message : Members) (index : ℕ) (changes : List (JsonValue × ℕ))
    (start : ParserState) {stamp : Option ℤ}
    (time : parseTimestampNs parser.library (get message "timestamp") = .ok stamp) :
    ∃ added, (parser.parseChanges envelope message index rawReference changes
        start).1.result.updates = start.result.updates ++ added ∧
      (parser.parseChanges envelope message index rawReference changes
        start).1.result.snapshots = start.result.snapshots ∧
      (∀ update ∈ added, Stamped envelope stamp update.replayEvent) ∧
      added.map ParsedChange.changeIndex = (changes.map Prod.snd).take added.length := by
  induction changes generalizing start with
  | nil => exact ⟨[], by simp [parseChanges], rfl, by simp, rfl⟩
  | cons entry rest ih =>
    unfold parseChanges
    cases read : parser.readUpdate envelope message index entry.2 rawReference entry.1 with
    | error e => exact ⟨[], by simp, rfl, by simp, rfl⟩
    | ok found =>
      obtain ⟨sequence, received, connection, numbered, timed, _⟩ := readUpdate_spec read
      obtain ⟨top, reported⟩ := reportedTop_of_readUpdate read
      obtain rfl : found.1.exchangeTimestampNs = stamp := Except.ok.inj (timed.symm.trans time)
      have own : Stamped envelope found.1.exchangeTimestampNs found.1.replayEvent :=
        ⟨received, connection, sequence, rfl⟩
      -- whether a top of book is added beside the change makes no difference
      have more (state : ParserState) (updates : state.result.updates =
          start.result.updates ++ [found.1])
          (snapshots : state.result.snapshots = start.result.snapshots) :
          ∃ added, (parser.parseChanges envelope message index rawReference rest
              state).1.result.updates = start.result.updates ++ added ∧
            (parser.parseChanges envelope message index rawReference rest
              state).1.result.snapshots = start.result.snapshots ∧
            (∀ update ∈ added, Stamped envelope found.1.exchangeTimestampNs update.replayEvent) ∧
            added.map ParsedChange.changeIndex =
              ((entry :: rest).map Prod.snd).take added.length := by
        obtain ⟨added, updated, kept, stamped, indices⟩ := ih state
        refine ⟨found.1 :: added, ?_, kept.trans snapshots, ?_, ?_⟩
        · rw [updated, updates, List.append_assoc]
          rfl
        · exact List.forall_mem_cons.mpr ⟨own, stamped⟩
        · simp [indices, numbered]
      simp only [reported]
      cases top with
      | none => exact more _ rfl rfl
      | some top => exact more _ rfl rfl

/-- The first change of a message is added if it reads. -/
theorem parseChanges_first (message : Members) (index : ℕ) (change : JsonValue × ℕ)
    (rest : List (JsonValue × ℕ)) (start : ParserState) {read : ParsedChange × Members}
    (reads : parser.readUpdate envelope message index change.2 rawReference change.1 = .ok read) :
    start.result.updates.length < (parser.parseChanges envelope message index rawReference
      (change :: rest) start).1.result.updates.length := by
  obtain ⟨top, reported⟩ := reportedTop_of_readUpdate reads
  have kept (state : ParserState)
      (added : state.result.updates.length = start.result.updates.length + 1) :
      start.result.updates.length < (parser.parseChanges envelope message index rawReference rest
        state).1.result.updates.length := by
    have le := @parseChanges_updates_le parser envelope rawReference message index rest state
    omega
  unfold parseChanges
  simp only [reads, reported]
  cases top with
  | none => exact kept _ (by simp [addUpdate])
  | some top => exact kept _ (by simp [addUpdate, addTop])

/-- What a message with or without a head adds. -/
def Adds (envelope : RawEnvelope) : Option MessageHead → ParsedEvents → Prop
  | none, part => Silent part
  | some head, part => Yields envelope head part

theorem Adds.congr {head : Option MessageHead} {part other : ParsedEvents}
    (adds : Adds envelope head part) (snapshots : other.snapshots = part.snapshots)
    (updates : other.updates = part.updates) : Adds envelope head other := by
  cases head with
  | none => exact ⟨snapshots.trans adds.1, updates.trans adds.2⟩
  | some head =>
    cases adds with
    | book snapshot single silent stamped =>
      exact .book snapshot (snapshots.trans single) (updates.trans silent) stamped
    | changes silent more numbered stamped =>
      exact .changes (snapshots.trans silent) (by rwa [updates]) (by rwa [updates])
        (by rwa [updates])

theorem readSnapshot_stamped {message : Members} {index : ℕ} {tokenId : String}
    {market : MarketRecord} {tickSizeScaled : ℤ} {snapshot : ParsedSnapshot}
    (read : parser.readSnapshot envelope message index rawReference tokenId market tickSizeScaled =
      .ok snapshot) :
    Stamped envelope snapshot.exchangeTimestampNs snapshot.replayEvent := by
  unfold readSnapshot at read
  simp only [Except.bind_eq_ok, Except.pure_eq_ok] at read
  obtain ⟨_, _, stamp, _, _, _, _, _, rfl⟩ := read
  exact ⟨rfl, rfl, rfl, rfl⟩

theorem parsePriceChange_adds (message : Members) (index : ℕ) (start : ParserState)
    (fresh : Silent start.result) :
    Adds envelope
      (match message.lookup "price_changes" with
        | some (.array (change :: _)) =>
          match parser.readUpdate envelope message index 0 rawReference change with
          | .error _ => none
          | .ok (update, _) => some ⟨.changes, update.exchangeTimestampNs⟩
        | _ => none)
      (parser.parsePriceChange envelope message index rawReference start).1.result := by
  unfold parsePriceChange
  rcases message.lookup "price_changes" with _ | value
  · exact fresh
  cases value with
  | array changes =>
    cases changes with
    | nil => exact fresh
    | cons change rest =>
      dsimp only
      rw [List.zipIdx_cons]
      cases read : parser.readUpdate envelope message index 0 rawReference change with
      | error e =>
        unfold parseChanges
        simp only [read]
        exact fresh
      | ok found =>
        obtain ⟨_, _, _, _, time, _⟩ := readUpdate_spec read
        obtain ⟨added, updates, snapshots, stamped, indices⟩ := parseChanges_updates message index
          ((change, 0) :: rest.zipIdx (0 + 1)) start time
        have more := parseChanges_first message index (change, 0) (rest.zipIdx (0 + 1)) start read
        rw [fresh.2, List.nil_append] at updates
        rw [updates, fresh.2] at more
        refine .changes (snapshots.trans fresh.1) (by rw [updates]; exact List.ne_nil_of_length_pos more)
          ?_ (by rwa [updates])
        rw [← List.zipIdx_cons, List.zipIdx_map_snd, ← List.range_eq_range', List.take_range]
          at indices
        have bound : added.length ≤ (change :: rest).length := by
          simpa using congrArg List.length indices
        rw [updates, indices, min_eq_left bound]
  | _ => exact fresh

/-- A message adds the events that its head says. -/
theorem parseClobMessage_adds (message : Members) (index : ℕ) (start : ParserState)
    (fresh : Silent start.result) :
    Adds envelope
      (parser.messageHead envelope rawReference start.tickSizeByToken (.object message, index))
      (parser.parseClobMessage envelope message (parser.library.textOr message "event_type" "unknown")
        index rawReference start).1.result := by
  unfold parseClobMessage messageHead
  dsimp only
  generalize parser.library.textOr message "event_type" "unknown" = eventType
  split
  · unfold parseBook
    cases parser.readBookHead start.tickSizeByToken message with
    | error e => exact fresh
    | ok head =>
      dsimp only
      cases read : parser.readSnapshot envelope message index rawReference head.1 head.2.1
          head.2.2 with
      | error e => exact fresh
      | ok snapshot =>
        refine .book snapshot ?_ fresh.2 (readSnapshot_stamped read)
        simp [addSnapshot, setTickSize, fresh.1]
  · exact parsePriceChange_adds message index start fresh
  next book changes =>
    split
    · exact absurd rfl book
    · exact absurd rfl changes
    · unfold parseTrade
      split
      · exact fresh
      split
      · exact fresh
      · next warning _ => cases warning <;> dsimp only [Option.elim] <;> split <;> exact fresh
    · unfold parseTickSizeChange
      split <;> exact fresh
    · unfold parseResolution
      dsimp only
      split
      · exact fresh
      split
      · exact fresh
      split <;> exact fresh
    · unfold parseBestBidAsk
      split <;> exact fresh
    · exact fresh
    · exact fresh

theorem parseMessage_adds (ticks : String → Option ℤ) (entry : JsonValue × ℕ) {alone : ParserState}
    (parsed : parser.parseMessage envelope rawReference ⟨ticks, {}⟩ entry = .ok alone) :
    Adds envelope (parser.messageHead envelope rawReference ticks entry) alone.result := by
  rcases entry with ⟨value, index⟩
  cases value with
  | object message =>
    have adds : Adds envelope _ _ := @parseClobMessage_adds parser envelope rawReference message index
      (addEventType ⟨ticks, {}⟩ (parser.library.textOr message "event_type" "unknown")) ⟨rfl, rfl⟩
    unfold parseMessage at parsed
    dsimp only at parsed
    generalize parser.parseClobMessage envelope message
      (parser.library.textOr message "event_type" "unknown") index rawReference
      (addEventType ⟨ticks, {}⟩ (parser.library.textOr message "event_type" "unknown")) = run
      at parsed adds
    rcases run with ⟨final, e | done⟩
    · dsimp only at parsed
      split at parsed
      · cases parsed
        exact adds.congr rfl rfl
      · cases parsed
    · cases parsed
      exact adds
  | _ =>
    cases parsed
    exact ⟨rfl, rfl⟩

/-! ## What a frame adds -/

/-- The parts of a frame and the heads of its messages that yield. -/
inductive FrameAdds (envelope : RawEnvelope) : List MessageHead → List ParsedEvents → Prop
  | nil : FrameAdds envelope [] []
  | cons {head : Option MessageHead} {part : ParsedEvents} {heads : List MessageHead}
      {parts : List ParsedEvents} (adds : Adds envelope head part)
      (rest : FrameAdds envelope heads parts) :
      FrameAdds envelope (head.toList ++ heads) (part :: parts)

theorem contributions_add {ticks : String → Option ℤ} {entries : List (JsonValue × ℕ)}
    {parts : List ParsedEvents}
    (parsed : parser.contributions envelope rawReference ticks entries = .ok parts) :
    FrameAdds envelope (parser.frameHeads envelope rawReference ticks entries) parts := by
  induction entries generalizing ticks parts with
  | nil =>
    cases parsed
    exact .nil
  | cons entry rest ih =>
    unfold contributions at parsed
    simp only [Except.bind_eq_ok, Except.pure_eq_ok] at parsed
    obtain ⟨alone, ran, later, others, rfl⟩ := parsed
    rw [remember_eq _ entry ran] at others
    exact .cons (parseMessage_adds ticks entry ran) (ih others)

/-- The result of a frame is the contributions of its messages one after another. -/
theorem foldlM_contributions {entries : List (JsonValue × ℕ)} {state final : ParserState}
    (parsed : entries.foldlM (parser.parseMessage envelope rawReference) state = .ok final) :
    ∃ parts, parser.contributions envelope rawReference state.tickSizeByToken entries = .ok parts ∧
      final.result.snapshots = state.result.snapshots ++ parts.flatMap ParsedEvents.snapshots ∧
      final.result.updates = state.result.updates ++ parts.flatMap ParsedEvents.updates := by
  induction entries generalizing state with
  | nil =>
    cases parsed
    exact ⟨[], rfl, by simp, by simp⟩
  | cons entry rest ih =>
    rw [List.foldlM_cons, Except.bind_eq_ok] at parsed
    obtain ⟨next, ran, later⟩ := parsed
    have behind : parser.parseMessage envelope rawReference state entry =
        ParserState.behind state.result <$>
          parser.parseMessage envelope rawReference ⟨state.tickSizeByToken, {}⟩ entry := by
      rw [← parseMessage_behind, behind_empty]
    rw [behind, Except.map_eq_ok] at ran
    obtain ⟨alone, own, rfl⟩ := ran
    obtain ⟨parts, others, snapshots, updates⟩ := ih later
    refine ⟨alone.result :: parts, ?_, ?_, ?_⟩
    · unfold contributions
      simp only [Except.bind_eq_ok, Except.pure_eq_ok]
      exact ⟨alone, own, parts, others, rfl⟩
    · rw [snapshots, List.flatMap_cons, ← List.append_assoc]
      rfl
    · rw [updates, List.flatMap_cons, ← List.append_assoc]
      rfl

/-! ## Ranks -/

namespace MessageHead

def priority (head : MessageHead) : ℕ :=
  match head.kind with
  | .book => 10
  | .changes => 20

def rank (head : MessageHead) : ℕ :=
  match head.kind with
  | .book => 0
  | .changes => 2

/-- The replay time of the events of the message. -/
def timeAt (head : MessageHead) (envelope : RawEnvelope) : ReplayClockMode → ℤ
  | .localReceiveTime => envelope.receivedUtcNs
  | .exchangeTime => head.exchangeTimestampNs.getD 0

end MessageHead

/-- The event is one that a message with the head yields. -/
structure Ranked (envelope : RawEnvelope) (head : MessageHead) (event : ReplayEvent) : Prop where
  stamped : Stamped envelope head.exchangeTimestampNs event
  sourcePriority : event.sourcePriority = head.priority
  tapeKind : tapeKind event.payload = head.rank
  alone : head.kind = .book → event.parentChangeIndex = 0

theorem Ranked.timeAt {head : MessageHead} {event : ReplayEvent}
    (ranked : Ranked envelope head event) (mode : ReplayClockMode) :
    event.timeAt mode = head.timeAt envelope mode := by
  cases mode with
  | localReceiveTime => exact ranked.stamped.receivedUtcNs
  | exchangeTime =>
    exact congrArg (fun stamp : Option ℤ => stamp.getD 0) ranked.stamped.exchangeTimestampNs

theorem Ranked.sameReceipt {earlier later : MessageHead} {first second : ReplayEvent}
    (firstRanked : Ranked envelope earlier first) (secondRanked : Ranked envelope later second) :
    SameReceipt first second where
  receivedUtcNs := firstRanked.stamped.receivedUtcNs.trans secondRanked.stamped.receivedUtcNs.symm
  connectionId := firstRanked.stamped.connectionId.trans secondRanked.stamped.connectionId.symm
  sequence := firstRanked.stamped.sequence.trans secondRanked.stamped.sequence.symm

theorem Yields.ranked {head : MessageHead} {part : ParsedEvents} (yields : Yields envelope head part) :
    ∀ event ∈ part.bookEvents, Ranked envelope head event := by
  intro event member
  unfold ParsedEvents.bookEvents at member
  cases yields with
  | book snapshot snapshots updates stamped =>
    rw [snapshots, updates] at member
    obtain rfl := List.mem_singleton.mp member
    exact ⟨stamped, rfl, rfl, fun _ => rfl⟩
  | changes snapshots _ _ stamped =>
    rw [snapshots, List.map_nil, List.nil_append] at member
    obtain ⟨update, own, rfl⟩ := List.mem_map.mp member
    exact ⟨stamped update own, rfl, rfl, fun book => nomatch book⟩

theorem Yields.exists_event {head : MessageHead} {part : ParsedEvents}
    (yields : Yields envelope head part) : ∃ event, event ∈ part.bookEvents := by
  unfold ParsedEvents.bookEvents
  cases yields with
  | book snapshot snapshots updates _ => exact ⟨_, by rw [snapshots]; exact List.mem_cons_self⟩
  | changes snapshots more _ _ =>
    obtain ⟨update, own⟩ := List.exists_mem_of_ne_nil _ more
    exact ⟨_, List.mem_append_right _ (List.mem_map_of_mem own)⟩

/-- The change indices of one message increase. -/
theorem Yields.indices {head : MessageHead} {part : ParsedEvents}
    (yields : Yields envelope head part) :
    part.bookEvents.Pairwise fun first second =>
      first.parentChangeIndex < second.parentChangeIndex := by
  unfold ParsedEvents.bookEvents
  cases yields with
  | book snapshot snapshots updates _ =>
    rw [snapshots, updates]
    exact List.pairwise_singleton _ _
  | changes snapshots _ numbered _ =>
    rw [snapshots, List.map_nil, List.nil_append, List.pairwise_map]
    have increasing := List.pairwise_lt_range (n := part.updates.length)
    rwa [← numbered, List.pairwise_map] at increasing

/-- The first level change of a message has the index zero. -/
theorem Yields.exists_first {head : MessageHead} {part : ParsedEvents}
    (yields : Yields envelope head part) (changes : head.kind = .changes) :
    ∃ update ∈ part.updates, update.changeIndex = 0 ∧ Ranked envelope head update.replayEvent := by
  have ranked := yields.ranked
  unfold ParsedEvents.bookEvents at ranked
  cases yields with
  | book => cases changes
  | changes snapshots more numbered stamped =>
    cases listed : part.updates with
    | nil => exact absurd listed more
    | cons update rest =>
      rw [listed, List.length_cons, List.range_succ_eq_map, List.map_cons, List.cons.injEq]
        at numbered
      exact ⟨update, List.mem_cons_self, numbered.1, ranked _ (List.mem_append_right _
        (List.mem_map_of_mem (by rw [listed]; exact List.mem_cons_self)))⟩

namespace FrameAdds

variable {heads : List MessageHead} {parts : List ParsedEvents}

theorem ranked (frame : FrameAdds envelope heads parts) :
    ∀ event ∈ parts.flatMap ParsedEvents.bookEvents, ∃ head ∈ heads, Ranked envelope head event := by
  induction frame with
  | nil => simp
  | @cons head part heads parts adds rest ih =>
    intro event member
    rw [List.flatMap_cons, List.mem_append] at member
    rcases member with own | later
    · cases head with
      | none =>
        rw [ParsedEvents.bookEvents, adds.1, adds.2] at own
        cases own
      | some head => exact ⟨head, List.mem_cons_self, adds.ranked event own⟩
    · obtain ⟨other, known, stamped⟩ := ih event later
      exact ⟨other, List.mem_append_right _ known, stamped⟩

theorem exists_event (frame : FrameAdds envelope heads parts) :
    ∀ head ∈ heads, ∃ event ∈ parts.flatMap ParsedEvents.bookEvents, Ranked envelope head event := by
  induction frame with
  | nil => simp
  | @cons head part heads parts adds rest ih =>
    intro other member
    rw [List.flatMap_cons]
    rcases List.mem_append.mp member with own | later
    · cases head with
      | none => cases own
      | some head =>
        obtain rfl := List.mem_singleton.mp own
        obtain ⟨event, found⟩ := adds.exists_event
        exact ⟨event, List.mem_append_left _ found, adds.ranked event found⟩
    · obtain ⟨event, found, stamped⟩ := ih other later
      exact ⟨event, List.mem_append_right _ found, stamped⟩

theorem exists_first (frame : FrameAdds envelope heads parts) :
    ∀ head ∈ heads, head.kind = .changes → ∃ update ∈ parts.flatMap ParsedEvents.updates,
      update.changeIndex = 0 ∧ Ranked envelope head update.replayEvent := by
  induction frame with
  | nil => simp
  | @cons head part heads parts adds rest ih =>
    intro other member changes
    rw [List.flatMap_cons]
    rcases List.mem_append.mp member with own | later
    · cases head with
      | none => cases own
      | some head =>
        obtain rfl := List.mem_singleton.mp own
        obtain ⟨update, found, first⟩ := adds.exists_first changes
        exact ⟨update, List.mem_append_left _ found, first⟩
    · obtain ⟨update, found, first⟩ := ih other later changes
      exact ⟨update, List.mem_append_right _ found, first⟩

/-- A relation holds along a frame if it holds along every message and between any two. -/
theorem pairwise {related : ReplayEvent → ReplayEvent → Prop}
    {ordered : MessageHead → MessageHead → Prop} (frame : FrameAdds envelope heads parts)
    (within : ∀ head part, Yields envelope head part → part.bookEvents.Pairwise related)
    (across : ∀ earlier later first second, ordered earlier later → Ranked envelope earlier first →
      Ranked envelope later second → related first second)
    (inOrder : heads.Pairwise ordered) :
    (parts.flatMap ParsedEvents.bookEvents).Pairwise related := by
  induction frame with
  | nil => exact List.Pairwise.nil
  | @cons head part heads parts adds rest ih =>
    rw [List.flatMap_cons]
    cases head with
    | none =>
      rw [ParsedEvents.bookEvents, adds.1, adds.2]
      exact ih inOrder
    | some head =>
      obtain ⟨least, later⟩ := List.pairwise_cons.mp inOrder
      refine List.pairwise_append.mpr ⟨within head part adds, ih later, ?_⟩
      intro first own second member
      obtain ⟨other, known, stamped⟩ := rest.ranked second member
      exact across head other first second (least other known) (adds.ranked first own) stamped

/-- A relation along a frame's events holds along its messages. -/
theorem pairwise_heads {related : ReplayEvent → ReplayEvent → Prop}
    {ordered : MessageHead → MessageHead → Prop} (frame : FrameAdds envelope heads parts)
    (across : ∀ earlier later first second, related first second → Ranked envelope earlier first →
      Ranked envelope later second → ordered earlier later)
    (inOrder : (parts.flatMap ParsedEvents.bookEvents).Pairwise related) :
    heads.Pairwise ordered := by
  induction frame with
  | nil => exact List.Pairwise.nil
  | @cons head part heads parts adds rest ih =>
    rw [List.flatMap_cons] at inOrder
    obtain ⟨_, others, cross⟩ := List.pairwise_append.mp inOrder
    cases head with
    | none => exact ih others
    | some head =>
      refine List.pairwise_cons.mpr ⟨fun other known => ?_, ih others⟩
      obtain ⟨first, own⟩ := adds.exists_event
      obtain ⟨second, member, stamped⟩ := rest.exists_event other known
      exact across head other first second (cross first own second member) (adds.ranked first own)
        stamped

/-- Two price changes of a frame give their first changes one key. -/
theorem changes_once (frame : FrameAdds envelope heads parts)
    (distinct : (parts.flatMap ParsedEvents.updates).Pairwise fun first second =>
      tapeOrderKey first.replayEvent ≠ tapeOrderKey second.replayEvent) :
    heads.Pairwise fun earlier later => ¬ (earlier.kind = .changes ∧ later.kind = .changes) := by
  induction frame with
  | nil => exact List.Pairwise.nil
  | @cons head part heads parts adds rest ih =>
    rw [List.flatMap_cons] at distinct
    obtain ⟨_, others, cross⟩ := List.pairwise_append.mp distinct
    cases head with
    | none => exact ih others
    | some head =>
      refine List.pairwise_cons.mpr ⟨fun other known both => ?_, ih others⟩
      obtain ⟨first, own, firstIndex, firstRanked⟩ := adds.exists_first both.1
      obtain ⟨second, member, secondIndex, secondRanked⟩ := rest.exists_first other known both.2
      have same := firstRanked.sameReceipt secondRanked
      have indices : first.replayEvent.parentChangeIndex = second.replayEvent.parentChangeIndex :=
        firstIndex.trans secondIndex.symm
      exact cross first own second member (le_antisymm
        (same.tapeOrderKey_le_iff.mpr (.inr ⟨rfl, indices.le⟩))
        ((secondRanked.sameReceipt firstRanked).tapeOrderKey_le_iff.mpr
          (.inr ⟨rfl, indices.ge⟩)))

/-- With books before the last message the frame's datasets are already in message order. -/
theorem bookEvents_eq (frame : FrameAdds envelope heads parts)
    (books : heads.Pairwise fun earlier _ => earlier.kind = .book) :
    (parts.flatMap ParsedEvents.snapshots).map ParsedSnapshot.replayEvent ++
        (parts.flatMap ParsedEvents.updates).map ParsedChange.replayEvent =
      parts.flatMap ParsedEvents.bookEvents := by
  induction frame with
  | nil => rfl
  | @cons head part heads parts adds rest ih =>
    simp only [List.flatMap_cons, List.map_append]
    cases head with
    | none =>
      rw [← ih books, ParsedEvents.bookEvents, adds.1, adds.2]
      rfl
    | some head =>
      obtain ⟨least, later⟩ := List.pairwise_cons.mp books
      rw [← ih later, ParsedEvents.bookEvents]
      cases adds with
      | book snapshot _ updates _ => simp [updates]
      | changes snapshots _ _ _ =>
        -- nothing can follow a price change
        cases heads with
        | cons other _ => exact absurd (least other List.mem_cons_self) (by simp)
        | nil =>
          have none : parts.flatMap ParsedEvents.snapshots = [] :=
            List.eq_nil_iff_forall_not_mem.mpr fun snapshot member => by
              obtain ⟨other, inParts, own⟩ := List.mem_flatMap.mp member
              obtain ⟨head, known, _⟩ := rest.ranked snapshot.replayEvent (List.mem_flatMap.mpr
                ⟨other, inParts, List.mem_append_left _ (List.mem_map_of_mem own)⟩)
              cases known
          simp [snapshots, none]

end FrameAdds

/-! ## Sorted frames -/

theorem FrameOrdered.times {mode : ReplayClockMode} {heads : List MessageHead}
    (ordered : FrameOrdered mode heads) :
    heads.Pairwise fun earlier later => earlier.timeAt envelope mode ≤ later.timeAt envelope mode := by
  cases mode with
  | localReceiveTime => exact List.pairwise_of_forall fun _ _ => le_rfl
  | exchangeTime =>
    obtain ⟨stamps, known, increasing⟩ := ordered.2 rfl
    have same : heads.map (fun head => head.timeAt envelope .exchangeTime) = stamps := by
      have stamped := congrArg (List.map fun stamp : Option ℤ => stamp.getD 0) known
      rw [List.map_map, List.map_map] at stamped
      exact stamped.trans (List.map_id _)
    rwa [← same, List.pairwise_map] at increasing

theorem Yields.eventKey_inOrder {head : MessageHead} {part : ParsedEvents}
    (yields : Yields envelope head part) (mode : ReplayClockMode) :
    InOrder (eventKey mode) part.bookEvents := by
  refine yields.indices.imp_of_mem fun {first second} own other increasing => ?_
  have firstRanked := yields.ranked first own
  have secondRanked := yields.ranked second other
  refine (firstRanked.sameReceipt secondRanked).eventKey_le_iff.mpr (.inr ⟨?_, .inr ⟨?_, ?_⟩⟩)
  · rw [firstRanked.timeAt, secondRanked.timeAt]
  · rw [firstRanked.sourcePriority, secondRanked.sourcePriority]
  · exact increasing.le

theorem Yields.tapeOrderKey_inOrder {head : MessageHead} {part : ParsedEvents}
    (yields : Yields envelope head part) : InOrder tapeOrderKey part.bookEvents := by
  refine yields.indices.imp_of_mem fun {first second} own other increasing => ?_
  have firstRanked := yields.ranked first own
  have secondRanked := yields.ranked second other
  refine (firstRanked.sameReceipt secondRanked).tapeOrderKey_le_iff.mpr (.inr ⟨?_, increasing.le⟩)
  rw [firstRanked.tapeKind, secondRanked.tapeKind]

/-- The events of a book sort before those of a later message that is not of an earlier time. -/
theorem Ranked.eventKey_le {earlier later : MessageHead} {first second : ReplayEvent}
    (firstRanked : Ranked envelope earlier first) (secondRanked : Ranked envelope later second)
    {mode : ReplayClockMode} (book : earlier.kind = .book)
    (time : earlier.timeAt envelope mode ≤ later.timeAt envelope mode) :
    eventKey mode first ≤ eventKey mode second := by
  rw [(firstRanked.sameReceipt secondRanked).eventKey_le_iff, firstRanked.timeAt,
    secondRanked.timeAt, firstRanked.sourcePriority, secondRanked.sourcePriority,
    firstRanked.alone book]
  have priority : earlier.priority ≤ later.priority := by
    unfold MessageHead.priority
    rw [book]
    cases later.kind <;> decide
  omega

theorem Ranked.tapeOrderKey_le {earlier later : MessageHead} {first second : ReplayEvent}
    (firstRanked : Ranked envelope earlier first) (secondRanked : Ranked envelope later second)
    (book : earlier.kind = .book) : tapeOrderKey first ≤ tapeOrderKey second := by
  rw [(firstRanked.sameReceipt secondRanked).tapeOrderKey_le_iff, firstRanked.tapeKind,
    secondRanked.tapeKind, firstRanked.alone book]
  have rank : earlier.rank ≤ later.rank := by
    unfold MessageHead.rank
    rw [book]
    cases later.kind <;> decide
  omega

theorem parentChangeIndex_of_eventKey {mode : ReplayClockMode} {first second : ReplayEvent}
    (same : eventKey mode first = eventKey mode second) :
    first.parentChangeIndex = second.parentChangeIndex := by
  simp only [eventKey, eventKeyAt, toLex_inj, Prod.mk.injEq] at same
  exact same.2.2.2.2.2

theorem parentChangeIndex_of_tapeOrderKey {first second : ReplayEvent}
    (same : tapeOrderKey first = tapeOrderKey second) :
    first.parentChangeIndex = second.parentChangeIndex := by
  simp only [tapeOrderKey, toLex_inj, Prod.mk.injEq] at same
  exact same.2.2.2

namespace FrameAdds

variable {heads : List MessageHead} {parts : List ParsedEvents}

theorem timed_iff (frame : FrameAdds envelope heads parts) {mode : ReplayClockMode} :
    (∀ event ∈ parts.flatMap ParsedEvents.bookEvents, event.Timed mode) ↔
      (mode = .exchangeTime → ∀ head ∈ heads, head.exchangeTimestampNs.isSome) := by
  constructor
  · intro timed exchange head known
    obtain ⟨event, member, ranked⟩ := frame.exists_event head known
    rw [← ranked.stamped.exchangeTimestampNs]
    exact timed event member exchange
  · intro stamped event member exchange
    obtain ⟨head, known, ranked⟩ := frame.ranked event member
    rw [ranked.stamped.exchangeTimestampNs]
    exact stamped exchange head known

/-- The sorted frame is in message order, with distinct keys, exactly for ordered messages. -/
theorem inOrder_iff (frame : FrameAdds envelope heads parts) {mode : ReplayClockMode}
    {events : List ReplayEvent}
    (listed : events = (parts.flatMap ParsedEvents.snapshots).map ParsedSnapshot.replayEvent ++
      (parts.flatMap ParsedEvents.updates).map ParsedChange.replayEvent) :
    (mergeEvents events mode = .ok (parts.flatMap ParsedEvents.bookEvents) ∧
      iterBookEvents events = parts.flatMap ParsedEvents.bookEvents ∧
      ((parts.flatMap ParsedEvents.updates).map ParsedChange.replayEvent).Pairwise
        fun first second => deterministicEventKey first mode ≠ deterministicEventKey second mode ∧
          tapeOrderKey first ≠ tapeOrderKey second) ↔
      FrameOrdered mode heads := by
  constructor
  · rintro ⟨merged, taped, distinct⟩
    rw [mergeEvents_eq_ok_iff] at merged
    have keys : InOrder (eventKey mode) (parts.flatMap ParsedEvents.bookEvents) := by
      rw [merged.2]
      exact StableSort.sortByKey_inOrder _ _
    have tape : InOrder tapeOrderKey (parts.flatMap ParsedEvents.bookEvents) := by
      rw [← taped]
      exact StableSort.sortByKey_inOrder _ _
    rw [List.pairwise_map] at distinct
    have once := frame.changes_once (distinct.imp And.right)
    have ranks : heads.Pairwise fun earlier later => earlier.rank ≤ later.rank :=
      frame.pairwise_heads (fun earlier later first second le firstRanked secondRanked => by
        rw [(firstRanked.sameReceipt secondRanked).tapeOrderKey_le_iff, firstRanked.tapeKind,
          secondRanked.tapeKind] at le
        omega) tape
    refine ⟨(once.and ranks).imp fun {earlier later} both => ?_, fun exchange => ?_⟩
    · -- a price change is followed by nothing of a lower rank and by no other price change
      obtain ⟨single, le⟩ := both
      unfold MessageHead.rank at le
      cases first : earlier.kind with
      | book => rfl
      | changes =>
        cases second : later.kind with
        | book => simp [first, second] at le
        | changes => exact absurd ⟨first, second⟩ single
    · have timed : ∀ event ∈ parts.flatMap ParsedEvents.bookEvents, event.Timed mode := by
        intro event member
        rw [merged.2, StableSort.mem_sortByKey] at member
        exact merged.1 event member
      have present := frame.timed_iff.mp timed exchange
      refine ⟨heads.map fun head => head.exchangeTimestampNs.getD 0, ?_, ?_⟩
      · rw [List.map_map]
        refine List.map_congr_left fun head known => ?_
        obtain ⟨stamp, found⟩ := Option.isSome_iff_exists.mp (present head known)
        simp [found]
      · rw [List.pairwise_map]
        refine frame.pairwise_heads (fun earlier later first second le firstRanked
          secondRanked => ?_) keys
        rw [(firstRanked.sameReceipt secondRanked).eventKey_le_iff, firstRanked.timeAt,
          secondRanked.timeAt, exchange] at le
        exact le.elim le_of_lt fun equal => equal.1.le
  · intro ordered
    have books := ordered.1
    have same : events = parts.flatMap ParsedEvents.bookEvents :=
      listed.trans (frame.bookEvents_eq books)
    have timed : ∀ event ∈ parts.flatMap ParsedEvents.bookEvents, event.Timed mode := by
      refine frame.timed_iff.mpr fun exchange head known => ?_
      obtain ⟨stamps, stamped, _⟩ := ordered.2 exchange
      have member : head.exchangeTimestampNs ∈ stamps.map some := by
        rw [← stamped]
        exact List.mem_map_of_mem known
      obtain ⟨stamp, _, found⟩ := List.mem_map.mp member
      rw [← found]
      rfl
    have keys : InOrder (eventKey mode) (parts.flatMap ParsedEvents.bookEvents) :=
      frame.pairwise (fun head part yields => yields.eventKey_inOrder mode)
        (fun _ _ _ _ both firstRanked secondRanked =>
          firstRanked.eventKey_le secondRanked both.1 both.2)
        (books.and ordered.times)
    have tape : InOrder tapeOrderKey (parts.flatMap ParsedEvents.bookEvents) :=
      frame.pairwise (fun head part yields => yields.tapeOrderKey_inOrder)
        (fun _ _ _ _ book firstRanked secondRanked => firstRanked.tapeOrderKey_le secondRanked book)
        books
    have indices : (parts.flatMap ParsedEvents.bookEvents).Pairwise fun first second =>
        first.sourcePriority = 20 → first.parentChangeIndex ≠ second.parentChangeIndex :=
      frame.pairwise (fun head part yields => yields.indices.imp fun less _ => less.ne)
        (fun earlier later first second book firstRanked _ twenty => by
          have ten := firstRanked.sourcePriority
          rw [twenty, MessageHead.priority, book] at ten
          exact absurd ten (by decide)) books
    rw [same]
    refine ⟨mergeEvents_eq_ok_iff.mpr ⟨timed, (sortByKey_eq_self_iff.mpr keys).symm⟩,
      sortByKey_eq_self_iff.mpr tape, ?_⟩
    rw [← same, listed, List.pairwise_append] at indices
    refine indices.2.1.imp_of_mem fun {first second} own _ different => ?_
    have isTimed : first.Timed mode := by
      refine timed first ?_
      rw [← same, listed]
      exact List.mem_append_right _ own
    obtain ⟨update, _, rfl⟩ := List.mem_map.mp own
    refine ⟨fun equal => different rfl ?_, fun equal =>
      different rfl (parentChangeIndex_of_tapeOrderKey equal)⟩
    have known := deterministicEventKey_eq_ok_iff.mpr ⟨isTimed, rfl⟩
    rw [equal, deterministicEventKey_eq_ok_iff] at known
    exact parentChangeIndex_of_eventKey known.2.symm

end FrameAdds

/-- A price change of one token on the bid side. -/
def bidChanges (levels : List (String × String)) : JsonValue :=
  .object [("event_type", .text "price_change"), ("market", .text "0x0f"),
    ("timestamp", .text "1700000000000"),
    ("price_changes", .array (levels.map fun level =>
      .object [("asset_id", .text "17"), ("price", .text level.1), ("size", .text level.2),
        ("side", .text "BUY")]))]

/-- The libraries as they behave on frames of such messages. -/
def bidParser (payload : JsonValue) : EventParser where
  library := {
    loads := fun _ => .ok payload
    render := fun _ => ""
    repr := fun
      | .text key => s!"'{key}'"
      | _ => ""
    decimal := fun
      | "0.47" => some (.finite (47 / 100))
      | "0.48" => some (.finite (48 / 100))
      | "0" => some (.finite 0)
      | "5" => some (.finite 5)
      | "100" => some (.finite 100)
      | "1700000000000" => some (.finite 1700000000000)
      | _ => none
    looksNumeric := fun text => text = "1700000000000"
    isoparse := fun _ => .error ⟨.valueError, "ISO string too short"⟩
    upper := fun text => text.map Char.toUpper
    uuid5 := fun _ => "d4b8f1e0-291c-5708-8f8b-1846235ffdc0" }
  marketForToken := halfChangeParser.marketForToken

def bidEnvelope (payloadRaw : String) : RawEnvelope :=
  { halfChangeEnvelope with payloadRaw := payloadRaw }

/-- The level at 0.48 is set by the first message and removed by the second. -/
def twoChanges : JsonValue :=
  .array [bidChanges [("0.47", "5"), ("0.48", "100")], bidChanges [("0.48", "0")]]

def twoChangesEnvelope : RawEnvelope := bidEnvelope <|
  "[\x7b\"event_type\":\"price_change\",\"market\":\"0x0f\",\"timestamp\":\"1700000000000\"," ++
    "\"price_changes\":[\x7b\"asset_id\":\"17\",\"price\":\"0.47\",\"size\":\"5\",\"side\":\"BUY\"\x7d," ++
    "\x7b\"asset_id\":\"17\",\"price\":\"0.48\",\"size\":\"100\",\"side\":\"BUY\"\x7d]\x7d," ++
    "\x7b\"event_type\":\"price_change\",\"market\":\"0x0f\",\"timestamp\":\"1700000000000\"," ++
    "\"price_changes\":[\x7b\"asset_id\":\"17\",\"price\":\"0.48\",\"size\":\"0\",\"side\":\"BUY\"\x7d]\x7d]"

/-- The first of these messages alone. -/
def oneChange : JsonValue := bidChanges [("0.47", "5"), ("0.48", "100")]

def oneChangeEnvelope : RawEnvelope := bidEnvelope <|
  "\x7b\"event_type\":\"price_change\",\"market\":\"0x0f\",\"timestamp\":\"1700000000000\"," ++
    "\"price_changes\":[\x7b\"asset_id\":\"17\",\"price\":\"0.47\",\"size\":\"5\",\"side\":\"BUY\"\x7d," ++
    "\x7b\"asset_id\":\"17\",\"price\":\"0.48\",\"size\":\"100\",\"side\":\"BUY\"\x7d]\x7d"

end EventParser

end PolymarketBt
