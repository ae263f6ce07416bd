import PolymarketBt.Proofs.Parser

/-! # Isolation of malformed messages

A message that cannot be read should cost one count and one quality record and nothing else. The
parser adds effects while it reads, and some exceptions pass its guards, so isolation holds exactly
for the payloads whose messages fail before their first effect with an exception that is caught.
-/

namespace PolymarketBt

namespace EventParser

open JsonValue ParserState

variable (parser : EventParser) (envelope : RawEnvelope) (rawReference : String)

/-! ## What isolation demands -/

/-- The contribution of a message counted as invalid: the count, one error record, and no event. -/
def invalidEvents (record : DataQualityEvent) (eventTypes : List String) : ParsedEvents :=
  { quality := [record]
    eventTypes := eventTypes
    invalidCount := 1 }

/-- A step that adds the events the message yields alone, or that counts it as invalid. -/
def IsolatedStep (before : ParserState) (entry : JsonValue × ℕ) (after : ParserState) : Prop :=
  (∃ alone, parser.parseMessage envelope rawReference ⟨before.tickSizeByToken, {}⟩ entry = .ok alone ∧
    alone.result.invalidCount = 0 ∧ after = alone.behind before.result) ∨
  ∃ record eventTypes, record.severity = .error ∧
    after = ⟨before.tickSizeByToken, before.result ++ invalidEvents record eventTypes⟩

/-- A run over the messages of a frame whose every step is isolated. -/
def IsolatedRun : ParserState → List (JsonValue × ℕ) → ParserState → Prop
  | before, [], after => after = before
  | before, entry :: rest, after => ∃ next,
    parser.parseMessage envelope rawReference before entry = .ok next ∧
      parser.IsolatedStep envelope rawReference before entry next ∧ IsolatedRun next rest after

/-- One value parsed alone: it is valid, or counted as invalid and without effect. -/
def IsolatedResult (tickSizeByToken : String → Option ℤ) (final : ParserState) : Prop :=
  final.result.invalidCount = 0 ∨ ∃ record eventTypes, record.severity = .error ∧
    final = ⟨tickSizeByToken, invalidEvents record eventTypes⟩

/-! ## Messages that read, or fail before any effect -/

/-- The tick size is set between the two reads. -/
def BookReadable (message : Members) (messageIndex : ℕ) (tickSizeByToken : String → Option ℤ) :
    Prop :=
  match parser.readBookHead tickSizeByToken message with
  | .error e => catchesMessage e
  | .ok (tokenId, market, tickSizeScaled) =>
    ∀ e, parser.readSnapshot envelope message messageIndex rawReference tokenId market
        tickSizeScaled = .error e →
      catchesMessage e ∧ tickSizeByToken tokenId = some tickSizeScaled

/-- Each change is added as soon as it is read. -/
def ChangesReadable (message : Members) (messageIndex : ℕ) : List (JsonValue × ℕ) → Prop
  | [] => True
  | (change, changeIndex) :: rest =>
    match parser.readUpdate envelope message messageIndex changeIndex rawReference change with
    | .error e => catchesMessage e
    | .ok _ => ∀ later ∈ rest, ∃ read,
      parser.readUpdate envelope message messageIndex later.2 rawReference later.1 = .ok read

def PriceChangeReadable (message : Members) (messageIndex : ℕ) : Prop :=
  ∀ changes, message.lookup "price_changes" = some (.array changes) →
    parser.ChangesReadable envelope rawReference message messageIndex changes.zipIdx

/-- The warning about the notional is added between the two reads. -/
def TradeReadable (message : Members) (messageIndex : ℕ) : Prop :=
  match parser.readTradeHead message with
  | .error e => catchesMessage e
  | .ok (tokenId, market, priceScaled, sizeScaled, rawPrice) =>
    match parser.readNotional envelope message rawPrice sizeScaled with
    | .error e => catchesMessage e
    | .ok (notionalScaled, warning) =>
      ∀ e, parser.readTrade envelope message messageIndex rawReference tokenId market priceScaled
          sizeScaled notionalScaled = .error e →
        catchesMessage e ∧ warning = none

def TickSizeChangeReadable (message : Members) (messageIndex : ℕ) : Prop :=
  ∀ e, parser.readTickSizeChange envelope message messageIndex rawReference = .error e →
    catchesMessage e

def ResolutionReadable (message : Members) : Prop :=
  let conditionId := parser.library.textOr message "market"
    (parser.library.textOr message "condition_id" "")
  let winningTokenId := parser.library.textOr message "winning_asset_id" ""
  ∀ e, parser.readResolution envelope message rawReference conditionId winningTokenId
      (parser.marketForToken winningTokenId) = .error e →
    conditionId = "" ∨ winningTokenId = "" ∨
      ((parser.marketForToken winningTokenId).any fun market => market.conditionId ≠ conditionId) ∨
      catchesMessage e

def BestBidAskReadable (message : Members) : Prop :=
  ∀ e, parser.readBestBidAsk envelope message = .error e → catchesMessage e

/-- The message reads completely, or fails before it has an effect with an exception that the
parser catches. -/
def MessageReadable (tickSizeByToken : String → Option ℤ) : JsonValue × ℕ → Prop
  | (.object message, index) =>
    match parser.library.textOr message "event_type" "unknown" with
    | "book" => parser.BookReadable envelope rawReference message index tickSizeByToken
    | "price_change" => parser.PriceChangeReadable envelope rawReference message index
    | "last_trade_price" => parser.TradeReadable envelope rawReference message index
    | "tick_size_change" => parser.TickSizeChangeReadable envelope rawReference message index
    | "market_resolved" => parser.ResolutionReadable envelope rawReference message
    | "best_bid_ask" => parser.BestBidAskReadable envelope message
    | _ => True
  | _ => True

/-- The tick sizes remembered after a message. -/
def remember (tickSizeByToken : String → Option ℤ) : JsonValue × ℕ → String → Option ℤ
  | (.object message, index) =>
    match parser.library.textOr message "event_type" "unknown" with
    | "book" =>
      match parser.readBookHead tickSizeByToken message with
      | .ok (tokenId, _, tickSizeScaled) =>
        Function.update tickSizeByToken tokenId (some tickSizeScaled)
      | .error _ => tickSizeByToken
    | "tick_size_change" =>
      match parser.readTickSizeChange envelope message index rawReference with
      | .ok change =>
        Function.update tickSizeByToken change.tokenId (some change.newTickSizeScaled)
      | .error _ => tickSizeByToken
    | _ => tickSizeByToken
  | _ => tickSizeByToken

def FrameReadable : (String → Option ℤ) → List (JsonValue × ℕ) → Prop
  | _, [] => True
  | tickSizeByToken, entry :: rest =>
    parser.MessageReadable envelope rawReference tickSizeByToken entry ∧
      FrameReadable (parser.remember envelope rawReference tickSizeByToken entry) rest

/-- An update of a reference price: its value and both timestamps read, or its value fails with an
exception that is caught around it. -/
def PriceReadable (message payload : Members) : Prop :=
  match parser.readPrice payload with
  | .error e => catchesPrice e
  | .ok _ =>
    (∃ stamp, parseTimestampNs parser.library (get message "timestamp") = .ok stamp) ∧
      ∃ stamp, parseTimestampNs parser.library (get payload "timestamp") = .ok stamp

def ClobReadable (tickSizeByToken : String → Option ℤ) : Prop :=
  envelope.payloadRaw = "PONG" ∨
    match parser.library.loads envelope.payloadRaw with
    | .error e => catchesJson e
    | .ok payload =>
      parser.FrameReadable envelope rawReference tickSizeByToken (messages payload).zipIdx

def RtdsReadable : Prop :=
  envelope.eventTypeHint = some "empty_control_frame" ∨ envelope.payloadRaw = "" ∨
    envelope.payloadRaw = "PONG" ∨
    match parser.library.loads envelope.payloadRaw with
    | .error e => catchesJson e
    | .ok (.object message) =>
      parser.library.textOr message "topic" "" ∈ rtdsTopics →
      parser.library.textOr message "type" "" = "update" →
      ∀ payload, get message "payload" = .object payload → parser.PriceReadable message payload
    | .ok _ => True

/-- The payload reads, or fails where the parser isolates the failure. -/
def Readable (reference : Option String) (tickSizeByToken : String → Option ℤ) : Prop :=
  match envelope.source with
  | .clobMarketWs => parser.ClobReadable envelope (referenceOf envelope reference) tickSizeByToken
  | .rtds => parser.RtdsReadable envelope
  | _ => True

/-- Parsing returns; each message of a frame is isolated, and so is any other payload as a whole. -/
def Isolated (reference : Option String) (tickSizeByToken : String → Option ℤ) : Prop :=
  ∃ final, parser.parse envelope reference tickSizeByToken = .ok final ∧
    ((envelope.source = .clobMarketWs ∧ envelope.payloadRaw ≠ "PONG" ∧
        ∃ payload, parser.library.loads envelope.payloadRaw = .ok payload ∧
          parser.IsolatedRun envelope (referenceOf envelope reference) ⟨tickSizeByToken, {}⟩
            (messages payload).zipIdx final) ∨
      ((envelope.source = .clobMarketWs → envelope.payloadRaw = "PONG" ∨
          ∃ e, parser.library.loads envelope.payloadRaw = .error e) ∧
        IsolatedResult tickSizeByToken final))

/-! ## One message -/

/-- A run that raises was caught and left no effect. -/
def Clean (start : ParserState) (run : ParserState × Except ReadError Unit) : Prop :=
  ∀ e, run.2 = .error e → catchesMessage e ∧ run.1 = start

variable {parser envelope rawReference}

theorem clean_error {start after : ParserState} {e : ReadError} :
    Clean start (after, .error e) ↔ catchesMessage e ∧ after = start := by
  constructor
  · intro clean
    exact clean e rfl
  · rintro clean other raised
    cases raised
    exact clean

theorem clean_ok {start after : ParserState} {done : Unit} : Clean start (after, .ok done) :=
  fun _ raised => nomatch raised

theorem setTickSize_eq_self {state : ParserState} {tokenId : String} {tickSizeScaled : ℤ} :
    state.setTickSize tokenId tickSizeScaled = state ↔
      state.tickSizeByToken tokenId = some tickSizeScaled := by
  unfold setTickSize
  constructor
  · intro same
    have ticks := congrArg (fun s : ParserState => s.tickSizeByToken tokenId) same
    simpa using ticks.symm
  · intro known
    rw [← known, Function.update_eq_self]

theorem parseBook_clean (message : Members) (index : ℕ) (start : ParserState) :
    Clean start (parser.parseBook envelope message index rawReference start) ↔
      parser.BookReadable envelope rawReference message index start.tickSizeByToken := by
  unfold parseBook BookReadable
  cases parser.readBookHead start.tickSizeByToken message with
  | error e => simp [clean_error]
  | ok head =>
    dsimp only
    cases parser.readSnapshot envelope message index rawReference head.1 head.2.1 head.2.2 with
    | error e => simp [clean_error, setTickSize_eq_self]
    | ok snapshot => simp [clean_ok]

theorem parseChanges_ok_iff (message : Members) (index : ℕ) (changes : List (JsonValue × ℕ))
    (state : ParserState) :
    (parser.parseChanges envelope message index rawReference changes state).2 = .ok () ↔
      ∀ entry ∈ changes, ∃ read,
        parser.readUpdate envelope message index entry.2 rawReference entry.1 = .ok read := by
  induction changes generalizing state with
  | nil => simp [parseChanges]
  | cons entry rest ih =>
    unfold parseChanges
    rw [List.forall_mem_cons]
    cases read : parser.readUpdate envelope message index entry.2 rawReference entry.1 with
    | error e => simp
    | ok found =>
      obtain ⟨top, reported⟩ := reportedTop_of_readUpdate read
      simp only [reported]
      cases top with
      | none => simpa using ih _
      | some top => simpa using ih _

/-- Changes that were added stay. -/
theorem parseChanges_updates_le (message : Members) (index : ℕ) (changes : List (JsonValue × ℕ))
    (state : ParserState) :
    state.result.updates.length ≤
      (parser.parseChanges envelope message index rawReference changes state).1.result.updates.length := by
  induction changes generalizing state with
  | nil => rfl
  | cons entry rest ih =>
    unfold parseChanges
    have added (update : ParsedChange) :
        state.result.updates.length ≤ (state.addUpdate update).result.updates.length := by
      simp [addUpdate]
    split
    · rfl
    · split
      · exact added _
      · exact (added _).trans (ih _)
      · next top _ => exact (added _).trans (ih ((state.addUpdate _).addTop top))

theorem parseChanges_clean (message : Members) (index : ℕ) (changes : List (JsonValue × ℕ))
    (start : ParserState) :
    Clean start (parser.parseChanges envelope message index rawReference changes start) ↔
      parser.ChangesReadable envelope rawReference message index changes := by
  cases changes with
  | nil => simp [ChangesReadable, parseChanges, clean_ok]
  | cons entry rest =>
    unfold ChangesReadable parseChanges
    cases read : parser.readUpdate envelope message index entry.2 rawReference entry.1 with
    | error e => simp [read, clean_error]
    | ok first =>
      obtain ⟨top, reported⟩ := reportedTop_of_readUpdate read
      have added : (start.addUpdate first.1).result.updates.length =
          start.result.updates.length + 1 := by simp [addUpdate]
      -- the first change is in the result, so an exception after it is never clean
      have later (state : ParserState)
          (more : state.result.updates.length = start.result.updates.length + 1) :
          Clean start (parser.parseChanges envelope message index rawReference rest state) ↔
            ∀ later ∈ rest, ∃ read,
              parser.readUpdate envelope message index later.2 rawReference later.1 = .ok read := by
        rw [← parseChanges_ok_iff message index rest state]
        have kept : state.result.updates.length ≤ (parser.parseChanges envelope message index
          rawReference rest state).1.result.updates.length :=
            parseChanges_updates_le message index rest state
        generalize parser.parseChanges envelope message index rawReference rest state = run at kept ⊢
        rcases run with ⟨after, e | done⟩
        · rw [clean_error]
          simp only [reduceCtorEq, iff_false, not_and]
          rintro _ rfl
          dsimp only at kept
          omega
        · simp [clean_ok]
      simp only [read, reported]
      cases top with
      | none => exact later _ added
      | some top => exact later _ added

theorem parsePriceChange_clean (message : Members) (index : ℕ) (start : ParserState) :
    Clean start (parser.parsePriceChange envelope message index rawReference start) ↔
      parser.PriceChangeReadable envelope rawReference message index := by
  unfold parsePriceChange PriceChangeReadable
  rcases message.lookup "price_changes" with _ | value
  · simp [clean_ok]
  · cases value with
    | array changes =>
      simp only [Option.some.injEq, JsonValue.array.injEq, forall_eq']
      exact parseChanges_clean message index changes.zipIdx start
    | _ => simp [clean_error, catchesMessage]

theorem addQuality_ne {state : ParserState} {record : DataQualityEvent} :
    state.addQuality record ≠ state := by
  intro same
  have lengths := congrArg (fun s : ParserState => s.result.quality.length) same
  simp [addQuality] at lengths

theorem parseTrade_clean (message : Members) (index : ℕ) (start : ParserState) :
    Clean start (parser.parseTrade envelope message index rawReference start) ↔
      parser.TradeReadable envelope rawReference message index := by
  unfold parseTrade TradeReadable
  cases parser.readTradeHead message with
  | error e => simp [clean_error]
  | ok head =>
    dsimp only
    cases parser.readNotional envelope message head.2.2.2.2 head.2.2.2.1 with
    | error e => simp [clean_error]
    | ok notional =>
      dsimp only
      cases parser.readTrade envelope message index rawReference head.1 head.2.1 head.2.2.1
          head.2.2.2.1 notional.1 with
      | error e => cases notional.2 <;> simp [clean_error, addQuality_ne]
      | ok trade => simp [clean_ok]

theorem parseTickSizeChange_clean (message : Members) (index : ℕ) (start : ParserState) :
    Clean start (parser.parseTickSizeChange envelope message index rawReference start) ↔
      parser.TickSizeChangeReadable envelope rawReference message index := by
  unfold parseTickSizeChange TickSizeChangeReadable
  cases parser.readTickSizeChange envelope message index rawReference with
  | error e => simp [clean_error]
  | ok change => simp [clean_ok]

theorem parseResolution_clean (message : Members) (start : ParserState) :
    Clean start (parser.parseResolution envelope message rawReference start) ↔
      parser.ResolutionReadable envelope rawReference message := by
  unfold parseResolution ResolutionReadable
  dsimp only
  split
  · next missing =>
    simp only [clean_ok, true_iff]
    exact fun e _ => missing.imp_right .inl
  next present =>
  split
  · next foreign =>
    simp only [clean_ok, true_iff]
    exact fun e _ => .inr (.inr (.inl foreign))
  next own =>
  simp only [not_or] at present
  generalize parser.readResolution envelope message rawReference _ _ _ = read
  cases read with
  | error e =>
    constructor
    · rintro clean other ⟨⟩
      exact .inr (.inr (.inr (clean_error.mp clean).1))
    · intro readable
      rcases readable e rfl with missing | missing | foreign | caught
      · exact absurd missing present.1
      · exact absurd missing present.2
      · exact absurd foreign own
      · exact clean_error.mpr ⟨caught, rfl⟩
  | ok resolution => simp [clean_ok]

theorem parseBestBidAsk_clean (message : Members) (start : ParserState) :
    Clean start (parser.parseBestBidAsk envelope message start) ↔
      parser.BestBidAskReadable envelope message := by
  unfold parseBestBidAsk BestBidAskReadable
  cases parser.readBestBidAsk envelope message with
  | error e => simp [clean_error]
  | ok top => simp [clean_ok]

theorem parseClobMessage_clean (message : Members) (index : ℕ) (start : ParserState) :
    Clean start (parser.parseClobMessage envelope message
        (parser.library.textOr message "event_type" "unknown") index rawReference start) ↔
      parser.MessageReadable envelope rawReference start.tickSizeByToken (.object message, index) := by
  unfold parseClobMessage MessageReadable
  dsimp only
  generalize parser.library.textOr message "event_type" "unknown" = eventType
  split
  · exact parseBook_clean message index start
  · exact parsePriceChange_clean message index start
  · exact parseTrade_clean message index start
  · exact parseTickSizeChange_clean message index start
  · exact parseResolution_clean message start
  · exact parseBestBidAsk_clean message start
  · simp [clean_ok]
  · simp [clean_ok]

/-- The counts and types of a state stay, or the message was counted as invalid and did nothing. -/
def Counts (start : ParserState) (run : ParserState × Except ReadError Unit) : Prop :=
  (run.1.result.invalidCount = start.result.invalidCount ∧
    run.1.result.eventTypes = start.result.eventTypes) ∨
  (run.2 = .ok () ∧ ∃ record, record.severity = .error ∧ run.1 = start.countInvalid record)

theorem parseChanges_counts (message : Members) (index : ℕ) (changes : List (JsonValue × ℕ))
    (start : ParserState) :
    (parser.parseChanges envelope message index rawReference changes start).1.result.invalidCount =
        start.result.invalidCount ∧
      (parser.parseChanges envelope message index rawReference changes start).1.result.eventTypes =
        start.result.eventTypes := by
  induction changes generalizing start with
  | nil => exact ⟨rfl, rfl⟩
  | cons entry rest ih =>
    unfold parseChanges
    split
    · exact ⟨rfl, rfl⟩
    · split
      · exact ⟨rfl, rfl⟩
      · exact ih _
      · exact ih _

theorem parseTrade_counts (message : Members) (index : ℕ) (start : ParserState) :
    Counts start (parser.parseTrade envelope message index rawReference start) := by
  left
  unfold parseTrade
  split
  · exact ⟨rfl, rfl⟩
  split
  · exact ⟨rfl, rfl⟩
  · next notional warning _ =>
    cases warning <;> dsimp only [Option.elim] <;> split <;> exact ⟨rfl, rfl⟩

theorem parseResolution_counts (message : Members) (start : ParserState) :
    Counts start (parser.parseResolution envelope message rawReference start) := by
  unfold parseResolution
  dsimp only
  split
  · exact .inr ⟨rfl, _, rfl, rfl⟩
  split
  · exact .inr ⟨rfl, _, rfl, rfl⟩
  split
  · exact .inl ⟨rfl, rfl⟩
  · exact .inl ⟨rfl, rfl⟩

theorem parseClobMessage_counts (message : Members) (eventType : String) (index : ℕ)
    (start : ParserState) :
    Counts start
      (parser.parseClobMessage envelope message eventType index rawReference start) := by
  unfold parseClobMessage
  split
  · left
    unfold parseBook
    split
    · exact ⟨rfl, rfl⟩
    · dsimp only
      split <;> exact ⟨rfl, rfl⟩
  · left
    unfold parsePriceChange
    split
    · exact ⟨rfl, rfl⟩
    · exact parseChanges_counts message index _ start
    · exact ⟨rfl, rfl⟩
  · exact parseTrade_counts message index start
  · left
    unfold parseTickSizeChange
    split <;> exact ⟨rfl, rfl⟩
  · exact parseResolution_counts message start
  · left
    unfold parseBestBidAsk
    split <;> exact ⟨rfl, rfl⟩
  · exact .inl ⟨rfl, rfl⟩
  · exact .inl ⟨rfl, rfl⟩

/-- A state counted as invalid is an invalid contribution exactly when nothing was added before. -/
theorem countInvalid_eq_invalidEvents {ticks : String → Option ℤ} {eventType : String}
    {state : ParserState} {record : DataQualityEvent} (error : record.severity = .error)
    (kept : state.result.eventTypes = [eventType]) :
    IsolatedResult ticks (state.countInvalid record) ↔
      state = ⟨ticks, { eventTypes := [eventType] }⟩ := by
  constructor
  · rintro (valid | ⟨other, eventTypes, _, same⟩)
    · simp [countInvalid] at valid
    · rcases state with ⟨memory, result⟩
      rcases result with ⟨snapshots, updates, trades, prices, tops, resolutions, changes, records,
        types, unknown, invalid⟩
      simp only [countInvalid, invalidEvents, ParserState.mk.injEq, ParsedEvents.mk.injEq,
        List.append_eq_singleton_iff, List.cons_ne_nil, and_false, or_false, List.cons.injEq,
        and_true, Nat.add_eq_right] at same kept
      obtain ⟨rfl, rfl, rfl, rfl, rfl, rfl, rfl, rfl, ⟨rfl, rfl⟩, rfl, rfl, rfl⟩ := same
      rw [kept]
  · rintro rfl
    exact .inr ⟨record, [eventType], error, rfl⟩

/-- A message is isolated exactly when it reads, or fails cleanly. -/
theorem parseMessage_isolated_iff (ticks : String → Option ℤ) (entry : JsonValue × ℕ) :
    (∃ alone, parser.parseMessage envelope rawReference ⟨ticks, {}⟩ entry = .ok alone ∧
        IsolatedResult ticks alone) ↔
      parser.MessageReadable envelope rawReference ticks entry := by
  rcases entry with ⟨value, index⟩
  cases value with
  | object message =>
    set eventType := parser.library.textOr message "event_type" "unknown" with typed
    have clean : Clean ⟨ticks, { eventTypes := [eventType] }⟩
        (parser.parseClobMessage envelope message eventType index rawReference
          ⟨ticks, { eventTypes := [eventType] }⟩) ↔ _ :=
      parseClobMessage_clean message index _
    have counts : Counts ⟨ticks, { eventTypes := [eventType] }⟩
        (parser.parseClobMessage envelope message eventType index rawReference
          ⟨ticks, { eventTypes := [eventType] }⟩) :=
      parseClobMessage_counts message eventType index _
    have started : (⟨ticks, {}⟩ : ParserState).addEventType eventType =
        ⟨ticks, { eventTypes := [eventType] }⟩ := rfl
    rw [← clean]
    unfold parseMessage
    dsimp only
    rw [← typed, started]
    generalize parser.parseClobMessage envelope message eventType index rawReference
      ⟨ticks, { eventTypes := [eventType] }⟩ = run at counts ⊢
    rcases run with ⟨after, e | done⟩
    · rw [clean_error]
      dsimp only
      rcases counts with ⟨_, kept⟩ | ⟨ran, _⟩
      · by_cases caught : catchesMessage e
        · constructor
          · rintro ⟨alone, ran, isolated⟩
            rw [if_pos caught] at ran
            cases ran
            exact ⟨caught, (countInvalid_eq_invalidEvents rfl kept).mp isolated⟩
          · rintro ⟨_, unchanged⟩
            exact ⟨_, if_pos caught, (countInvalid_eq_invalidEvents rfl kept).mpr unchanged⟩
        · constructor
          · rintro ⟨alone, ran, _⟩
            rw [if_neg caught] at ran
            cases ran
          · rintro ⟨other, _⟩
            exact absurd other caught
      · cases ran
    · simp only [clean_ok, iff_true, Except.ok.injEq, exists_eq_left']
      rcases counts with ⟨valid, _⟩ | ⟨_, record, error, rfl⟩
      · exact .inl valid
      · exact .inr ⟨record, [eventType], error, rfl⟩
  | _ =>
    simp only [parseMessage, MessageReadable, iff_true]
    exact ⟨_, rfl, .inr ⟨_, _, rfl, rfl⟩⟩

/-! ## Frames -/

theorem parseChanges_tickSizeByToken (message : Members) (index : ℕ)
    (changes : List (JsonValue × ℕ)) (start : ParserState) :
    (parser.parseChanges envelope message index rawReference changes start).1.tickSizeByToken =
      start.tickSizeByToken := by
  induction changes generalizing start with
  | nil => rfl
  | cons entry rest ih =>
    unfold parseChanges
    split
    · rfl
    · split
      · rfl
      · exact ih _
      · exact ih _

/-- Only book messages and tick changes are remembered, the former also when they fail later. -/
theorem parseClobMessage_tickSizeByToken (message : Members) (index : ℕ) (start : ParserState) :
    (parser.parseClobMessage envelope message (parser.library.textOr message "event_type" "unknown")
      index rawReference start).1.tickSizeByToken =
      parser.remember envelope rawReference start.tickSizeByToken (.object message, index) := by
  unfold parseClobMessage remember
  dsimp only
  generalize parser.library.textOr message "event_type" "unknown" = eventType
  split
  · unfold parseBook
    cases parser.readBookHead start.tickSizeByToken message with
    | error e => rfl
    | ok head =>
      dsimp only
      split <;> rfl
  · unfold parsePriceChange
    split
    · rfl
    · exact parseChanges_tickSizeByToken message index _ start
    · rfl
  · unfold parseTrade
    split
    · rfl
    split
    · rfl
    · next warning _ => cases warning <;> dsimp only [Option.elim] <;> split <;> rfl
  · unfold parseTickSizeChange
    cases parser.readTickSizeChange envelope message index rawReference with
    | error e => rfl
    | ok change => rfl
  · unfold parseResolution
    dsimp only
    split
    · rfl
    split
    · rfl
    split <;> rfl
  · unfold parseBestBidAsk
    split <;> rfl
  · rfl
  · next book _ _ tick _ _ _ =>
    split
    · exact absurd rfl book
    · exact absurd rfl tick
    · rfl

theorem remember_eq (state : ParserState) (entry : JsonValue × ℕ) {after : ParserState}
    (parsed : parser.parseMessage envelope rawReference state entry = .ok after) :
    after.tickSizeByToken = parser.remember envelope rawReference state.tickSizeByToken entry := by
  rcases entry with ⟨value, index⟩
  cases value with
  | object message =>
    have ticks : (parser.parseClobMessage envelope message
        (parser.library.textOr message "event_type" "unknown") index rawReference
        (state.addEventType (parser.library.textOr message "event_type" "unknown"))).1.tickSizeByToken = _ :=
      parseClobMessage_tickSizeByToken message index _
    rw [show state.tickSizeByToken = (state.addEventType
      (parser.library.textOr message "event_type" "unknown")).tickSizeByToken from rfl, ← ticks]
    unfold parseMessage at parsed
    dsimp only at parsed
    generalize parser.parseClobMessage envelope message
      (parser.library.textOr message "event_type" "unknown") index rawReference
      (state.addEventType (parser.library.textOr message "event_type" "unknown")) = run at parsed
    rcases run with ⟨final, e | done⟩
    · dsimp only at parsed
      split at parsed
      · cases parsed
        rfl
      · cases parsed
    · cases parsed
      rfl
  | _ =>
    cases parsed
    rfl

/-- The step of a frame is isolated exactly when its message is readable. -/
theorem isolatedStep_iff (before : ParserState) (entry : JsonValue × ℕ) :
    (∃ next, parser.parseMessage envelope rawReference before entry = .ok next ∧
        parser.IsolatedStep envelope rawReference before entry next) ↔
      parser.MessageReadable envelope rawReference before.tickSizeByToken entry := by
  rw [← parseMessage_isolated_iff]
  have behind : parser.parseMessage envelope rawReference before entry =
      ParserState.behind before.result <$>
        parser.parseMessage envelope rawReference ⟨before.tickSizeByToken, {}⟩ entry := by
    rw [← parseMessage_behind, behind_empty]
  constructor
  · rintro ⟨next, parsed, isolated⟩
    rw [behind, Except.map_eq_ok] at parsed
    obtain ⟨alone, ran, rfl⟩ := parsed
    refine ⟨alone, ran, ?_⟩
    rcases isolated with ⟨same, again, valid, _⟩ | ⟨record, eventTypes, error, moved⟩
    · rw [ran] at again
      cases again
      exact .inl valid
    · simp only [ParserState.behind, ParserState.mk.injEq] at moved
      obtain ⟨ticks, events⟩ := moved
      refine .inr ⟨record, eventTypes, error, ?_⟩
      rw [← ticks, ← ParsedEvents.append_left_cancel events]
  · rintro ⟨alone, ran, isolated⟩
    refine ⟨alone.behind before.result, by rw [behind, ran]; rfl, ?_⟩
    rcases isolated with valid | ⟨record, eventTypes, error, rfl⟩
    · exact .inl ⟨alone, ran, valid, rfl⟩
    · exact .inr ⟨record, eventTypes, error, rfl⟩

theorem isolatedRun_iff (entries : List (JsonValue × ℕ)) (before : ParserState) :
    (∃ final, entries.foldlM (parser.parseMessage envelope rawReference) before = .ok final ∧
        parser.IsolatedRun envelope rawReference before entries final) ↔
      parser.FrameReadable envelope rawReference before.tickSizeByToken entries := by
  induction entries generalizing before with
  | nil =>
    simp only [FrameReadable, iff_true]
    exact ⟨before, rfl, rfl⟩
  | cons entry rest ih =>
    unfold FrameReadable IsolatedRun
    rw [List.foldlM_cons, ← isolatedStep_iff]
    constructor
    · rintro ⟨final, ran, next, parsed, isolated, later⟩
      rw [parsed] at ran
      refine ⟨⟨next, parsed, isolated⟩, ?_⟩
      rw [← remember_eq before entry parsed]
      exact (ih next).mp ⟨final, ran, later⟩
    · rintro ⟨⟨next, parsed, isolated⟩, readable⟩
      rw [← remember_eq before entry parsed] at readable
      obtain ⟨final, ran, later⟩ := (ih next).mpr readable
      exact ⟨final, by rw [parsed]; exact ran, next, parsed, isolated, later⟩

/-! ## Payloads -/

theorem parseClob_isolated_iff (reference : Option String) (ticks : String → Option ℤ) :
    (∃ final, parser.parseClob envelope reference ticks = .ok final ∧
      ((envelope.payloadRaw ≠ "PONG" ∧ ∃ payload,
          parser.library.loads envelope.payloadRaw = .ok payload ∧
          parser.IsolatedRun envelope (referenceOf envelope reference) ⟨ticks, {}⟩
            (messages payload).zipIdx final) ∨
        ((envelope.payloadRaw = "PONG" ∨ ∃ e, parser.library.loads envelope.payloadRaw = .error e) ∧
          IsolatedResult ticks final))) ↔
      parser.ClobReadable envelope (referenceOf envelope reference) ticks := by
  unfold parseClob ClobReadable
  dsimp only
  by_cases pong : envelope.payloadRaw = "PONG"
  · simp only [pong, true_or, iff_true]
    exact ⟨_, rfl, .inr ⟨trivial, .inl rfl⟩⟩
  simp only [pong, false_or, ne_eq, not_false_eq_true, true_and]
  cases parser.library.loads envelope.payloadRaw with
  | error e =>
    by_cases caught : catchesJson e
    · simp only [caught, iff_true]
      exact ⟨_, rfl, .inr ⟨⟨e, rfl⟩, .inr ⟨_, _, rfl, rfl⟩⟩⟩
    · simp [caught]
  | ok payload =>
    have frame : (∃ final, _ ∧ parser.IsolatedRun envelope (referenceOf envelope reference)
        ⟨ticks, {}⟩ (messages payload).zipIdx final) ↔ _ :=
      isolatedRun_iff (messages payload).zipIdx ⟨ticks, {}⟩
    simpa using frame

theorem parsePrice_isolated_iff (topic : String) (message payload : Members)
    (ticks : String → Option ℤ) (eventTypes : List String) :
    (∃ final, parser.parsePrice envelope rawReference topic message payload
        ⟨ticks, { eventTypes := eventTypes }⟩ = .ok final ∧ IsolatedResult ticks final) ↔
      parser.PriceReadable message payload := by
  unfold parsePrice PriceReadable
  dsimp only
  cases parser.readPrice payload with
  | error e =>
    by_cases caught : catchesPrice e
    · simp only [caught, iff_true]
      exact ⟨_, rfl, .inr ⟨_, _, rfl, rfl⟩⟩
    · simp [caught]
  | ok priceScaled =>
    dsimp only
    constructor
    · rintro ⟨final, ran, _⟩
      simp only [Except.bind_eq_ok] at ran
      obtain ⟨outer, outerRead, inner, innerRead, _⟩ := ran
      exact ⟨⟨outer, outerRead⟩, inner, innerRead⟩
    · rintro ⟨⟨outer, outerRead⟩, inner, innerRead⟩
      rw [outerRead, innerRead]
      exact ⟨_, rfl, .inl rfl⟩

theorem parseRtds_isolated_iff (reference : Option String) (ticks : String → Option ℤ) :
    (∃ final, parser.parseRtds envelope reference ticks = .ok final ∧ IsolatedResult ticks final) ↔
      parser.RtdsReadable envelope := by
  unfold parseRtds RtdsReadable
  dsimp only
  by_cases control : envelope.eventTypeHint = some "empty_control_frame" ∨ envelope.payloadRaw = ""
  · rw [if_pos control]
    simp only [← or_assoc, control, true_or, iff_true]
    exact ⟨_, rfl, .inl rfl⟩
  rw [if_neg control]
  by_cases pong : envelope.payloadRaw = "PONG"
  · simp only [pong, true_or, or_true, iff_true]
    exact ⟨_, rfl, .inl rfl⟩
  rw [← or_assoc, or_iff_right control, if_neg pong, or_iff_right pong]
  cases parser.library.loads envelope.payloadRaw with
  | error e =>
    by_cases caught : catchesJson e
    · simp only [caught, iff_true]
      exact ⟨_, rfl, .inr ⟨_, _, rfl, rfl⟩⟩
    · simp [caught]
  | ok value =>
    cases value with
    | object message =>
      dsimp only
      unfold parseRtdsMessage
      dsimp only
      generalize parser.library.textOr message "topic" "" = topic
      generalize parser.library.textOr message "type" "" = eventType
      by_cases subscribed : eventType = "subscribe" ∧ topic ∈ rtdsTopics
      · rw [if_pos subscribed]
        simp only [subscribed.1, String.reduceEq, false_implies, implies_true, iff_true]
        exact ⟨_, rfl, .inl rfl⟩
      rw [if_neg subscribed]
      by_cases foreign : topic ∉ rtdsTopics ∨ eventType ≠ "update"
      · rw [if_pos foreign]
        refine iff_of_true ⟨_, rfl, .inl rfl⟩ fun known update => ?_
        exact (foreign.elim (· known) (· update)).elim
      · rw [if_neg foreign]
        simp only [not_or, not_not] at foreign
        cases found : get message "payload" with
        | object payload =>
          simp only [foreign, forall_const, JsonValue.object.injEq, forall_eq']
          exact parsePrice_isolated_iff topic message payload ticks _
        | _ =>
          simp only [reduceCtorEq, false_implies, implies_true, iff_true]
          exact ⟨_, rfl, .inr ⟨_, _, rfl, rfl⟩⟩
    | _ =>
      simp only [iff_true]
      exact ⟨_, rfl, .inr ⟨_, _, rfl, rfl⟩⟩

variable (parser envelope)

/-- Parsing isolates malformed messages exactly for the readable payloads. -/
theorem parse_isolated_iff (reference : Option String) (tickSizeByToken : String → Option ℤ) :
    parser.Isolated envelope reference tickSizeByToken ↔
      parser.Readable envelope reference tickSizeByToken := by
  unfold Isolated Readable parse
  cases source : envelope.source with
  | clobMarketWs =>
    dsimp only
    rw [← parseClob_isolated_iff]
    simp
  | rtds =>
    dsimp only
    rw [← parseRtds_isolated_iff reference tickSizeByToken]
    simp
  | _ =>
    simp only [iff_true]
    exact ⟨_, rfl, .inr ⟨fun clob => (nomatch clob), .inl rfl⟩⟩

/-! ## A frame whose second change is malformed -/

/-- Two changes of one token, the second without a side. -/
def halfChange : JsonValue :=
  .object [("event_type", .text "price_change"), ("market", .text "0x0f"),
    ("price_changes", .array [
      .object [("asset_id", .text "17"), ("price", .text "0.48"), ("size", .text "100"),
        ("side", .text "BUY")],
      .object [("asset_id", .text "17"), ("price", .text "0.52"), ("size", .text "50")]])]

/-- The libraries as they behave on that frame. -/
def halfChangeParser : EventParser where
  library := {
    loads := fun _ => .ok halfChange
    render := fun _ => ""
    repr := fun
      | .text key => s!"'{key}'"
      | _ => ""
    decimal := fun
      | "0.48" => some (.finite (48 / 100))
      | "100" => some (.finite 100)
      | _ => none
    looksNumeric := fun _ => false
    isoparse := fun _ => .error ⟨.valueError, "ISO string too short"⟩
    upper := fun text => text.map Char.toUpper
    uuid5 := fun _ => "d4b8f1e0-291c-5708-8f8b-1846235ffdc0" }
  marketForToken := fun tokenId =>
    if tokenId = "17" then
      some ⟨"0x0f", 10000, 5000000, false, fun tokenId => if tokenId = "17" then some "UP" else none⟩
    else none

def halfChangeEnvelope : RawEnvelope where
  collectorVersion := "1"
  runId := "run-1"
  connectionId := "connection-1"
  sequence := 7
  source := .clobMarketWs
  stream := "market"
  receivedUtcNs := 1000
  receivedMonotonicNs := 1000
  payloadRaw := "\x7b\"event_type\":\"price_change\",\"market\":\"0x0f\",\"price_changes\":[" ++
    "\x7b\"asset_id\":\"17\",\"price\":\"0.48\",\"size\":\"100\",\"side\":\"BUY\"\x7d," ++
    "\x7b\"asset_id\":\"17\",\"price\":\"0.52\",\"size\":\"50\"\x7d]\x7d"

/-- The first change stays in the result although its message is counted as invalid. -/
theorem halfChange_not_isolated :
    ¬ halfChangeParser.Isolated halfChangeEnvelope none fun _ => none := by
  have leaks : ((halfChangeParser.parseMessage halfChangeEnvelope "sequence:7" ⟨fun _ => none, {}⟩
      (halfChange, 0)).toOption.map fun next =>
        (next.result.invalidCount, next.result.updates.length)) = some (1, 1) := by
    decide +kernel
  have reference : referenceOf halfChangeEnvelope none = "sequence:7" := by decide
  rintro ⟨final, _, ⟨_, _, payload, read, isolated⟩ | ⟨clob, _⟩⟩
  · obtain rfl : halfChange = payload := Except.ok.inj read
    obtain ⟨next, parsed, step, _⟩ := isolated
    rw [reference] at parsed step
    rw [parsed] at leaks
    simp only [Except.toOption, Option.map_some, Option.some.injEq, Prod.mk.injEq] at leaks
    rcases step with ⟨alone, again, valid, _⟩ | ⟨record, eventTypes, _, same⟩
    · obtain rfl : next = alone := Except.ok.inj (parsed.symm.trans again)
      omega
    · rw [same] at leaks
      exact absurd leaks.2 Nat.zero_ne_one
  · rcases clob rfl with pong | ⟨e, failed⟩
    · exact absurd pong (by decide)
    · cases failed

end EventParser

end PolymarketBt
