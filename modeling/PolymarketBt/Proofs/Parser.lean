import PolymarketBt.Machine.Loop
import PolymarketBt.Model.Parser

/-! # What parsing one message adds

A message is parsed without looking at the events before it. Its contribution is what it adds to an
empty result, and a frame's result is the contributions of its messages one after another.
-/

namespace PolymarketBt

namespace ParsedEvents

instance : Append ParsedEvents where
  append earlier later :=
    { snapshots := earlier.snapshots ++ later.snapshots
      updates := earlier.updates ++ later.updates
      trades := earlier.trades ++ later.trades
      btcPrices := earlier.btcPrices ++ later.btcPrices
      topOfBook := earlier.topOfBook ++ later.topOfBook
      resolutions := earlier.resolutions ++ later.resolutions
      tickSizeChanges := earlier.tickSizeChanges ++ later.tickSizeChanges
      quality := earlier.quality ++ later.quality
      eventTypes := earlier.eventTypes ++ later.eventTypes
      unknownCount := earlier.unknownCount + later.unknownCount
      invalidCount := earlier.invalidCount + later.invalidCount }

theorem append_def (earlier later : ParsedEvents) :
    earlier ++ later =
      { snapshots := earlier.snapshots ++ later.snapshots
        updates := earlier.updates ++ later.updates
        trades := earlier.trades ++ later.trades
        btcPrices := earlier.btcPrices ++ later.btcPrices
        topOfBook := earlier.topOfBook ++ later.topOfBook
        resolutions := earlier.resolutions ++ later.resolutions
        tickSizeChanges := earlier.tickSizeChanges ++ later.tickSizeChanges
        quality := earlier.quality ++ later.quality
        eventTypes := earlier.eventTypes ++ later.eventTypes
        unknownCount := earlier.unknownCount + later.unknownCount
        invalidCount := earlier.invalidCount + later.invalidCount } := rfl

theorem append_left_cancel {earlier first second : ParsedEvents}
    (same : earlier ++ first = earlier ++ second) : first = second := by
  simp only [append_def, mk.injEq, List.append_cancel_left_eq, Nat.add_left_cancel_iff] at same
  cases first
  cases second
  simpa using same

@[simp] theorem append_empty (events : ParsedEvents) : events ++ ({} : ParsedEvents) = events := by
  simp [append_def]

end ParsedEvents

namespace ParserState

/-- The state with earlier events before its own. -/
def behind (earlier : ParsedEvents) (state : ParserState) : ParserState :=
  ⟨state.tickSizeByToken, earlier ++ state.result⟩

variable (earlier : ParsedEvents) (state : ParserState)

@[simp] theorem behind_tickSizeByToken :
    (state.behind earlier).tickSizeByToken = state.tickSizeByToken := rfl

theorem behind_empty (tickSizeByToken : String → Option ℤ) :
    behind earlier ⟨tickSizeByToken, {}⟩ = ⟨tickSizeByToken, earlier⟩ := by
  simp [behind]

@[simp] theorem setTickSize_behind (tokenId : String) (tickSizeScaled : ℤ) :
    (state.behind earlier).setTickSize tokenId tickSizeScaled =
      (state.setTickSize tokenId tickSizeScaled).behind earlier := rfl

@[simp] theorem addSnapshot_behind (snapshot : ParsedSnapshot) (top : TopOfBook) :
    (state.behind earlier).addSnapshot snapshot top =
      (state.addSnapshot snapshot top).behind earlier := by
  simp [behind, addSnapshot, ParsedEvents.append_def]

@[simp] theorem addUpdate_behind (update : ParsedChange) :
    (state.behind earlier).addUpdate update = (state.addUpdate update).behind earlier := by
  simp [behind, addUpdate, ParsedEvents.append_def]

@[simp] theorem addTop_behind (top : TopOfBook) :
    (state.behind earlier).addTop top = (state.addTop top).behind earlier := by
  simp [behind, addTop, ParsedEvents.append_def]

@[simp] theorem addTrade_behind (trade : TradeEvent) :
    (state.behind earlier).addTrade trade = (state.addTrade trade).behind earlier := by
  simp [behind, addTrade, ParsedEvents.append_def]

@[simp] theorem addTickSizeChange_behind (change : ParsedTickSizeChange) :
    (state.behind earlier).addTickSizeChange change =
      (state.addTickSizeChange change).behind earlier := by
  simp [behind, addTickSizeChange, ParsedEvents.append_def]

@[simp] theorem addResolution_behind (resolution : Resolution) :
    (state.behind earlier).addResolution resolution =
      (state.addResolution resolution).behind earlier := by
  simp [behind, addResolution, ParsedEvents.append_def]

@[simp] theorem addQuality_behind (quality : DataQualityEvent) :
    (state.behind earlier).addQuality quality = (state.addQuality quality).behind earlier := by
  simp [behind, addQuality, ParsedEvents.append_def]

@[simp] theorem addEventType_behind (eventType : String) :
    (state.behind earlier).addEventType eventType =
      (state.addEventType eventType).behind earlier := by
  simp [behind, addEventType, ParsedEvents.append_def]

@[simp] theorem countInvalid_behind (quality : DataQualityEvent) :
    (state.behind earlier).countInvalid quality = (state.countInvalid quality).behind earlier := by
  simp [behind, countInvalid, ParsedEvents.append_def, Nat.add_assoc]

@[simp] theorem countUnknown_behind (quality : DataQualityEvent) :
    (state.behind earlier).countUnknown quality = (state.countUnknown quality).behind earlier := by
  simp [behind, countUnknown, ParsedEvents.append_def, Nat.add_assoc]

/-- A step of the parser whose effect does not depend on the events before it. -/
def Oblivious (step : ParserState → ParserState × Except ReadError Unit) : Prop :=
  ∀ earlier state, step (behind earlier state) = ((step state).1.behind earlier, (step state).2)

end ParserState

open ParserState

namespace EventParser

variable (parser : EventParser) (envelope : RawEnvelope) (message : Members) (messageIndex : ℕ)
  (rawReference : String)

theorem parseBook_oblivious :
    Oblivious (parser.parseBook envelope message messageIndex rawReference) := by
  intro earlier state
  unfold parseBook
  simp only [behind_tickSizeByToken]
  cases parser.readBookHead state.tickSizeByToken message with
  | error e => rfl
  | ok head =>
    simp only [setTickSize_behind]
    cases parser.readSnapshot envelope message messageIndex rawReference head.1 head.2.1
        head.2.2 with
    | error e => rfl
    | ok snapshot => simp only [addSnapshot_behind]

theorem parseChanges_oblivious (changes : List (JsonValue × ℕ)) :
    Oblivious (parser.parseChanges envelope message messageIndex rawReference changes) := by
  intro earlier state
  induction changes generalizing state with
  | nil => rfl
  | cons entry rest ih =>
    unfold parseChanges
    cases parser.readUpdate envelope message messageIndex entry.2 rawReference entry.1 with
    | error e => rfl
    | ok read =>
      simp only [addUpdate_behind]
      cases parser.reportedTop envelope read.1 read.2 with
      | error e => rfl
      | ok top =>
        cases top with
        | none => exact ih _
        | some top =>
          simp only [addTop_behind]
          exact ih _

theorem parsePriceChange_oblivious :
    Oblivious (parser.parsePriceChange envelope message messageIndex rawReference) := by
  intro earlier state
  unfold parsePriceChange
  split
  · rfl
  · exact parser.parseChanges_oblivious _ _ _ _ _ _ _
  · rfl

theorem parseTrade_oblivious :
    Oblivious (parser.parseTrade envelope message messageIndex rawReference) := by
  intro earlier state
  unfold parseTrade
  cases parser.readTradeHead message with
  | error e => rfl
  | ok head =>
    dsimp only
    cases parser.readNotional envelope message head.2.2.2.2 head.2.2.2.1 with
    | error e => rfl
    | ok notional =>
      have warned : (notional.2.elim (behind earlier state) (behind earlier state).addQuality) =
          behind earlier (notional.2.elim state state.addQuality) := by
        cases notional.2 <;> simp
      simp only [warned]
      cases parser.readTrade envelope message messageIndex rawReference head.1 head.2.1 head.2.2.1
          head.2.2.2.1 notional.1 with
      | error e => rfl
      | ok trade => simp only [addTrade_behind]

theorem parseTickSizeChange_oblivious :
    Oblivious (parser.parseTickSizeChange envelope message messageIndex rawReference) := by
  intro earlier state
  unfold parseTickSizeChange
  split
  · rfl
  · simp only [setTickSize_behind, addTickSizeChange_behind]

theorem parseResolution_oblivious :
    Oblivious (parser.parseResolution envelope message rawReference) := by
  intro earlier state
  unfold parseResolution
  dsimp only
  split
  · simp only [countInvalid_behind]
  split
  · simp only [countInvalid_behind]
  split
  · rfl
  · simp only [addResolution_behind]

theorem parseBestBidAsk_oblivious : Oblivious (parser.parseBestBidAsk envelope message) := by
  intro earlier state
  unfold parseBestBidAsk
  split
  · rfl
  · simp only [addTop_behind]

theorem parseClobMessage_oblivious (eventType : String) :
    Oblivious (parser.parseClobMessage envelope message eventType messageIndex rawReference) := by
  intro earlier state
  unfold parseClobMessage
  split
  · exact parser.parseBook_oblivious _ _ _ _ _ _
  · exact parser.parsePriceChange_oblivious _ _ _ _ _ _
  · exact parser.parseTrade_oblivious _ _ _ _ _ _
  · exact parser.parseTickSizeChange_oblivious _ _ _ _ _ _
  · exact parser.parseResolution_oblivious _ _ _ _ _
  · exact parser.parseBestBidAsk_oblivious _ _ _ _
  · rfl
  · simp only [countUnknown_behind]

/-- What a message adds to the result does not depend on the events before it. -/
theorem parseMessage_behind (earlier : ParsedEvents) (state : ParserState)
    (entry : JsonValue × ℕ) :
    parser.parseMessage envelope rawReference (state.behind earlier) entry =
      behind earlier <$> parser.parseMessage envelope rawReference state entry := by
  unfold parseMessage
  split
  · next message index =>
    simp only [addEventType_behind]
    rw [parser.parseClobMessage_oblivious envelope message index rawReference _ earlier]
    generalize parser.parseClobMessage envelope message
      (parser.library.textOr message "event_type" "unknown") index rawReference
      (state.addEventType (parser.library.textOr message "event_type" "unknown")) = run
    rcases run with ⟨after, e | done⟩
    · by_cases caught : catchesMessage e
      · simp only [if_pos caught, countInvalid_behind]
        rfl
      · simp only [if_neg caught]
        rfl
    · rfl
  · simp only [countInvalid_behind]
    rfl

/-! ## What the readers return -/

variable {parser envelope message messageIndex rawReference}

/-- A level change carries the stamp of its envelope and its place in the message, and its quotes
were read. -/
theorem readUpdate_spec {changeIndex : ℕ} {change : JsonValue} {update : ParsedChange}
    {members : Members}
    (read : parser.readUpdate envelope message messageIndex changeIndex rawReference change =
      .ok (update, members)) :
    update.sequence = envelope.sequence ∧ update.receivedUtcNs = envelope.receivedUtcNs ∧
      update.connectionId = envelope.connectionId ∧ update.changeIndex = changeIndex ∧
      parseTimestampNs parser.library (JsonValue.get message "timestamp") =
        .ok update.exchangeTimestampNs ∧
      parser.boundaryPrice (JsonValue.get members "best_bid") = .ok update.reportedBestBidScaled ∧
      parser.boundaryPrice (JsonValue.get members "best_ask") = .ok update.reportedBestAskScaled := by
  unfold readUpdate at read
  split at read
  · simp only [Except.bind_eq_ok, Except.pure_eq_ok, Prod.mk.injEq] at read
    obtain ⟨_, _, _, _, _, _, _, _, stamp, stamped, _, _, _, _, _, _, _, _, bid, bids, ask, asks,
      rfl, rfl⟩ := read
    exact ⟨rfl, rfl, rfl, rfl, stamped, bids, asks⟩
  · cases read

theorem reportedTop_of_readUpdate {changeIndex : ℕ} {change : JsonValue} {update : ParsedChange}
    {members : Members}
    (read : parser.readUpdate envelope message messageIndex changeIndex rawReference change =
      .ok (update, members)) :
    ∃ top, parser.reportedTop envelope update members = .ok top := by
  obtain ⟨_, _, _, _, _, bids, asks⟩ := readUpdate_spec read
  unfold reportedTop reportedTopValues
  rw [bids, asks]
  simp only [Except.ok_bind, pure, Except.pure]
  split
  · exact ⟨none, rfl⟩
  · exact ⟨_, rfl⟩

end EventParser

end PolymarketBt
