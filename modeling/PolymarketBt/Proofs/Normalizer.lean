import PolymarketBt.Model.Normalizer
import PolymarketBt.Proofs.Parser
import PolymarketBt.ToMathlib.StickySettings

/-! # What an envelope says of tick sizes

The parser reads a book without a tick size under the size in force for its token. Of an envelope
it therefore takes the sizes it states, the snapshots that lean on one, and the others; its level
changes and its trades depend on no size. This holds of every message and composes over frames,
envelopes and files.
-/

namespace PolymarketBt

open StickyWord

abbrev TickWord := StickyWord String ℤ NormalizedSnapshot

namespace NormalizedRows

theorem append_def (first second : NormalizedRows) :
    first ++ second =
      ⟨first.snapshots ++ second.snapshots, first.updates ++ second.updates,
        first.trades ++ second.trades⟩ := rfl

@[simp] theorem append_empty (rows : NormalizedRows) : rows ++ ({} : NormalizedRows) = rows := by
  simp [append_def]

@[simp] theorem append_nil (rows : NormalizedRows) :
    rows ++ (⟨[], [], []⟩ : NormalizedRows) = rows := append_empty rows

end NormalizedRows

namespace EventParser

open JsonValue ParserState

variable (parser : EventParser) (envelope : RawEnvelope) (rawReference : String)

/-- The tick size of the market of a token. -/
def marketTick (tokenId : String) : ℤ :=
  ((parser.marketForToken tokenId).map MarketRecord.tickSizeScaled).getD 0

/-- The tick size that a book without one is read under. -/
def tickInForce (tickSizeByToken : String → Option ℤ) (tokenId : String) : ℤ :=
  (tickSizeByToken tokenId).getD (parser.marketTick tokenId)

/-! ## The words of a message -/

/-- The token and the market of a book message, with the tick size that it gives. -/
def readBookTick (message : Members) : Except ReadError (String × MarketRecord × Option ℤ) := do
  let tokenId := parser.library.str (← parser.library.getItem message "asset_id")
  let market ← parser.marketOf tokenId
  let given ← parser.optionalScaled (get message "tick_size") polymarketPriceScale "tick_size"
  return (tokenId, market, given)

def bookWords (message : Members) (messageIndex : ℕ) : List TickWord :=
  match parser.readBookTick message with
  | .error _ => []
  | .ok (tokenId, market, given) =>
    match given, parser.readSnapshot envelope message messageIndex rawReference tokenId market
        (given.getD market.tickSizeScaled) with
    | some tickSizeScaled, .ok snapshot =>
      [.states tokenId tickSizeScaled, .yields ⟨snapshot, none⟩]
    | some tickSizeScaled, .error _ => [.states tokenId tickSizeScaled]
    | none, .ok snapshot =>
      [.leans tokenId fun inForce => ⟨{ snapshot with tickSizeScaled := inForce }, none⟩]
    | none, .error _ => []

def messageWords : JsonValue × ℕ → List TickWord
  | (.object message, index) =>
    match parser.library.textOr message "event_type" "unknown" with
    | "book" => parser.bookWords envelope rawReference message index
    | "tick_size_change" =>
      match parser.readTickSizeChange envelope message index rawReference with
      | .ok change => [.states change.tokenId change.newTickSizeScaled]
      | .error _ => []
    | _ => []
  | _ => []

/-! ## Steps that follow their words -/

/-- A step that leaves the tick sizes and adds the snapshots of its words, and whose level changes,
trades and outcome are always the same. -/
def Follows (words : List TickWord) (step : ParserState → ParserState × Except ReadError Unit) :
    Prop :=
  ∃ updates trades outcome, (∀ trade ∈ trades, trade.rawEventReference = rawReference) ∧ ∀ state,
    (step state).2 = outcome ∧
      parser.tickInForce (step state).1.tickSizeByToken =
        (run (parser.tickInForce state.tickSizeByToken) words).1 ∧
      (step state).1.result.rows = state.result.rows ++
        ⟨(run (parser.tickInForce state.tickSizeByToken) words).2, updates, trades⟩

variable {parser} {envelope} {rawReference} {words later : List TickWord}
  {step next : ParserState → ParserState × Except ReadError Unit}

theorem Follows.eq (follows : parser.Follows rawReference words step) :
    ∃ updates trades outcome, (∀ trade ∈ trades, trade.rawEventReference = rawReference) ∧
      ∀ state, ∃ after, step state = (after, outcome) ∧
      parser.tickInForce after.tickSizeByToken =
          (run (parser.tickInForce state.tickSizeByToken) words).1 ∧
        after.result.rows = state.result.rows ++
          ⟨(run (parser.tickInForce state.tickSizeByToken) words).2, updates, trades⟩ := by
  obtain ⟨updates, trades, outcome, referred, each⟩ := follows
  exact ⟨updates, trades, outcome, referred, fun state =>
    ⟨(step state).1, Prod.ext rfl (each state).1, (each state).2⟩⟩

/-- A step that neither reads nor sets a tick size and adds no row of the three datasets. -/
theorem Follows.silent (outcome : Except ReadError Unit)
    (same : ∀ state, (step state).2 = outcome ∧
      (step state).1.tickSizeByToken = state.tickSizeByToken ∧
      (step state).1.result.rows = state.result.rows) : parser.Follows rawReference [] step := by
  refine ⟨[], [], outcome, List.forall_mem_nil _, fun state => ?_⟩
  obtain ⟨returned, ticks, rows⟩ := same state
  refine ⟨returned, ?_, ?_⟩
  · rw [ticks]
    rfl
  · rw [rows]
    exact (NormalizedRows.append_nil _).symm

/-- A step followed by another, whatever the first returned. -/
theorem Follows.then (first : parser.Follows rawReference words step)
    (second : parser.Follows rawReference later next) :
    parser.Follows rawReference (words ++ later) fun state => next (step state).1 := by
  obtain ⟨updates, trades, _, referred, each⟩ := first
  obtain ⟨moreUpdates, moreTrades, outcome, moreReferred, eachNext⟩ := second
  refine ⟨updates ++ moreUpdates, trades ++ moreTrades, outcome,
    List.forall_mem_append.mpr ⟨referred, moreReferred⟩, fun state => ?_⟩
  obtain ⟨_, ticks, rows⟩ := each state
  obtain ⟨returned, after, added⟩ := eachNext (step state).1
  rw [ticks] at after added
  rw [run_append]
  refine ⟨returned, after, ?_⟩
  rw [added, rows]
  simp only [NormalizedRows.append_def, List.append_assoc]

/-! ## The messages that touch no tick size -/

variable (message : Members) (messageIndex : ℕ)

theorem addUpdate_follows (update : ParsedChange) (outcome : Except ReadError Unit) :
    parser.Follows rawReference [] fun state => (state.addUpdate update, outcome) := by
  refine ⟨[update], [], outcome, List.forall_mem_nil _, fun state => ⟨rfl, rfl, ?_⟩⟩
  simp [addUpdate, ParsedEvents.rows, NormalizedRows.append_def, run]

theorem parseChanges_follows (changes : List (JsonValue × ℕ)) :
    parser.Follows rawReference [] (parser.parseChanges envelope message messageIndex rawReference changes) := by
  induction changes with
  | nil => exact .silent (.ok ()) fun _ => ⟨rfl, rfl, rfl⟩
  | cons entry rest ih =>
    obtain ⟨change, changeIndex⟩ := entry
    change parser.Follows rawReference [] fun state =>
      parser.parseChanges envelope message messageIndex rawReference ((change, changeIndex) :: rest)
        state
    simp only [parseChanges]
    cases parser.readUpdate envelope message messageIndex changeIndex rawReference change with
    | error e => exact .silent (.error e) fun _ => ⟨rfl, rfl, rfl⟩
    | ok read =>
      dsimp only
      cases parser.reportedTop envelope read.1 read.2 with
      | error e => exact addUpdate_follows read.1 (.error e)
      | ok top =>
        cases top with
        | none => exact (addUpdate_follows read.1 (.ok ())).then ih
        | some top =>
          have quiet : parser.Follows rawReference [] fun state => (state.addTop top, .ok ()) :=
            .silent (.ok ()) fun _ => ⟨rfl, rfl, rfl⟩
          exact ((addUpdate_follows read.1 (.ok ())).then quiet).then ih

theorem parsePriceChange_follows :
    parser.Follows rawReference [] (parser.parsePriceChange envelope message messageIndex rawReference) := by
  unfold parsePriceChange
  cases message.lookup "price_changes" with
  | none => exact .silent (.ok ()) fun _ => ⟨rfl, rfl, rfl⟩
  | some value =>
    cases value with
    | array changes => exact parseChanges_follows message messageIndex _
    | _ => exact .silent (.error _) fun _ => ⟨rfl, rfl, rfl⟩

theorem rawEventReference_of_readTrade {tokenId : String} {market : MarketRecord}
    {priceScaled : ℤ} {sizeScaled notionalScaled : Option ℤ} {trade : TradeEvent}
    (read : parser.readTrade envelope message messageIndex rawReference tokenId market priceScaled
      sizeScaled notionalScaled = .ok trade) : trade.rawEventReference = rawReference := by
  unfold readTrade at read
  simp only [Except.bind_eq_ok, Except.pure_eq_ok] at read
  obtain ⟨_, _, _, _, _, _, rfl⟩ := read
  rfl

theorem parseTrade_follows :
    parser.Follows rawReference [] (parser.parseTrade envelope message messageIndex rawReference) := by
  unfold parseTrade
  cases parser.readTradeHead message with
  | error e => exact .silent (.error e) fun _ => ⟨rfl, rfl, rfl⟩
  | ok head =>
    dsimp only
    cases parser.readNotional envelope message head.2.2.2.2 head.2.2.2.1 with
    | error e => exact .silent (.error e) fun _ => ⟨rfl, rfl, rfl⟩
    | ok notional =>
      have warned : parser.Follows rawReference [] fun state =>
          (notional.2.elim state state.addQuality, .ok ()) := by
        refine .silent (.ok ()) fun state => ?_
        cases notional.2 <;> exact ⟨rfl, rfl, rfl⟩
      dsimp only
      cases read : parser.readTrade envelope message messageIndex rawReference head.1 head.2.1
          head.2.2.1 head.2.2.2.1 notional.1 with
      | error e =>
        have raised : parser.Follows rawReference [] fun state => (state, .error e) :=
          .silent (.error e) fun _ => ⟨rfl, rfl, rfl⟩
        exact warned.then raised
      | ok trade =>
        have added : parser.Follows rawReference [] fun state => (state.addTrade trade, .ok ()) := by
          refine ⟨[], [trade], .ok (), ?_, fun state => ⟨rfl, rfl, ?_⟩⟩
          · exact List.forall_mem_singleton.mpr (rawEventReference_of_readTrade _ _ read)
          · simp [addTrade, ParsedEvents.rows, NormalizedRows.append_def, run]
        exact warned.then added

theorem parseResolution_follows :
    parser.Follows rawReference [] (parser.parseResolution envelope message rawReference) := by
  unfold parseResolution
  dsimp only
  split
  · exact .silent (.ok ()) fun _ => ⟨rfl, rfl, rfl⟩
  split
  · exact .silent (.ok ()) fun _ => ⟨rfl, rfl, rfl⟩
  split
  · next e _ => exact .silent (.error e) fun _ => ⟨rfl, rfl, rfl⟩
  · exact .silent (.ok ()) fun _ => ⟨rfl, rfl, rfl⟩

theorem parseBestBidAsk_follows : parser.Follows rawReference [] (parser.parseBestBidAsk envelope message) := by
  unfold parseBestBidAsk
  cases parser.readBestBidAsk envelope message with
  | error e => exact .silent (.error e) fun _ => ⟨rfl, rfl, rfl⟩
  | ok top => exact .silent (.ok ()) fun _ => ⟨rfl, rfl, rfl⟩

/-! ## The messages that state or read a tick size -/

@[simp] theorem tickInForce_update (tickSizeByToken : String → Option ℤ) (tokenId : String)
    (tickSizeScaled : ℤ) :
    parser.tickInForce (Function.update tickSizeByToken tokenId (some tickSizeScaled)) =
      Function.update (parser.tickInForce tickSizeByToken) tokenId tickSizeScaled := by
  funext other
  unfold tickInForce
  by_cases own : other = tokenId
  · subst own
    simp
  · simp [Function.update_of_ne own]

theorem marketTick_of_readBookTick {tokenId : String} {market : MarketRecord} {given : Option ℤ}
    (read : parser.readBookTick message = .ok (tokenId, market, given)) :
    parser.marketTick tokenId = market.tickSizeScaled := by
  unfold readBookTick at read
  simp only [Except.bind_eq_ok, Except.pure_eq_ok, Prod.mk.injEq] at read
  obtain ⟨value, _, found, registered, given, _, rfl, rfl, rfl⟩ := read
  unfold marketOf at registered
  unfold marketTick
  cases known : parser.marketForToken (parser.library.str value) with
  | none =>
    rw [known] at registered
    cases registered
  | some market =>
    rw [known] at registered
    cases registered
    rfl

/-- The head of a book: what the message gives, completed by the tick size in force. -/
theorem readBookHead_eq (tickSizeByToken : String → Option ℤ) :
    parser.readBookHead tickSizeByToken message =
      (fun read => (read.1, read.2.1, read.2.2.getD (parser.tickInForce tickSizeByToken read.1))) <$>
        parser.readBookTick message := by
  have complete : ∀ read, parser.readBookTick message = .ok read →
      (tickSizeByToken read.1).getD read.2.1.tickSizeScaled =
        parser.tickInForce tickSizeByToken read.1 := by
    rintro ⟨tokenId, market, given⟩ read
    unfold tickInForce
    rw [marketTick_of_readBookTick message read]
  revert complete
  unfold readBookHead readBookTick
  cases parser.library.getItem message "asset_id" with
  | error e => exact fun _ => rfl
  | ok value =>
    simp only [Except.ok_bind]
    cases parser.marketOf (parser.library.str value) with
    | error e => exact fun _ => rfl
    | ok market =>
      simp only [Except.ok_bind]
      cases parser.optionalScaled (get message "tick_size") polymarketPriceScale "tick_size" with
      | error e => exact fun _ => rfl
      | ok given =>
        intro complete
        cases given with
        | some tickSizeScaled => rfl
        | none =>
          exact congrArg (fun tick => Except.ok (parser.library.str value, market, tick))
            (complete _ rfl)

/-- The tick size of a snapshot is only copied. -/
theorem readSnapshot_tick (tokenId : String) (market : MarketRecord) (tickSizeScaled other : ℤ) :
    parser.readSnapshot envelope message messageIndex rawReference tokenId market tickSizeScaled =
      (fun snapshot : ParsedSnapshot => { snapshot with tickSizeScaled := tickSizeScaled }) <$>
        parser.readSnapshot envelope message messageIndex rawReference tokenId market other := by
  unfold readSnapshot
  cases parser.outcomeOf market tokenId with
  | error e => rfl
  | ok outcome =>
    simp only [Except.ok_bind]
    cases parseTimestampNs parser.library (get message "timestamp") with
    | error e => rfl
    | ok stamp =>
      simp only [Except.ok_bind]
      cases parser.parseLevels message "bids" with
      | error e => rfl
      | ok bids =>
        simp only [Except.ok_bind]
        cases parser.parseLevels message "asks" <;> rfl

theorem parseBook_follows :
    parser.Follows rawReference (parser.bookWords envelope rawReference message messageIndex)
      (parser.parseBook envelope message messageIndex rawReference) := by
  unfold parseBook bookWords
  simp only [readBookHead_eq]
  cases read : parser.readBookTick message with
  | error e => exact .silent (.error e) fun _ => ⟨rfl, rfl, rfl⟩
  | ok head =>
    obtain ⟨tokenId, market, given⟩ := head
    simp only [Functor.map, Except.map]
    cases given with
    | some tickSizeScaled =>
      simp only [Option.getD_some]
      cases parser.readSnapshot envelope message messageIndex rawReference tokenId market
          tickSizeScaled with
      | error e =>
        exact ⟨[], [], .error e, List.forall_mem_nil _, fun state =>
          ⟨rfl, tickInForce_update _ _ _, (NormalizedRows.append_nil _).symm⟩⟩
      | ok snapshot =>
        refine ⟨[], [], .ok (), List.forall_mem_nil _, fun state => ⟨rfl, tickInForce_update _ _ _, ?_⟩⟩
        simp [addSnapshot, setTickSize, ParsedEvents.rows, NormalizedRows.append_def, run, rows]
    | none =>
      simp only [Option.getD_none]
      -- a book without a tick size leaves the one in force as it was
      have kept (state : ParserState) : parser.tickInForce (Function.update state.tickSizeByToken
          tokenId (some (parser.tickInForce state.tickSizeByToken tokenId))) =
          parser.tickInForce state.tickSizeByToken := by
        rw [tickInForce_update, Function.update_eq_self]
      cases alone : parser.readSnapshot envelope message messageIndex rawReference tokenId market
          market.tickSizeScaled with
      | error e =>
        have failed (inForce : ℤ) : parser.readSnapshot envelope message messageIndex rawReference
            tokenId market inForce = .error e := by
          rw [readSnapshot_tick message messageIndex tokenId market inForce market.tickSizeScaled,
            alone]
          rfl
        simp only [failed]
        exact ⟨[], [], .error e, List.forall_mem_nil _, fun state =>
          ⟨rfl, kept state, (NormalizedRows.append_nil _).symm⟩⟩
      | ok snapshot =>
        have copied (inForce : ℤ) : parser.readSnapshot envelope message messageIndex rawReference
            tokenId market inForce = .ok { snapshot with tickSizeScaled := inForce } := by
          rw [readSnapshot_tick message messageIndex tokenId market inForce market.tickSizeScaled,
            alone]
          rfl
        simp only [copied]
        refine ⟨[], [], .ok (), List.forall_mem_nil _, fun state => ⟨rfl, kept state, ?_⟩⟩
        simp [addSnapshot, setTickSize, ParsedEvents.rows, NormalizedRows.append_def, run, rows]

theorem parseClobMessage_follows :
    parser.Follows rawReference (parser.messageWords envelope rawReference (.object message, messageIndex))
      (parser.parseClobMessage envelope message
        (parser.library.textOr message "event_type" "unknown") messageIndex rawReference) := by
  unfold messageWords
  dsimp only
  generalize parser.library.textOr message "event_type" "unknown" = eventType
  by_cases book : eventType = "book"
  · subst book
    exact parseBook_follows message messageIndex
  by_cases tick : eventType = "tick_size_change"
  · subst tick
    change parser.Follows rawReference _ (parser.parseTickSizeChange envelope message messageIndex rawReference)
    unfold parseTickSizeChange
    cases parser.readTickSizeChange envelope message messageIndex rawReference with
    | error e => exact .silent (.error e) fun _ => ⟨rfl, rfl, rfl⟩
    | ok change =>
      exact ⟨[], [], .ok (), List.forall_mem_nil _, fun state =>
        ⟨rfl, tickInForce_update _ _ _, (NormalizedRows.append_nil _).symm⟩⟩
  have none : (match eventType with
      | "book" => parser.bookWords envelope rawReference message messageIndex
      | "tick_size_change" =>
        match parser.readTickSizeChange envelope message messageIndex rawReference with
        | .ok change => [.states change.tokenId change.newTickSizeScaled]
        | .error _ => []
      | _ => []) = [] := by
    split
    · exact absurd rfl book
    · exact absurd rfl tick
    · rfl
  rw [none]
  unfold parseClobMessage
  split
  · exact absurd rfl book
  · exact parsePriceChange_follows message messageIndex
  · exact parseTrade_follows message messageIndex
  · exact absurd rfl tick
  · exact parseResolution_follows message
  · exact parseBestBidAsk_follows message
  · exact .silent (.ok ()) fun _ => ⟨rfl, rfl, rfl⟩
  · exact .silent (.ok ()) fun _ => ⟨rfl, rfl, rfl⟩

theorem stepMessage_follows (entry : JsonValue × ℕ) :
    parser.Follows rawReference (parser.messageWords envelope rawReference entry) fun state =>
      parser.stepMessage envelope rawReference state entry := by
  obtain ⟨value, index⟩ := entry
  cases value with
  | object message =>
    obtain ⟨updates, trades, outcome, referred, each⟩ :=
      (@parseClobMessage_follows parser envelope rawReference message index).eq
    unfold stepMessage
    dsimp only
    generalize parser.library.textOr message "event_type" "unknown" = eventType at each ⊢
    cases outcome with
    | ok done =>
      refine ⟨updates, trades, .ok (), referred, fun state => ?_⟩
      obtain ⟨after, returned, effect⟩ := each (state.addEventType eventType)
      dsimp only
      rw [returned]
      exact ⟨rfl, effect⟩
    | error e =>
      by_cases caught : catchesMessage e
      · refine ⟨updates, trades, .ok (), referred, fun state => ?_⟩
        obtain ⟨after, returned, effect⟩ := each (state.addEventType eventType)
        dsimp only
        rw [returned]
        simp only [if_pos caught]
        exact ⟨trivial, effect⟩
      · refine ⟨updates, trades, .error e, referred, fun state => ?_⟩
        obtain ⟨after, returned, effect⟩ := each (state.addEventType eventType)
        dsimp only
        rw [returned]
        simp only [if_neg caught]
        exact ⟨trivial, effect⟩
  | _ => exact .silent (.ok ()) fun _ => ⟨rfl, rfl, rfl⟩

/-! ## Frames -/

section Frame

variable (parser) (envelope) (rawReference)

/-- The messages of a frame up to one that raises. -/
def runFrame : ParserState → List (JsonValue × ℕ) → ParserState × Except ReadError Unit
  | state, [] => (state, .ok ())
  | state, entry :: rest =>
    match parser.stepMessage envelope rawReference state entry with
    | (after, .ok _) => runFrame after rest
    | (after, .error e) => (after, .error e)

/-- The message raises, whatever tick sizes are in force. -/
def raises (entry : JsonValue × ℕ) : Bool :=
  match (parser.stepMessage envelope rawReference ⟨fun _ => none, {}⟩ entry).2 with
  | .ok _ => false
  | .error _ => true

def frameWords : List (JsonValue × ℕ) → List TickWord
  | [] => []
  | entry :: rest =>
    parser.messageWords envelope rawReference entry ++
      if parser.raises envelope rawReference entry then [] else frameWords rest

variable {parser} {envelope} {rawReference}

theorem runFrame_follows (entries : List (JsonValue × ℕ)) :
    parser.Follows rawReference (parser.frameWords envelope rawReference entries) fun state =>
      parser.runFrame envelope rawReference state entries := by
  induction entries with
  | nil => exact .silent (.ok ()) fun _ => ⟨rfl, rfl, rfl⟩
  | cons entry rest ih =>
    have first : parser.Follows rawReference (parser.messageWords envelope rawReference entry) fun state =>
      parser.stepMessage envelope rawReference state entry := stepMessage_follows entry
    obtain ⟨updates, trades, outcome, referred, each⟩ := first.eq
    obtain ⟨blank, alone, _⟩ := each ⟨fun _ => none, {}⟩
    unfold frameWords raises
    simp only [runFrame, alone]
    cases outcome with
    | error e =>
      simp only [↓reduceIte, List.append_nil]
      refine ⟨updates, trades, .error e, referred, fun state => ?_⟩
      obtain ⟨after, returned, effect⟩ := each state
      simp only [returned]
      exact ⟨trivial, effect⟩
    | ok done =>
      simp only [Bool.false_eq_true, ↓reduceIte]
      refine (congrArg (parser.Follows rawReference _) (funext fun state => ?_)).mp (first.then ih)
      obtain ⟨after, returned, _⟩ := each state
      simp only [returned]

theorem parseMessage_eq (state : ParserState) (entry : JsonValue × ℕ) :
    parser.parseMessage envelope rawReference state entry =
      match parser.stepMessage envelope rawReference state entry with
      | (after, .ok _) => .ok after
      | (_, .error e) => .error e := by
  obtain ⟨value, index⟩ := entry
  cases value with
  | object message =>
    unfold parseMessage stepMessage
    dsimp only
    generalize parser.parseClobMessage envelope message _ index rawReference _ = ran
    rcases ran with ⟨after, e | done⟩
    · by_cases caught : catchesMessage e
      · simp only [if_pos caught]
      · simp only [if_neg caught]
    · rfl
  | _ => rfl

theorem foldlM_parseMessage (state : ParserState) (entries : List (JsonValue × ℕ)) :
    entries.foldlM (parser.parseMessage envelope rawReference) state =
      match parser.runFrame envelope rawReference state entries with
      | (after, .ok _) => .ok after
      | (_, .error e) => .error e := by
  induction entries generalizing state with
  | nil => rfl
  | cons entry rest ih =>
    rw [List.foldlM_cons, parseMessage_eq]
    unfold runFrame
    rcases parser.stepMessage envelope rawReference state entry with ⟨after, e | done⟩
    · rfl
    · exact ih after

theorem rememberedTicks_eq (state : ParserState) (entries : List (JsonValue × ℕ)) :
    parser.rememberedTicks envelope rawReference state entries =
      (parser.runFrame envelope rawReference state entries).1.tickSizeByToken := by
  induction entries generalizing state with
  | nil => rfl
  | cons entry rest ih =>
    unfold rememberedTicks runFrame
    rcases parser.stepMessage envelope rawReference state entry with ⟨after, e | done⟩
    · rfl
    · exact ih after

end Frame

end EventParser

/-! ## Envelopes -/

namespace Normalizer

open EventParser

variable (normalizer : Normalizer)

/-- A reader that leaves the tick sizes and yields the snapshots of its words, and whose level
changes and trades are always the same. -/
def Reads (reference : String) (words : List TickWord)
    (read : (String → Option ℤ) → (String → Option ℤ) × NormalizedRows) : Prop :=
  ∃ updates trades, (∀ trade ∈ trades, trade.rawEventReference = reference) ∧ ∀ tickSizeByToken,
    normalizer.parser.tickInForce (read tickSizeByToken).1 =
        (run (normalizer.parser.tickInForce tickSizeByToken) words).1 ∧
      (read tickSizeByToken).2 =
        ⟨(run (normalizer.parser.tickInForce tickSizeByToken) words).2, updates, trades⟩

def parsedWords (envelope : RawEnvelope) (reference : String) : List TickWord :=
  match envelope.source, normalizer.parser.library.loads envelope.payloadRaw with
  | .clobMarketWs, .ok payload =>
    let reference := referenceOf envelope (some reference)
    let entries := (messages payload).zipIdx
    let words := normalizer.parser.frameWords envelope reference entries
    if envelope.payloadRaw = "PONG" then []
    else
      match (normalizer.parser.runFrame envelope reference ⟨fun _ => none, {}⟩ entries).2 with
      | .ok _ => words
      | .error _ => statements words
  | _, _ => []

/-- The words of an envelope; one that raises keeps what it has stated. -/
def envelopeWords (envelope : RawEnvelope) (reference : String) : List TickWord :=
  match envelope.source with
  | .clobRest =>
    if normalizer.isOperational envelope then []
    else
      match normalizer.restSnapshot envelope reference with
      | .ok (some snapshot) => [.yields snapshot]
      | _ => []
  | .clobMarketWs | .rtds =>
    if normalizer.isOperational envelope then [] else normalizer.parsedWords envelope reference
  | _ => []

variable {normalizer} {envelope : RawEnvelope} {reference name : String}

/-- A reader without an effect. -/
theorem reads_nothing : normalizer.Reads name [] fun tickSizeByToken => (tickSizeByToken, {}) :=
  ⟨[], [], List.forall_mem_nil _, fun _ => ⟨rfl, rfl⟩⟩

theorem parseRtds_rows {tickSizeByToken : String → Option ℤ} {name : Option String}
    {after : ParserState}
    (parsed : normalizer.parser.parseRtds envelope name tickSizeByToken = .ok after) :
    after.tickSizeByToken = tickSizeByToken ∧ after.result.rows = {} := by
  unfold parseRtds at parsed
  dsimp only at parsed
  split at parsed
  · cases parsed
    exact ⟨rfl, rfl⟩
  split at parsed
  · cases parsed
    exact ⟨rfl, rfl⟩
  split at parsed
  · split at parsed
    · cases parsed
      exact ⟨rfl, rfl⟩
    · cases parsed
  · unfold parseRtdsMessage at parsed
    dsimp only at parsed
    split at parsed
    · cases parsed
      exact ⟨rfl, rfl⟩
    split at parsed
    · cases parsed
      exact ⟨rfl, rfl⟩
    split at parsed
    · unfold parsePrice at parsed
      dsimp only at parsed
      split at parsed
      · split at parsed
        · cases parsed
          exact ⟨rfl, rfl⟩
        · cases parsed
      · simp only [Except.bind_eq_ok, Except.pure_eq_ok] at parsed
        obtain ⟨_, _, _, _, rfl⟩ := parsed
        exact ⟨rfl, rfl⟩
    · cases parsed
      exact ⟨rfl, rfl⟩
  · cases parsed
    exact ⟨rfl, rfl⟩

theorem parsedRows_reads :
    normalizer.Reads (referenceOf envelope (some reference)) (normalizer.parsedWords envelope reference)
      (normalizer.parsedRows envelope reference) := by
  unfold parsedRows parsedWords parse ticksAfterRaise
  have same {name : String} : normalizer.Reads name [] fun tickSizeByToken =>
      (tickSizeByToken, ({} : NormalizedRows)) := reads_nothing
  have quiet {name : String} (read : (String → Option ℤ) → (String → Option ℤ) × NormalizedRows)
      (eq : ∀ ticks, read ticks = (ticks, {})) : normalizer.Reads name [] read :=
    (congrArg (normalizer.Reads name []) (funext eq)).mpr same
  cases source : envelope.source with
  | clobMarketWs =>
    dsimp only
    unfold parseClob
    by_cases pong : envelope.payloadRaw = "PONG"
    · simp only [if_pos pong]
      split <;> exact quiet _ fun _ => rfl
    simp only [if_neg pong]
    cases normalizer.parser.library.loads envelope.payloadRaw with
    | error e =>
      refine quiet _ fun ticks => ?_
      by_cases caught : catchesJson e
      · simp only [if_pos caught]
        rfl
      · simp only [if_neg caught]
    | ok payload =>
      simp only [foldlM_parseMessage, rememberedTicks_eq]
      generalize referenceOf envelope (some reference) = name
      obtain ⟨updates, trades, outcome, referred, each⟩ :=
        (@runFrame_follows normalizer.parser envelope name (messages payload).zipIdx).eq
      obtain ⟨blank, alone, _⟩ := each ⟨fun _ => none, {}⟩
      rw [alone]
      cases outcome with
      | ok done =>
        refine ⟨updates, trades, referred, fun ticks => ?_⟩
        obtain ⟨after, returned, inForce, rows⟩ := each ⟨ticks, {}⟩
        simp only [returned]
        exact ⟨inForce, rows⟩
      | error e =>
        refine ⟨[], [], List.forall_mem_nil _, fun ticks => ?_⟩
        obtain ⟨after, returned, inForce, _⟩ := each ⟨ticks, {}⟩
        simp only [returned, run_statements]
        exact ⟨inForce, trivial⟩
  | rtds =>
    dsimp only
    refine quiet _ fun ticks => ?_
    cases parsed : normalizer.parser.parseRtds envelope (some reference) ticks with
    | error e => rfl
    | ok after =>
      obtain ⟨kept, none⟩ := parseRtds_rows parsed
      exact Prod.ext kept none
  | _ => exact quiet _ fun _ => rfl

/-- An envelope leaves the tick sizes and yields the snapshots of its words. -/
theorem envelopeRows_reads :
    normalizer.Reads (referenceOf envelope (some reference)) (normalizer.envelopeWords envelope reference)
      (normalizer.envelopeRows envelope reference) := by
  have parsed : normalizer.Reads (referenceOf envelope (some reference))
      (if normalizer.isOperational envelope then [] else normalizer.parsedWords envelope reference)
      fun ticks => if normalizer.isOperational envelope then (ticks, {})
        else normalizer.parsedRows envelope reference ticks := by
    cases normalizer.isOperational envelope with
    | true => exact reads_nothing
    | false => exact parsedRows_reads
  unfold envelopeRows envelopeWords
  cases envelope.source with
  | clobMarketWs => exact parsed
  | rtds => exact parsed
  | clobRest =>
    dsimp only
    cases normalizer.isOperational envelope with
    | true => exact reads_nothing
    | false =>
      simp only [Bool.false_eq_true, ↓reduceIte]
      rcases normalizer.restSnapshot envelope reference with e | _ | snapshot
      · exact reads_nothing
      · exact reads_nothing
      · exact ⟨[], [], List.forall_mem_nil _, fun _ => ⟨rfl, rfl⟩⟩
  | _ => exact reads_nothing

/-! ## Sequences of envelopes -/

section Sequences

variable (normalizer)

/-- The words, the level changes and the trades of a file. -/
def fileWords (file : FinalizedFile) : List TickWord :=
  file.envelopes.flatMap fun entry =>
    normalizer.envelopeWords entry.1 (rawReference file.fileId entry.2)

def envelopeUpdates (envelope : RawEnvelope) (reference : String) : List ParsedChange :=
  (normalizer.envelopeRows envelope reference fun _ => none).2.updates

def envelopeTrades (envelope : RawEnvelope) (reference : String) : List TradeEvent :=
  (normalizer.envelopeRows envelope reference fun _ => none).2.trades

def fileUpdates (file : FinalizedFile) : List ParsedChange :=
  file.envelopes.flatMap fun entry =>
    normalizer.envelopeUpdates entry.1 (rawReference file.fileId entry.2)

def fileTrades (file : FinalizedFile) : List TradeEvent :=
  file.envelopes.flatMap fun entry =>
    normalizer.envelopeTrades entry.1 (rawReference file.fileId entry.2)

variable {normalizer}

theorem envelopeRows_eq (ticks : String → Option ℤ) :
    normalizer.parser.tickInForce (normalizer.envelopeRows envelope reference ticks).1 =
        (run (normalizer.parser.tickInForce ticks) (normalizer.envelopeWords envelope reference)).1 ∧
      (normalizer.envelopeRows envelope reference ticks).2 =
        ⟨(run (normalizer.parser.tickInForce ticks) (normalizer.envelopeWords envelope reference)).2,
          normalizer.envelopeUpdates envelope reference,
          normalizer.envelopeTrades envelope reference⟩ := by
  obtain ⟨updates, trades, _, each⟩ := @envelopeRows_reads normalizer envelope reference
  unfold envelopeUpdates envelopeTrades
  rw [(each fun _ => none).2]
  exact each ticks

theorem readRows_cons (entry : RawEnvelope × String) (rest : List (RawEnvelope × String))
    (ticks : String → Option ℤ) :
    normalizer.readRows (entry :: rest) ticks =
      ((normalizer.readRows rest (normalizer.envelopeRows entry.1 entry.2 ticks).1).1,
        (normalizer.envelopeRows entry.1 entry.2 ticks).2 ++
          (normalizer.readRows rest (normalizer.envelopeRows entry.1 entry.2 ticks).1).2) := by
  have behind (readings : List (RawEnvelope × String)) (ticks : String → Option ℤ)
      (rows : NormalizedRows) :
      readings.foldl (fun read entry =>
          ((normalizer.envelopeRows entry.1 entry.2 read.1).1,
            read.2 ++ (normalizer.envelopeRows entry.1 entry.2 read.1).2)) (ticks, rows) =
        ((normalizer.readRows readings ticks).1,
          rows ++ (normalizer.readRows readings ticks).2) := by
    unfold readRows
    induction readings generalizing ticks rows with
    | nil => simp
    | cons entry rest ih =>
      rw [List.foldl_cons, List.foldl_cons, ih, ih _ ({} ++ _)]
      simp [NormalizedRows.append_def]
  unfold readRows
  rw [List.foldl_cons]
  refine (behind rest _ _).trans ?_
  simp [NormalizedRows.append_def, readRows]

/-- A sequence of envelopes yields the snapshots of its words in order, and its other rows whatever
tick sizes are in force. -/
theorem readRows_eq (readings : List (RawEnvelope × String)) (ticks : String → Option ℤ) :
    (normalizer.readRows readings ticks).2 =
      ⟨(run (normalizer.parser.tickInForce ticks)
          (readings.flatMap fun entry => normalizer.envelopeWords entry.1 entry.2)).2,
        readings.flatMap fun entry => normalizer.envelopeUpdates entry.1 entry.2,
        readings.flatMap fun entry => normalizer.envelopeTrades entry.1 entry.2⟩ := by
  induction readings generalizing ticks with
  | nil => rfl
  | cons entry rest ih =>
    obtain ⟨inForce, rows⟩ := @envelopeRows_eq normalizer entry.1 entry.2 ticks
    rw [readRows_cons, ih, rows, inForce]
    simp only [NormalizedRows.append_def, List.flatMap_cons, run_append]

/-- The rows of a run, as those of its files. -/
theorem runRows_eq (files : List FinalizedFile) :
    normalizer.runRows files =
      ⟨(run normalizer.parser.marketTick (files.flatMap normalizer.fileWords)).2,
        files.flatMap normalizer.fileUpdates,
        deduplicateTrades (files.flatMap normalizer.fileTrades)⟩ := by
  unfold runRows
  rw [readRows_eq]
  have fresh : normalizer.parser.tickInForce (fun _ => none) = normalizer.parser.marketTick := rfl
  rw [fresh]
  simp only [readings, List.flatMap_assoc, List.flatMap_map]
  rfl

end Sequences

/-! ## Names -/

section Names

private theorem repr_inj {n m : ℕ} (same : n.repr = m.repr) : n = m := by
  have digits := congrArg String.toList same
  rw [Nat.toList_repr, Nat.toList_repr] at digits
  rw [← @Nat.ofDigitChars_ten_toDigits n, digits, Nat.ofDigitChars_ten_toDigits]

private theorem stem_inj {stem other left right : List Char} (noColon : ':' ∉ left)
    (noOther : ':' ∉ right) (same : stem ++ ':' :: left = other ++ ':' :: right) :
    stem = other ∧ left = right := by
  rcases List.append_eq_append_iff.mp same with ⟨middle, rfl, tail⟩ | ⟨middle, rfl, tail⟩
  · cases middle with
    | nil => exact ⟨(List.append_nil _).symm, (List.cons.inj tail).2⟩
    | cons c rest => exact absurd (by rw [(List.cons.inj tail).2]; simp) noColon
  · cases middle with
    | nil => exact ⟨List.append_nil _, (List.cons.inj tail).2.symm⟩
    | cons c rest => exact absurd (by rw [(List.cons.inj tail).2]; simp) noOther

/-- A reference names its file and its line. -/
theorem rawReference_inj {fileId otherId : String} {line otherLine : ℕ}
    (same : rawReference fileId line = rawReference otherId otherLine) :
    fileId = otherId ∧ line = otherLine := by
  have noColon (n : ℕ) : ':' ∉ n.repr.toList := by
    rw [Nat.toList_repr]
    intro member
    simpa using Nat.isDigit_of_mem_toDigits (by decide) (by decide) member
  have chars := congrArg String.toList same
  have colon : (":" : String).toList = [':'] := rfl
  simp only [rawReference, String.toList_append, Nat.toString_eq_repr, colon, List.append_assoc]
    at chars
  obtain ⟨stems, lines⟩ := stem_inj (noColon line) (noColon otherLine) chars
  exact ⟨String.toList_inj.mp stems, repr_inj (String.toList_inj.mp lines)⟩

theorem referenceOf_rawReference (fileId : String) (line : ℕ) :
    referenceOf envelope (some (rawReference fileId line)) = rawReference fileId line := by
  refine if_neg fun empty => ?_
  have chars := congrArg String.toList empty
  simp [rawReference] at chars

theorem eventId_inj (collisionFree : Function.Injective normalizer.parser.library.uuid5) {i j : ℕ}
    {kind : String}
    (same : normalizer.parser.eventId envelope i kind = normalizer.parser.eventId envelope j kind) :
    i = j := by
  have names := collisionFree same
  simp only [String.append_left_inj, String.append_right_inj, Nat.toString_eq_repr] at names
  exact repr_inj names

theorem envelopeTrades_reference {trade : TradeEvent}
    (member : trade ∈ normalizer.envelopeTrades envelope reference) :
    trade.rawEventReference = referenceOf envelope (some reference) := by
  obtain ⟨updates, trades, referred, each⟩ := @envelopeRows_reads normalizer envelope reference
  unfold envelopeTrades at member
  rw [(each fun _ => none).2] at member
  exact referred trade member

/-- A trade of a file names the file. -/
theorem fileTrades_reference {file : FinalizedFile} {trade : TradeEvent}
    (member : trade ∈ normalizer.fileTrades file) :
    ∃ line, trade.rawEventReference = rawReference file.fileId line := by
  obtain ⟨entry, _, inEntry⟩ := List.mem_flatMap.mp member
  exact ⟨entry.2, (envelopeTrades_reference inEntry).trans (referenceOf_rawReference _ _)⟩

/-- The place a snapshot was read from, and its identifier. -/
def NormalizedSnapshot.identity (snapshot : NormalizedSnapshot) : String × String :=
  (snapshot.rawEventReference, snapshot.snapshotId)

variable {inForce : String → ℤ}

theorem readSnapshot_identity {message : Members} {index : ℕ} {name tokenId : String}
    {market : MarketRecord} {tickSizeScaled : ℤ} {snapshot : ParsedSnapshot}
    (read : normalizer.parser.readSnapshot envelope message index name tokenId market
      tickSizeScaled = .ok snapshot) :
    snapshot.rawEventReference = name ∧
      snapshot.snapshotId = normalizer.parser.eventId envelope index "book" := by
  unfold readSnapshot at read
  simp only [Except.bind_eq_ok, Except.pure_eq_ok] at read
  obtain ⟨_, _, _, _, _, _, _, _, rfl⟩ := read
  exact ⟨rfl, rfl⟩

theorem messageWords_identity (entry : JsonValue × ℕ) :
    ((run inForce (normalizer.parser.messageWords envelope reference entry)).2.map
        NormalizedSnapshot.identity).Sublist
      [(reference, normalizer.parser.eventId envelope entry.2 "book")] := by
  obtain ⟨value, index⟩ := entry
  cases value with
  | object message =>
    unfold messageWords
    dsimp only
    split
    · unfold bookWords
      split
      · exact List.nil_sublist _
      · next tokenId market given _ =>
        split
        · next read =>
          obtain ⟨referred, named⟩ := readSnapshot_identity read
          simp [run, rows, NormalizedSnapshot.identity, referred, named]
        · exact List.nil_sublist _
        · next read =>
          obtain ⟨referred, named⟩ := readSnapshot_identity read
          simp [run, rows, NormalizedSnapshot.identity, referred, named]
        · exact List.nil_sublist _
    · split <;> exact List.nil_sublist _
    · exact List.nil_sublist _
  | _ => exact List.nil_sublist _

theorem frameWords_identity (entries : List (JsonValue × ℕ)) :
    ((run inForce (normalizer.parser.frameWords envelope reference entries)).2.map
        NormalizedSnapshot.identity).Sublist
      (entries.map fun entry =>
        (reference, normalizer.parser.eventId envelope entry.2 "book")) := by
  induction entries generalizing inForce with
  | nil => exact List.nil_sublist _
  | cons entry rest ih =>
    unfold frameWords
    rw [run_append, List.map_append, List.map_cons]
    refine List.Sublist.append (messageWords_identity entry) ?_
    split
    · exact List.nil_sublist _
    · exact ih

theorem restSnapshot_reference {snapshot : NormalizedSnapshot}
    (read : normalizer.restSnapshot envelope reference = .ok (some snapshot)) :
    snapshot.rawEventReference = reference := by
  unfold restSnapshot at read
  dsimp only at read
  split at read
  · cases read
  split at read
  · cases read
  rw [Except.bind_eq_ok] at read
  obtain ⟨payload, _, read⟩ := read
  split at read
  · simp only [Except.bind_eq_ok, Except.pure_eq_ok, Option.some.injEq] at read
    obtain ⟨found, read, rfl⟩ := read
    unfold readRestSnapshot at read
    simp only [Except.bind_eq_ok, Except.pure_eq_ok] at read
    obtain ⟨_, _, _, _, _, _, _, _, _, _, _, _, _, _, rfl⟩ := read
    rfl
  · cases read

/-- The snapshots of an envelope name its place, and no two have one identity. -/
theorem envelopeWords_identity (collisionFree : Function.Injective normalizer.parser.library.uuid5)
    (fileId : String) (line : ℕ) :
    ((run inForce (normalizer.envelopeWords envelope (rawReference fileId line))).2.map
        NormalizedSnapshot.identity).Nodup ∧
      ∀ row ∈ (run inForce (normalizer.envelopeWords envelope (rawReference fileId line))).2,
        row.rawEventReference = rawReference fileId line := by
  have frame (entries : List JsonValue) :
      let words := normalizer.parser.frameWords envelope (rawReference fileId line) entries.zipIdx
      ((run inForce words).2.map NormalizedSnapshot.identity).Nodup ∧
        ∀ row ∈ (run inForce words).2, row.rawEventReference = rawReference fileId line := by
    have within := @frameWords_identity normalizer envelope (rawReference fileId line) inForce
      entries.zipIdx
    constructor
    · refine within.nodup ?_
      have distinct : (entries.zipIdx.map Prod.snd).Nodup := by
        rw [List.zipIdx_map_snd]
        exact List.nodup_range'
      have named : Function.Injective fun index =>
          (rawReference fileId line, normalizer.parser.eventId envelope index "book") :=
        fun i j same => eventId_inj collisionFree (Prod.mk.inj same).2
      have each := distinct.map named
      rw [List.map_map] at each
      exact each
    · intro row member
      obtain ⟨entry, _, same⟩ := List.mem_map.mp (within.subset (List.mem_map_of_mem member))
      exact (Prod.mk.inj same).1.symm
  have nothing : ((run inForce ([] : List TickWord)).2.map NormalizedSnapshot.identity).Nodup ∧
      ∀ row ∈ (run inForce ([] : List TickWord)).2,
        row.rawEventReference = rawReference fileId line :=
    ⟨List.nodup_nil, List.forall_mem_nil _⟩
  have parsed : ((run inForce (normalizer.parsedWords envelope (rawReference fileId line))).2.map
        NormalizedSnapshot.identity).Nodup ∧
      ∀ row ∈ (run inForce (normalizer.parsedWords envelope (rawReference fileId line))).2,
        row.rawEventReference = rawReference fileId line := by
    unfold parsedWords
    rw [referenceOf_rawReference]
    split
    · split
      · exact nothing
      dsimp only
      split
      · exact frame _
      · rw [run_statements]
        exact nothing
    · exact nothing
  unfold envelopeWords
  split
  · split
    · exact nothing
    split
    · next read =>
      exact ⟨List.nodup_singleton _, List.forall_mem_singleton.mpr (restSnapshot_reference read)⟩
    · exact nothing
  · split
    · exact nothing
    · exact parsed
  · split
    · exact nothing
    · exact parsed
  · exact nothing

/-- The snapshots of a file name its lines, and no two have one identity. -/
theorem fileWords_identity (collisionFree : Function.Injective normalizer.parser.library.uuid5)
    (file : FinalizedFile) (distinct : (file.envelopes.map Prod.snd).Nodup) :
    ((run inForce (normalizer.fileWords file)).2.map NormalizedSnapshot.identity).Nodup ∧
      ∀ row ∈ (run inForce (normalizer.fileWords file)).2,
        ∃ line ∈ file.envelopes.map Prod.snd, row.rawEventReference = rawReference file.fileId line := by
  unfold fileWords
  generalize file.envelopes = envelopes at distinct ⊢
  induction envelopes generalizing inForce with
  | nil => exact ⟨List.nodup_nil, List.forall_mem_nil _⟩
  | cons entry rest ih =>
    obtain ⟨fresh, distinct⟩ := List.nodup_cons.mp distinct
    obtain ⟨own, names⟩ :=
      @envelopeWords_identity normalizer entry.1 inForce collisionFree file.fileId entry.2
    rw [List.flatMap_cons, run_append]
    obtain ⟨others, otherNames⟩ := @ih _ distinct
    refine ⟨?_, fun row member => ?_⟩
    · rw [List.map_append]
      refine own.append others ?_
      intro identity here there
      obtain ⟨row, member, rfl⟩ := List.mem_map.mp here
      obtain ⟨other, otherMember, same⟩ := List.mem_map.mp there
      obtain ⟨line, inRest, named⟩ := otherNames other otherMember
      have references : rawReference file.fileId line = rawReference file.fileId entry.2 :=
        named.symm.trans ((Prod.mk.inj same).1.trans (names row member))
      exact fresh ((rawReference_inj references).2 ▸ inRest)
    · rcases List.mem_append.mp member with here | there
      · exact ⟨entry.2, List.mem_cons_self, names row here⟩
      · obtain ⟨line, inRest, named⟩ := otherNames row there
        exact ⟨line, List.mem_cons_of_mem _ inRest, named⟩

/-! ## Rows that lean on a tick size -/

theorem bookWords_copies {message : Members} {index : ℕ} {name tokenId : String}
    {row : ℤ → NormalizedSnapshot}
    (member : .leans tokenId row ∈ normalizer.parser.bookWords envelope name message index) :
    ∃ snapshot : ParsedSnapshot,
      row = fun inForce => ⟨{ snapshot with tickSizeScaled := inForce }, none⟩ := by
  unfold bookWords at member
  split at member
  · cases member
  · split at member
    · simp at member
    · simp at member
    · simp only [List.mem_singleton, leans.injEq] at member
      exact ⟨_, member.2⟩
    · cases member

theorem frameWords_copies {entries : List (JsonValue × ℕ)} {name tokenId : String}
    {row : ℤ → NormalizedSnapshot}
    (member : .leans tokenId row ∈ normalizer.parser.frameWords envelope name entries) :
    ∃ snapshot : ParsedSnapshot,
      row = fun inForce => ⟨{ snapshot with tickSizeScaled := inForce }, none⟩ := by
  induction entries with
  | nil => cases member
  | cons entry rest ih =>
    unfold frameWords at member
    rcases List.mem_append.mp member with here | there
    · unfold messageWords at here
      split at here
      · split at here
        · exact bookWords_copies here
        · split at here
          · simp at here
          · cases here
        · cases here
      · cases here
    · split at there
      · cases there
      · exact ih there

/-- A snapshot that leans on a tick size copies it. -/
theorem leansOn_copies {file : FinalizedFile} {tokenId : String} {row : ℤ → NormalizedSnapshot}
    (leansOn : LeansOn (normalizer.fileWords file) tokenId row) :
    ∃ snapshot : ParsedSnapshot,
      row = fun inForce => ⟨{ snapshot with tickSizeScaled := inForce }, none⟩ := by
  obtain ⟨earlier, later, split, _⟩ := leansOn
  have member : .leans tokenId row ∈ normalizer.fileWords file := split ▸ by simp
  obtain ⟨entry, _, inEntry⟩ := List.mem_flatMap.mp member
  have parsed (inWords : .leans tokenId row ∈
      normalizer.parsedWords entry.1 (rawReference file.fileId entry.2)) :
      ∃ snapshot : ParsedSnapshot,
        row = fun inForce => ⟨{ snapshot with tickSizeScaled := inForce }, none⟩ := by
    unfold parsedWords at inWords
    split at inWords
    · dsimp only at inWords
      split at inWords
      · cases inWords
      split at inWords
      · exact frameWords_copies inWords
      · exact frameWords_copies (List.mem_of_mem_filter inWords)
    · cases inWords
  unfold envelopeWords at inEntry
  split at inEntry
  · split at inEntry
    · cases inEntry
    split at inEntry
    · simp at inEntry
    · cases inEntry
  · split at inEntry
    · cases inEntry
    · exact parsed inEntry
  · split at inEntry
    · cases inEntry
    · exact parsed inEntry
  · cases inEntry

end Names

end Normalizer

end PolymarketBt
