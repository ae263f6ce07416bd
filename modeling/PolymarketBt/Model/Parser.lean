import PolymarketBt.Model.Clock
import PolymarketBt.Model.RawArchive
import PolymarketBt.Model.Reconstructor

/-! # Parsing venue frames into events

A frame is one JSON value or a list of them. The parser adds the events of each message to one
result as it goes and remembers tick sizes between messages; a message that raises is counted and
leaves behind what it had already added. The market registry and the libraries are parameters.
-/

namespace PolymarketBt

def btcPriceScale : ℤ := 1000000000000
def bpsScale : ℤ := 1000000

/-- What the parser reads of a market. -/
structure MarketRecord where
  conditionId : String
  tickSizeScaled : ℤ
  minimumOrderSizeScaled : ℤ
  negRisk : Bool
  tokenOutcomes : String → Option String

/-! ## The parsed records -/

structure ParsedSnapshot extends BookSnapshot where
  snapshotId : String
  runId : String
  connectionId : String
  exchangeTimestampNs : Option ℤ
  receivedMonotonicNs : ℤ
  negRisk : Bool
  rawEventReference : String
deriving DecidableEq, Repr

structure ParsedChange extends BookLevelChange where
  parentEventId : String
  changeIndex : ℕ
  outcome : String
  exchangeTimestampNs : Option ℤ
  receivedMonotonicNs : ℤ
  connectionId : String
  rawEventReference : String
deriving DecidableEq, Repr

structure ParsedTickSizeChange extends TickSizeChange where
  tickChangeId : String
  exchangeTimestampNs : Option ℤ
  receivedMonotonicNs : ℤ
  oldTickSizeScaled : Option ℤ
  connectionId : String
  source : String
  rawEventReference : String
deriving DecidableEq, Repr

structure TopOfBook where
  conditionId : String
  tokenId : String
  sequence : ℤ
  receivedUtcNs : ℤ
  bestBidScaled : Option ℤ
  bestAskScaled : Option ℤ
  spreadScaled : Option ℤ
  midpointScaled : Option ℤ
  bidSizeScaled : Option ℤ
  askSizeScaled : Option ℤ
deriving DecidableEq, Repr

structure TradeEvent where
  tradeEventId : String
  sequence : ℤ
  conditionId : String
  tokenId : String
  outcome : String
  exchangeTimestampNs : Option ℤ
  receivedUtcNs : ℤ
  receivedMonotonicNs : ℤ
  priceScaled : ℤ
  sizeScaled : Option ℤ
  notionalScaled : Option ℤ
  reportedSide : Option String
  feeRateBpsScaled : Option ℤ
  transactionHash : Option String
  tradeIdWhenAvailable : Option String
  source : String
  rawEventReference : String
deriving DecidableEq, Repr

structure BtcPriceEvent where
  priceEventId : String
  sequence : ℤ
  source : String
  topic : String
  symbol : String
  rtdsEnvelopeTimestampNs : Option ℤ
  underlyingSourceTimestampNs : Option ℤ
  receivedUtcNs : ℤ
  receivedMonotonicNs : ℤ
  priceScaled : ℤ
  connectionId : String
  rawEventReference : String
deriving DecidableEq, Repr

structure Resolution where
  conditionId : String
  winningTokenId : String
  winningOutcome : String
  exchangeTimestampNs : Option ℤ
  receivedUtcNs : ℤ
  sequence : ℤ
  source : String
  rawEventReference : String
deriving DecidableEq, Repr

inductive Severity where
  | warning
  | error
deriving DecidableEq, Repr

structure DataQualityEvent where
  severity : Severity
  category : String
  conditionId : Option String
  tokenId : Option String
  startUtcNs : ℤ
  endUtcNs : Option ℤ
  firstSequence : Option ℤ
  lastSequence : Option ℤ
  details : String
  replayEligible : Bool
deriving DecidableEq, Repr

/-- Everything one frame yields, in the order it was added. -/
structure ParsedEvents where
  snapshots : List ParsedSnapshot := []
  updates : List ParsedChange := []
  trades : List TradeEvent := []
  btcPrices : List BtcPriceEvent := []
  topOfBook : List TopOfBook := []
  resolutions : List Resolution := []
  tickSizeChanges : List ParsedTickSizeChange := []
  quality : List DataQualityEvent := []
  eventTypes : List String := []
  unknownCount : ℕ := 0
  invalidCount : ℕ := 0
deriving DecidableEq, Repr

/-- The result so far, and the last tick size seen for each token. -/
structure ParserState where
  tickSizeByToken : String → Option ℤ
  result : ParsedEvents

namespace ParserState

variable (state : ParserState)

def setTickSize (tokenId : String) (tickSizeScaled : ℤ) : ParserState :=
  { state with
    tickSizeByToken := Function.update state.tickSizeByToken tokenId (some tickSizeScaled) }

def addSnapshot (snapshot : ParsedSnapshot) (top : TopOfBook) : ParserState :=
  { state with
    result := { state.result with
      snapshots := state.result.snapshots ++ [snapshot]
      topOfBook := state.result.topOfBook ++ [top] } }

def addUpdate (update : ParsedChange) : ParserState :=
  { state with result := { state.result with updates := state.result.updates ++ [update] } }

def addTop (top : TopOfBook) : ParserState :=
  { state with result := { state.result with topOfBook := state.result.topOfBook ++ [top] } }

def addTrade (trade : TradeEvent) : ParserState :=
  { state with result := { state.result with trades := state.result.trades ++ [trade] } }

def addBtcPrice (price : BtcPriceEvent) : ParserState :=
  { state with result := { state.result with btcPrices := state.result.btcPrices ++ [price] } }

def addTickSizeChange (change : ParsedTickSizeChange) : ParserState :=
  { state with
    result := { state.result with
      tickSizeChanges := state.result.tickSizeChanges ++ [change] } }

def addResolution (resolution : Resolution) : ParserState :=
  { state with
    result := { state.result with resolutions := state.result.resolutions ++ [resolution] } }

def addQuality (quality : DataQualityEvent) : ParserState :=
  { state with result := { state.result with quality := state.result.quality ++ [quality] } }

def addEventType (eventType : String) : ParserState :=
  { state with
    result := { state.result with eventTypes := state.result.eventTypes ++ [eventType] } }

/-- Count an invalid message, with the record that says why. -/
def countInvalid (quality : DataQualityEvent) : ParserState :=
  { state with
    result := { state.result with
      invalidCount := state.result.invalidCount + 1
      quality := state.result.quality ++ [quality] } }

def countUnknown (quality : DataQualityEvent) : ParserState :=
  { state with
    result := { state.result with
      unknownCount := state.result.unknownCount + 1
      quality := state.result.quality ++ [quality] } }

end ParserState

def quality (envelope : RawEnvelope) (category details : String) (severity : Severity := .error)
    (replayEligible : Bool := false) : DataQualityEvent where
  severity := severity
  category := category
  conditionId := envelope.marketId
  tokenId := envelope.tokenId
  startUtcNs := envelope.receivedUtcNs
  endUtcNs := some envelope.receivedUtcNs
  firstSequence := some envelope.sequence
  lastSequence := some envelope.sequence
  details := details
  replayEligible := replayEligible

/-- The difference and the midpoint of two quotes. -/
def quoteSpread (bid ask : Option ℤ) : Option ℤ :=
  match bid, ask with
  | some bid, some ask => some (ask - bid)
  | _, _ => none

def quoteMidpoint (bid ask : Option ℤ) : Option ℤ :=
  match bid, ask with
  | some bid, some ask => some ((ask + bid) / 2)
  | _, _ => none

/-- The members of a message. -/
abbrev Members := List (String × JsonValue)

/-- A parser: its libraries and its market registry. -/
structure EventParser where
  library : Library
  marketForToken : String → Option MarketRecord

namespace EventParser

open JsonValue

variable (parser : EventParser)

def scaled (value : JsonValue) (scale : ℤ) (field : String) : Except ReadError ℤ :=
  decimalToScaled parser.library (parser.library.str value) scale field

/-- A decimal that may be missing, null or empty. -/
def optionalScaled (value : JsonValue) (scale : ℤ) (field : String) :
    Except ReadError (Option ℤ) := do
  if ← value.blank then return none
  return some (← parser.scaled value scale field)

/-- A reported quote: 0 and 1 report an empty side and are kept, and values outside are dropped. -/
def boundaryPrice (value : JsonValue) : Except ReadError (Option ℤ) := do
  match ← parser.optionalScaled value polymarketPriceScale "reported_best" with
  | none => return none
  | some scaled => return if 0 ≤ scaled ∧ scaled ≤ polymarketPriceScale then some scaled else none

/-- Reported quotes as a top of book: bid, ask, spread and midpoint. -/
def reportedTopValues (rawBid rawAsk : JsonValue) :
    Except ReadError (Option ℤ × Option ℤ × Option ℤ × Option ℤ) := do
  let reportedBid ← parser.boundaryPrice rawBid
  let reportedAsk ← parser.boundaryPrice rawAsk
  let bid := if reportedBid = some 0 then none else reportedBid
  let ask := if reportedAsk = some polymarketPriceScale then none else reportedAsk
  return (bid, ask, quoteSpread bid ask, quoteMidpoint bid ask)

/-- The market of a token, which has to be registered. -/
def marketOf (tokenId : String) : Except ReadError MarketRecord :=
  match parser.marketForToken tokenId with
  | some market => .ok market
  | none => .error ⟨.valueError, s!"unknown token mapping: {tokenId}"⟩

def outcomeOf (market : MarketRecord) (tokenId : String) : Except ReadError String :=
  match market.tokenOutcomes tokenId with
  | some outcome => .ok outcome
  | none => .error ⟨.keyError, parser.library.repr (.text tokenId)⟩

/-- An identifier derived from the place of a message. -/
def eventId (envelope : RawEnvelope) (messageIndex : ℕ) (kind : String) : String :=
  parser.library.uuid5 s!"{envelope.runId}:{envelope.sequence}:{messageIndex}:{kind}"

/-! ## Books -/

/-- The token, the market and the tick size of a book message. -/
def readBookHead (tickSizeByToken : String → Option ℤ) (message : Members) :
    Except ReadError (String × MarketRecord × ℤ) := do
  let tokenId := parser.library.str (← parser.library.getItem message "asset_id")
  let market ← parser.marketOf tokenId
  match ← parser.optionalScaled (get message "tick_size") polymarketPriceScale "tick_size" with
  | some tickSizeScaled => return (tokenId, market, tickSizeScaled)
  | none => return (tokenId, market, (tickSizeByToken tokenId).getD market.tickSizeScaled)

def readLevel : JsonValue → Except ReadError (Option BookLevel)
  | .object level => do
    let priceScaled ← parser.scaled (← parser.library.getItem level "price")
      polymarketPriceScale "book_price"
    let sizeScaled ← parser.scaled (← parser.library.getItem level "size")
      shareSizeScale "book_size"
    return some ⟨priceScaled, sizeScaled⟩
  | _ => .ok none

/-- The levels of one side; entries that are not objects are skipped. -/
def parseLevels (message : Members) (side : String) : Except ReadError (List BookLevel) :=
  match message.lookup side with
  | none => .ok []
  | some (.array rawLevels) => do
    let levels ← rawLevels.mapM parser.readLevel
    return levels.reduceOption
  | some _ => .error ⟨.valueError, s!"{side} is not a list"⟩

def readSnapshot (envelope : RawEnvelope) (message : Members) (messageIndex : ℕ)
    (rawReference tokenId : String) (market : MarketRecord) (tickSizeScaled : ℤ) :
    Except ReadError ParsedSnapshot := do
  let outcome ← parser.outcomeOf market tokenId
  let exchangeTimestampNs ← parseTimestampNs parser.library (get message "timestamp")
  let bids ← parser.parseLevels message "bids"
  let asks ← parser.parseLevels message "asks"
  return {
    sequence := envelope.sequence
    source := Source.clobMarketWs.text
    conditionId := parser.library.textOr message "market" market.conditionId
    tokenId := tokenId
    outcome := outcome
    receivedUtcNs := envelope.receivedUtcNs
    bookHash := parser.library.presentText message "hash"
    tickSizeScaled := tickSizeScaled
    minimumOrderSizeScaled := market.minimumOrderSizeScaled
    bids := bids
    asks := asks
    snapshotId := parser.eventId envelope messageIndex "book"
    runId := envelope.runId
    connectionId := envelope.connectionId
    exchangeTimestampNs := exchangeTimestampNs
    receivedMonotonicNs := envelope.receivedMonotonicNs
    negRisk := market.negRisk
    rawEventReference := rawReference }

/-- The size of the first level at a price. -/
def sizeAt (levels : List BookLevel) (priceScaled : ℤ) : Option ℤ :=
  (levels.find? fun level => level.priceScaled = priceScaled).map BookLevel.sizeScaled

def snapshotTop (envelope : RawEnvelope) (snapshot : BookSnapshot) : TopOfBook :=
  let bestBid := (snapshot.bids.map BookLevel.priceScaled).max?
  let bestAsk := (snapshot.asks.map BookLevel.priceScaled).min?
  { conditionId := snapshot.conditionId
    tokenId := snapshot.tokenId
    sequence := envelope.sequence
    receivedUtcNs := envelope.receivedUtcNs
    bestBidScaled := bestBid
    bestAskScaled := bestAsk
    spreadScaled := quoteSpread bestBid bestAsk
    midpointScaled := quoteMidpoint bestBid bestAsk
    bidSizeScaled := bestBid.bind (sizeAt snapshot.bids)
    askSizeScaled := bestAsk.bind (sizeAt snapshot.asks) }

/-- The tick size is remembered before the rest of the message is read. -/
def parseBook (envelope : RawEnvelope) (message : Members) (messageIndex : ℕ)
    (rawReference : String) (state : ParserState) : ParserState × Except ReadError Unit :=
  match parser.readBookHead state.tickSizeByToken message with
  | .error e => (state, .error e)
  | .ok (tokenId, market, tickSizeScaled) =>
    let state := state.setTickSize tokenId tickSizeScaled
    match parser.readSnapshot envelope message messageIndex rawReference tokenId market
        tickSizeScaled with
    | .error e => (state, .error e)
    | .ok snapshot =>
      (state.addSnapshot snapshot (snapshotTop envelope snapshot.toBookSnapshot), .ok ())

/-! ## Level changes -/

def readSide (change : Members) : Except ReadError Side := do
  let side := parser.library.upper
    (parser.library.str (← parser.library.getItem change "side"))
  if side = "BUY" then return .buy
  else if side = "SELL" then return .sell
  else .error ⟨.valueError, s!"invalid book side: {side}"⟩

/-- One level change of a message, with the members of its object. -/
def readUpdate (envelope : RawEnvelope) (message : Members) (messageIndex changeIndex : ℕ)
    (rawReference : String) : JsonValue → Except ReadError (ParsedChange × Members)
  | .object change => do
    let tokenId := parser.library.str (← parser.library.getItem change "asset_id")
    let market ← parser.marketOf tokenId
    let side ← parser.readSide change
    let outcome ← parser.outcomeOf market tokenId
    let exchangeTimestampNs ← parseTimestampNs parser.library (get message "timestamp")
    let priceScaled ← parser.scaled (← parser.library.getItem change "price")
      polymarketPriceScale "update_price"
    let newSizeScaled ← parser.scaled (← parser.library.getItem change "size")
      shareSizeScale "reported_size"
    let reportedBestBidScaled ← parser.boundaryPrice (get change "best_bid")
    let reportedBestAskScaled ← parser.boundaryPrice (get change "best_ask")
    return ({
      sequence := envelope.sequence
      conditionId := parser.library.textOr message "market" market.conditionId
      tokenId := tokenId
      receivedUtcNs := envelope.receivedUtcNs
      side := side
      priceScaled := priceScaled
      newSizeScaled := newSizeScaled
      bookHash := parser.library.presentText change "hash"
      reportedBestBidScaled := reportedBestBidScaled
      reportedBestAskScaled := reportedBestAskScaled
      parentEventId := parser.eventId envelope messageIndex "price_change"
      changeIndex := changeIndex
      outcome := outcome
      exchangeTimestampNs := exchangeTimestampNs
      receivedMonotonicNs := envelope.receivedMonotonicNs
      connectionId := envelope.connectionId
      rawEventReference := rawReference }, change)
  | _ => .error ⟨.valueError, "price change is not an object"⟩

/-- The top of book that a level change reports beside its level, if it reports any. -/
def reportedTop (envelope : RawEnvelope) (update : ParsedChange) (change : Members) :
    Except ReadError (Option TopOfBook) := do
  let (bid, ask, spread, midpoint) ←
    parser.reportedTopValues (get change "best_bid") (get change "best_ask")
  match get change "best_bid", get change "best_ask" with
  | .null, .null => return none
  | _, _ => return some {
      conditionId := update.conditionId
      tokenId := update.tokenId
      sequence := envelope.sequence
      receivedUtcNs := envelope.receivedUtcNs
      bestBidScaled := bid
      bestAskScaled := ask
      spreadScaled := spread
      midpointScaled := midpoint
      bidSizeScaled := none
      askSizeScaled := none }

/-- The changes are added one at a time, so those before a malformed one stay. -/
def parseChanges (envelope : RawEnvelope) (message : Members) (messageIndex : ℕ)
    (rawReference : String) :
    List (JsonValue × ℕ) → ParserState → ParserState × Except ReadError Unit
  | [], state => (state, .ok ())
  | (change, changeIndex) :: rest, state =>
    match parser.readUpdate envelope message messageIndex changeIndex rawReference change with
    | .error e => (state, .error e)
    | .ok (update, members) =>
      match parser.reportedTop envelope update members with
      | .error e => (state.addUpdate update, .error e)
      | .ok none => parseChanges envelope message messageIndex rawReference rest
          (state.addUpdate update)
      | .ok (some top) => parseChanges envelope message messageIndex rawReference rest
          ((state.addUpdate update).addTop top)

def parsePriceChange (envelope : RawEnvelope) (message : Members) (messageIndex : ℕ)
    (rawReference : String) (state : ParserState) : ParserState × Except ReadError Unit :=
  match message.lookup "price_changes" with
  | none => (state, .ok ())
  | some (.array changes) =>
    parser.parseChanges envelope message messageIndex rawReference changes.zipIdx state
  | some _ => (state, .error ⟨.valueError, "price_changes is not a list"⟩)

/-! ## Trades -/

/-- The token, the market, the price and the size of a trade, and the decimals these came from. -/
def readTradeHead (message : Members) :
    Except ReadError (String × MarketRecord × ℤ × Option ℤ × String) := do
  let tokenId := parser.library.str (← parser.library.getItem message "asset_id")
  let market ← parser.marketOf tokenId
  let rawPrice := parser.library.str (← parser.library.getItem message "price")
  let priceScaled ← decimalToScaled parser.library rawPrice polymarketPriceScale "trade_price"
  let sizeScaled ← parser.optionalScaled (get message "size") shareSizeScale "trade_size"
  return (tokenId, market, priceScaled, sizeScaled, rawPrice)

/-- The product of two finite decimals on the money scale. -/
def tradeNotional (price size : Option PyDecimal) : Except ReadError ℤ :=
  match price, size with
  | some (.finite price), some (.finite size) =>
    match Decimal.round (price * size) with
    | none => .error ⟨.decimalOverflow, "decimal overflow"⟩
    | some notional =>
      scaleDecimal (.finite notional) (parser.library.repr (.decimal notional)) usdcScale
        "trade_notional"
  | _, _ => .error ⟨.invalidOperation, "invalid decimal operation"⟩

def readTrade (envelope : RawEnvelope) (message : Members) (messageIndex : ℕ)
    (rawReference tokenId : String) (market : MarketRecord) (priceScaled : ℤ)
    (sizeScaled notionalScaled : Option ℤ) : Except ReadError TradeEvent := do
  let outcome ← parser.outcomeOf market tokenId
  let exchangeTimestampNs ← parseTimestampNs parser.library (get message "timestamp")
  let feeRateBpsScaled ← parser.optionalScaled (get message "fee_rate_bps") bpsScale "fee_rate_bps"
  return {
    tradeEventId := parser.library.textOr message "trade_id"
      (parser.eventId envelope messageIndex "trade")
    sequence := envelope.sequence
    conditionId := parser.library.textOr message "market" market.conditionId
    tokenId := tokenId
    outcome := outcome
    exchangeTimestampNs := exchangeTimestampNs
    receivedUtcNs := envelope.receivedUtcNs
    receivedMonotonicNs := envelope.receivedMonotonicNs
    priceScaled := priceScaled
    sizeScaled := sizeScaled
    notionalScaled := notionalScaled
    reportedSide := parser.library.truthyText message "side"
    feeRateBpsScaled := feeRateBpsScaled
    transactionHash := parser.library.truthyText message "transaction_hash"
    tradeIdWhenAvailable := parser.library.truthyText message "trade_id"
    source := Source.clobMarketWs.text
    rawEventReference := rawReference }

/-- The notional of a trade with a size; one that exceeds the precision is left out with a warning
record, and any other failure stays. -/
def readNotional (envelope : RawEnvelope) (message : Members) (rawPrice : String)
    (sizeScaled : Option ℤ) : Except ReadError (Option ℤ × Option DataQualityEvent) :=
  match sizeScaled with
  | none => .ok (none, none)
  | some _ =>
    match parser.tradeNotional (parser.library.decimal rawPrice)
        (parser.library.decimal (parser.library.str (get message "size"))) with
    | .ok notionalScaled => .ok (some notionalScaled, none)
    | .error e =>
      if e.kind = .precisionError then
        .ok (none, some (quality envelope "notional_precision_exceeded" e.text .warning true))
      else .error e

/-- The warning about the notional is added before the rest of the message is read. -/
def parseTrade (envelope : RawEnvelope) (message : Members) (messageIndex : ℕ)
    (rawReference : String) (state : ParserState) : ParserState × Except ReadError Unit :=
  match parser.readTradeHead message with
  | .error e => (state, .error e)
  | .ok (tokenId, market, priceScaled, sizeScaled, rawPrice) =>
    match parser.readNotional envelope message rawPrice sizeScaled with
    | .error e => (state, .error e)
    | .ok (notionalScaled, warning) =>
      let state := warning.elim state state.addQuality
      match parser.readTrade envelope message messageIndex rawReference tokenId market priceScaled
          sizeScaled notionalScaled with
      | .error e => (state, .error e)
      | .ok trade => (state.addTrade trade, .ok ())

/-! ## The remaining kinds -/

def readTickSizeChange (envelope : RawEnvelope) (message : Members) (messageIndex : ℕ)
    (rawReference : String) : Except ReadError ParsedTickSizeChange := do
  let tokenId := parser.library.str (← parser.library.getItem message "asset_id")
  let exchangeTimestampNs ← parseTimestampNs parser.library (get message "timestamp")
  let oldTickSizeScaled ← parser.optionalScaled (get message "old_tick_size")
    polymarketPriceScale "old_tick_size"
  let newTickSizeScaled ← parser.scaled (← parser.library.getItem message "new_tick_size")
    polymarketPriceScale "new_tick_size"
  return {
    sequence := envelope.sequence
    conditionId := parser.library.textOr message "market"
      (parser.library.textOr message "condition_id" "")
    tokenId := tokenId
    receivedUtcNs := envelope.receivedUtcNs
    newTickSizeScaled := newTickSizeScaled
    tickChangeId := parser.eventId envelope messageIndex "tick_size_change"
    exchangeTimestampNs := exchangeTimestampNs
    receivedMonotonicNs := envelope.receivedMonotonicNs
    oldTickSizeScaled := oldTickSizeScaled
    connectionId := envelope.connectionId
    source := Source.clobMarketWs.text
    rawEventReference := rawReference }

def parseTickSizeChange (envelope : RawEnvelope) (message : Members) (messageIndex : ℕ)
    (rawReference : String) (state : ParserState) : ParserState × Except ReadError Unit :=
  match parser.readTickSizeChange envelope message messageIndex rawReference with
  | .error e => (state, .error e)
  | .ok change =>
    ((state.setTickSize change.tokenId change.newTickSizeScaled).addTickSizeChange change, .ok ())

/-- The winner's outcome as the message gives it, or as its market knows it. -/
def winningOutcome (message : Members) (winningMarket : Option MarketRecord)
    (winningTokenId : String) : Except ReadError String :=
  match parser.library.truthyText message "winning_outcome", winningMarket with
  | some outcome, _ => .ok outcome
  | none, some market => parser.outcomeOf market winningTokenId
  | none, none => .ok ""

def readResolution (envelope : RawEnvelope) (message : Members) (rawReference conditionId : String)
    (winningTokenId : String) (winningMarket : Option MarketRecord) :
    Except ReadError Resolution := do
  let winningOutcome ← parser.winningOutcome message winningMarket winningTokenId
  let exchangeTimestampNs ← parseTimestampNs parser.library (get message "timestamp")
  return {
    conditionId := conditionId
    winningTokenId := winningTokenId
    winningOutcome := winningOutcome
    exchangeTimestampNs := exchangeTimestampNs
    receivedUtcNs := envelope.receivedUtcNs
    sequence := envelope.sequence
    source := Source.clobMarketWs.text
    rawEventReference := rawReference }

def parseResolution (envelope : RawEnvelope) (message : Members) (rawReference : String)
    (state : ParserState) : ParserState × Except ReadError Unit :=
  let conditionId := parser.library.textOr message "market"
    (parser.library.textOr message "condition_id" "")
  let winningTokenId := parser.library.textOr message "winning_asset_id" ""
  if conditionId = "" ∨ winningTokenId = "" then
    (state.countInvalid (quality envelope "malformed_market_resolution"
      "market_resolved requires market and winning_asset_id"), .ok ())
  else
    let winningMarket := parser.marketForToken winningTokenId
    if (winningMarket.any fun market => market.conditionId ≠ conditionId) then
      (state.countInvalid (quality envelope "invalid_market_resolution_token"
        "winning_asset_id belongs to another condition"), .ok ())
    else
      match parser.readResolution envelope message rawReference conditionId winningTokenId
          winningMarket with
      | .error e => (state, .error e)
      | .ok resolution => (state.addResolution resolution, .ok ())

def readBestBidAsk (envelope : RawEnvelope) (message : Members) : Except ReadError TopOfBook := do
  let tokenId := parser.library.str (← parser.library.getItem message "asset_id")
  let market ← parser.marketOf tokenId
  let (bid, ask, spread, midpoint) ←
    parser.reportedTopValues (get message "best_bid") (get message "best_ask")
  let reported ← parser.optionalScaled (get message "spread") polymarketPriceScale "reported_spread"
  return {
    conditionId := parser.library.textOr message "market" market.conditionId
    tokenId := tokenId
    sequence := envelope.sequence
    receivedUtcNs := envelope.receivedUtcNs
    bestBidScaled := bid
    bestAskScaled := ask
    spreadScaled := reported.orElse fun _ => spread
    midpointScaled := midpoint
    bidSizeScaled := none
    askSizeScaled := none }

def parseBestBidAsk (envelope : RawEnvelope) (message : Members) (state : ParserState) :
    ParserState × Except ReadError Unit :=
  match parser.readBestBidAsk envelope message with
  | .error e => (state, .error e)
  | .ok top => (state.addTop top, .ok ())

def parseClobMessage (envelope : RawEnvelope) (message : Members) (eventType : String)
    (messageIndex : ℕ) (rawReference : String) (state : ParserState) :
    ParserState × Except ReadError Unit :=
  match eventType with
  | "book" => parser.parseBook envelope message messageIndex rawReference state
  | "price_change" => parser.parsePriceChange envelope message messageIndex rawReference state
  | "last_trade_price" => parser.parseTrade envelope message messageIndex rawReference state
  | "tick_size_change" =>
    parser.parseTickSizeChange envelope message messageIndex rawReference state
  | "market_resolved" => parser.parseResolution envelope message rawReference state
  | "best_bid_ask" => parser.parseBestBidAsk envelope message state
  | "new_market" => (state, .ok ())
  | _ =>
    (state.countUnknown (quality envelope "unknown_event_type" eventType .warning true), .ok ())

/-! ## Frames -/

/-- What the CLOB path catches around one message. -/
def catchesMessage (e : ReadError) : Prop :=
  e.kind ∈ [ErrorKind.keyError, .valueError, .precisionError, .typeError]

instance : DecidablePred catchesMessage := fun e =>
  inferInstanceAs (Decidable (e.kind ∈ [ErrorKind.keyError, .valueError, .precisionError, .typeError]))

/-- What both paths catch around the JSON reader. -/
def catchesJson (e : ReadError) : Prop := e.kind ∈ [ErrorKind.valueError, .typeError]

instance : DecidablePred catchesJson := fun e =>
  inferInstanceAs (Decidable (e.kind ∈ [ErrorKind.valueError, .typeError]))

/-- What the RTDS path catches around a price. -/
def catchesPrice (e : ReadError) : Prop :=
  e.kind ∈ [ErrorKind.keyError, .valueError, .precisionError]

instance : DecidablePred catchesPrice := fun e =>
  inferInstanceAs (Decidable (e.kind ∈ [ErrorKind.keyError, .valueError, .precisionError]))

/-- One message of a frame; an exception that is not caught ends the parse. -/
def parseMessage (envelope : RawEnvelope) (rawReference : String) (state : ParserState) :
    JsonValue × ℕ → Except ReadError ParserState
  | (.object message, index) =>
    let eventType := parser.library.textOr message "event_type" "unknown"
    match parser.parseClobMessage envelope message eventType index rawReference
        (state.addEventType eventType) with
    | (state, .ok _) => .ok state
    | (state, .error e) =>
      if catchesMessage e then
        .ok (state.countInvalid (quality envelope "clob_parse_error" e.text))
      else .error e
  | _ =>
    .ok (state.countInvalid (quality envelope "malformed_message" "event is not an object"))

/-- The messages of a payload: the entries of a list, or the one value that it is. -/
def messages : JsonValue → List JsonValue
  | .array values => values
  | payload => [payload]

/-- The name a raw event is referred to by. -/
def referenceOf (envelope : RawEnvelope) (rawReference : Option String) : String :=
  match rawReference with
  | none => s!"sequence:{envelope.sequence}"
  | some name => if name = "" then s!"sequence:{envelope.sequence}" else name

def parseClob (envelope : RawEnvelope) (rawReference : Option String)
    (tickSizeByToken : String → Option ℤ) : Except ReadError ParserState :=
  let state : ParserState := ⟨tickSizeByToken, {}⟩
  if envelope.payloadRaw = "PONG" then .ok (state.addEventType "heartbeat_pong")
  else
    match parser.library.loads envelope.payloadRaw with
    | .error e =>
      if catchesJson e then
        .ok (state.countInvalid (quality envelope "malformed_json" e.text))
      else .error e
    | .ok payload =>
      (messages payload).zipIdx.foldlM
        (parser.parseMessage envelope (referenceOf envelope rawReference)) state

/-! ## Reference prices -/

def rtdsTopics : List String :=
  ["crypto_prices", "crypto_prices_chainlink", "prices.crypto.binance", "prices.crypto.chainlink"]

/-- A topic of the chainlink feed has its name in it. -/
def isChainlink (topic : String) : Bool := topic ∈ ["crypto_prices_chainlink", "prices.crypto.chainlink"]

def readPrice (payload : Members) : Except ReadError ℤ := do
  parser.scaled (← parser.library.getItem payload "value") btcPriceScale "btc_price"

/-- The price of an update; the timestamps after it are read outside of the guard. -/
def parsePrice (envelope : RawEnvelope) (rawReference topic : String) (message payload : Members)
    (state : ParserState) : Except ReadError ParserState :=
  let symbol := parser.library.textOr payload "symbol" ""
  match parser.readPrice payload with
  | .error e =>
    if catchesPrice e then
      .ok (state.countInvalid (quality envelope "invalid_btc_price" e.text))
    else .error e
  | .ok priceScaled => do
    let rtdsEnvelopeTimestampNs ← parseTimestampNs parser.library (get message "timestamp")
    let underlyingSourceTimestampNs ← parseTimestampNs parser.library (get payload "timestamp")
    return state.addBtcPrice {
      priceEventId := parser.library.uuid5
        s!"{envelope.runId}:{envelope.sequence}:{topic}:{symbol}"
      sequence := envelope.sequence
      source := if isChainlink topic then "CHAINLINK_BTCUSD" else "BINANCE_BTCUSDT"
      topic := topic
      symbol := symbol
      rtdsEnvelopeTimestampNs := rtdsEnvelopeTimestampNs
      underlyingSourceTimestampNs := underlyingSourceTimestampNs
      receivedUtcNs := envelope.receivedUtcNs
      receivedMonotonicNs := envelope.receivedMonotonicNs
      priceScaled := priceScaled
      connectionId := envelope.connectionId
      rawEventReference := rawReference }

def parseRtdsMessage (envelope : RawEnvelope) (rawReference : String) (message : Members)
    (state : ParserState) : Except ReadError ParserState :=
  let topic := parser.library.textOr message "topic" ""
  let eventType := parser.library.textOr message "type" ""
  let state := state.addEventType s!"{topic}:{eventType}"
  if eventType = "subscribe" ∧ topic ∈ rtdsTopics then .ok state
  else if topic ∉ rtdsTopics ∨ eventType ≠ "update" then
    .ok (state.countUnknown
      (quality envelope "unknown_event_type" s!"{topic}:{eventType}" .warning true))
  else
    match get message "payload" with
    | .object payload => parser.parsePrice envelope rawReference topic message payload state
    | _ =>
      .ok (state.countInvalid (quality envelope "malformed_rtds_payload" "payload is not object"))

def parseRtds (envelope : RawEnvelope) (rawReference : Option String)
    (tickSizeByToken : String → Option ℤ) : Except ReadError ParserState :=
  let state : ParserState := ⟨tickSizeByToken, {}⟩
  if envelope.eventTypeHint = some "empty_control_frame" ∨ envelope.payloadRaw = "" then
    .ok (state.addEventType "empty_control_frame")
  else if envelope.payloadRaw = "PONG" then .ok (state.addEventType "heartbeat_pong")
  else
    match parser.library.loads envelope.payloadRaw with
    | .error e =>
      if catchesJson e then
        .ok (state.countInvalid (quality envelope "malformed_json" e.text))
      else .error e
    | .ok (.object message) =>
      parser.parseRtdsMessage envelope (referenceOf envelope rawReference) message state
    | .ok _ =>
      .ok (state.countInvalid
        (quality envelope "malformed_message" "RTDS event is not an object"))

/-- Parse one envelope under the tick sizes remembered so far. -/
def parse (envelope : RawEnvelope) (rawReference : Option String)
    (tickSizeByToken : String → Option ℤ) : Except ReadError ParserState :=
  match envelope.source with
  | .clobMarketWs => parser.parseClob envelope rawReference tickSizeByToken
  | .rtds => parser.parseRtds envelope rawReference tickSizeByToken
  | _ => .ok ⟨tickSizeByToken, {}⟩

end EventParser

end PolymarketBt
