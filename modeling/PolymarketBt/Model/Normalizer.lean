import Mathlib.Data.Prod.Lex
import Mathlib.Data.String.Basic
import PolymarketBt.Model.Parser
import PolymarketBt.ToMathlib.KeyedList
import PolymarketBt.ToMathlib.StableSort

/-! # Normalizing raw files in runs

A run takes the files that no run has processed yet, all of them or a bounded number from one end
of their closing order, and reads them through one parser that remembers tick sizes between frames.
An envelope that raises leaves no rows, but the parser keeps what it has remembered. Trades are
deduplicated within the run. The rows are those of trades, snapshots and level changes; the mapping
of tokens to markets is fixed, and a process makes one run.
-/

namespace PolymarketBt

open StableSort (sortByKey)

/-- A finalized raw file: its name, its closing time, and its envelopes with their lines. -/
structure FinalizedFile where
  fileId : String
  relativePath : String
  closedUtcNs : ℤ
  envelopes : List (RawEnvelope × ℕ)
deriving DecidableEq

/-- A snapshot row with its levels. -/
structure NormalizedSnapshot extends ParsedSnapshot where
  lastTradePriceScaled : Option ℤ
deriving DecidableEq, Repr

structure NormalizedRows where
  snapshots : List NormalizedSnapshot := []
  updates : List ParsedChange := []
  trades : List TradeEvent := []
deriving DecidableEq, Repr

instance : Append NormalizedRows where
  append first second :=
    { snapshots := first.snapshots ++ second.snapshots
      updates := first.updates ++ second.updates
      trades := first.trades ++ second.trades }

/-- What one parse contributes to the three datasets. -/
def ParsedEvents.rows (parsed : ParsedEvents) : NormalizedRows where
  snapshots := parsed.snapshots.map fun snapshot => ⟨snapshot, none⟩
  updates := parsed.updates
  trades := parsed.trades

namespace EventParser

variable (parser : EventParser)

/-- One message of a frame, with the state it leaves also when it raises. -/
def stepMessage (envelope : RawEnvelope) (rawReference : String) (state : ParserState) :
    JsonValue × ℕ → ParserState × Except ReadError Unit
  | (.object message, index) =>
    let eventType := parser.library.textOr message "event_type" "unknown"
    match parser.parseClobMessage envelope message eventType index rawReference
        (state.addEventType eventType) with
    | (state, .ok _) => (state, .ok ())
    | (state, .error e) =>
      if catchesMessage e then
        (state.countInvalid (quality envelope "clob_parse_error" e.text), .ok ())
      else (state, .error e)
  | _ =>
    (state.countInvalid (quality envelope "malformed_message" "event is not an object"), .ok ())

/-- The tick sizes remembered after the messages of a frame, up to one that raises. -/
def rememberedTicks (envelope : RawEnvelope) (rawReference : String) :
    ParserState → List (JsonValue × ℕ) → String → Option ℤ
  | state, [] => state.tickSizeByToken
  | state, entry :: rest =>
    match parser.stepMessage envelope rawReference state entry with
    | (state, .ok _) => rememberedTicks envelope rawReference state rest
    | (state, .error _) => state.tickSizeByToken

/-- The tick sizes that a parse which raises leaves behind. -/
def ticksAfterRaise (envelope : RawEnvelope) (rawReference : Option String)
    (tickSizeByToken : String → Option ℤ) : String → Option ℤ :=
  match envelope.source, parser.library.loads envelope.payloadRaw with
  | .clobMarketWs, .ok payload =>
    parser.rememberedTicks envelope (referenceOf envelope rawReference) ⟨tickSizeByToken, {}⟩
      (messages payload).zipIdx
  | _, _ => tickSizeByToken

end EventParser

/-! ## One envelope -/

/-- The parser and the registry of markets by condition. -/
structure Normalizer where
  parser : EventParser
  marketById : String → Option MarketRecord

namespace Normalizer

open JsonValue

variable (normalizer : Normalizer)

def operationalHints : List String :=
  ["connection_event", "heartbeat_event", "rest_request", "data_quality_event"]

/-- A record of the collector's own, which yields no book and no trade also when it is malformed. -/
def isOperational (envelope : RawEnvelope) : Bool :=
  (envelope.eventTypeHint.any fun hint => hint ∈ operationalHints) &&
    match normalizer.parser.library.loads envelope.payloadRaw with
    | .error _ => true
    | .ok (.object _) => true
    | .ok _ => false

/-- The levels of a side of a REST book; a text or an object is read as entries of no use. -/
def restLevels (payload : Members) (name : String) : Except ReadError (List BookLevel) :=
  match payload.lookup name with
  | none => .ok []
  | some (.array values) => do
    let levels ← values.mapM normalizer.parser.readLevel
    return levels.reduceOption
  | some (.text _) => .ok []
  | some (.object _) => .ok []
  | some .null => .error ⟨.typeError, "'NoneType' object is not iterable"⟩
  | some (.bool _) => .error ⟨.typeError, "'bool' object is not iterable"⟩
  | some (.int _) => .error ⟨.typeError, "'int' object is not iterable"⟩
  | some (.decimal _) => .error ⟨.typeError, "'decimal.Decimal' object is not iterable"⟩
  | some (.constant _) => .error ⟨.typeError, "'decimal.Decimal' object is not iterable"⟩

def readRestSnapshot (envelope : RawEnvelope) (reference tokenId : String) (market : MarketRecord)
    (payload : Members) : Except ReadError NormalizedSnapshot := do
  let parser := normalizer.parser
  let outcome ← parser.outcomeOf market tokenId
  let exchangeTimestampNs ← parseTimestampNs parser.library (get payload "timestamp")
  let tickSizeScaled ← parser.scaled (get payload "tick_size") polymarketPriceScale "tick_size"
  let minimumOrderSizeScaled ← parser.scaled (get payload "min_order_size") shareSizeScale
    "minimum_order_size"
  let lastTradePriceScaled ← parser.optionalScaled (get payload "last_trade_price")
    polymarketPriceScale "last_trade"
  let bids ← normalizer.restLevels payload "bids"
  let asks ← normalizer.restLevels payload "asks"
  return {
    sequence := envelope.sequence
    source := Source.clobRest.text
    conditionId := parser.library.textOr payload "market" market.conditionId
    tokenId := tokenId
    outcome := outcome
    receivedUtcNs := envelope.receivedUtcNs
    bookHash := parser.library.truthyText payload "hash"
    tickSizeScaled := tickSizeScaled
    minimumOrderSizeScaled := minimumOrderSizeScaled
    bids := bids
    asks := asks
    snapshotId := parser.library.uuid5 s!"{envelope.runId}:{envelope.sequence}:rest-book"
    runId := envelope.runId
    connectionId := envelope.connectionId
    exchangeTimestampNs := exchangeTimestampNs
    receivedMonotonicNs := envelope.receivedMonotonicNs
    negRisk := (get payload "neg_risk").truthy
    rawEventReference := reference
    lastTradePriceScaled := lastTradePriceScaled }

/-- The market of a token, or else of the condition that the envelope names. -/
def restMarket (envelope : RawEnvelope) (tokenId : String) : Option MarketRecord :=
  match normalizer.parser.marketForToken tokenId with
  | some market => some market
  | none => normalizer.marketById (envelope.marketId.getD "")

def restSnapshot (envelope : RawEnvelope) (reference : String) :
    Except ReadError (Option NormalizedSnapshot) :=
  let tokenId := envelope.tokenId.getD ""
  if envelope.eventTypeHint ≠ some "book" ∨ tokenId = "" then .ok none
  else
    match normalizer.restMarket envelope tokenId with
    | none => .ok none
    | some market => do
      match ← normalizer.parser.library.loads envelope.payloadRaw with
      | .object payload =>
        return some (← normalizer.readRestSnapshot envelope reference tokenId market payload)
      | _ => return none

/-- The rows of a parse and the tick sizes it leaves. -/
def parsedRows (envelope : RawEnvelope) (reference : String)
    (tickSizeByToken : String → Option ℤ) : (String → Option ℤ) × NormalizedRows :=
  match normalizer.parser.parse envelope (some reference) tickSizeByToken with
  | .ok state => (state.tickSizeByToken, state.result.rows)
  | .error _ => (normalizer.parser.ticksAfterRaise envelope (some reference) tickSizeByToken, {})

/-- The rows of one envelope and the tick sizes after it; what raises is caught. -/
def envelopeRows (envelope : RawEnvelope) (reference : String)
    (tickSizeByToken : String → Option ℤ) : (String → Option ℤ) × NormalizedRows :=
  match envelope.source with
  | .clobRest =>
    if normalizer.isOperational envelope then (tickSizeByToken, {})
    else
      match normalizer.restSnapshot envelope reference with
      | .ok (some snapshot) => (tickSizeByToken, { snapshots := [snapshot] })
      | _ => (tickSizeByToken, {})
  | .clobMarketWs | .rtds =>
    if normalizer.isOperational envelope then (tickSizeByToken, {})
    else normalizer.parsedRows envelope reference tickSizeByToken
  | _ => (tickSizeByToken, {})

/-! ## A run -/

/-- The envelopes of some files with their references, in the order a run reads them. -/
def readings (files : List FinalizedFile) : List (RawEnvelope × String) :=
  files.flatMap fun file =>
    file.envelopes.map fun entry => (entry.1, rawReference file.fileId entry.2)

/-- The rows of a sequence of envelopes and the tick sizes after them. -/
def readRows (readings : List (RawEnvelope × String)) (tickSizeByToken : String → Option ℤ) :
    (String → Option ℤ) × NormalizedRows :=
  readings.foldl (fun read entry =>
    let next := normalizer.envelopeRows entry.1 entry.2 read.1
    (next.1, read.2 ++ next.2)) (tickSizeByToken, {})

end Normalizer

inductive TradeKey where
  | tradeId (tradeId : String)
  | composite (transactionHash : Option String) (conditionId tokenId : String)
      (exchangeTimestampNs : Option ℤ) (priceScaled : ℤ) (sizeScaled : Option ℤ)
      (reportedSide : Option String)
deriving DecidableEq, Repr

def tradeDeduplicationKey (trade : TradeEvent) : TradeKey :=
  let composite : TradeKey := .composite trade.transactionHash trade.conditionId trade.tokenId
    trade.exchangeTimestampNs trade.priceScaled trade.sizeScaled trade.reportedSide
  match trade.tradeIdWhenAvailable with
  | none => composite
  | some tradeId => if tradeId = "" then composite else .tradeId tradeId

/-- Keep the first trade of each key, and sort by receipt. -/
def deduplicateTrades (trades : List TradeEvent) : List TradeEvent :=
  sortByKey (fun trade : TradeEvent => toLex (trade.receivedUtcNs, trade.sequence))
    (KeyedList.firsts tradeDeduplicationKey trades)

/-- The bound of a run, and which end of the closing order a bounded run takes. -/
structure RunOptions where
  maxFiles : Option ℕ
  newestFirst : Bool
deriving DecidableEq, Repr

/-- The pending files in the order that a run would read them. -/
def RunOptions.order (options : RunOptions) (pending : List FinalizedFile) : List FinalizedFile :=
  if options.maxFiles.isSome ∧ options.newestFirst then
    sortByKey (fun file : FinalizedFile =>
      OrderDual.toDual (toLex (file.closedUtcNs, file.relativePath))) pending
  else
    sortByKey (fun file : FinalizedFile => toLex (file.closedUtcNs, file.relativePath)) pending

/-- The files of a run. -/
def RunOptions.select (options : RunOptions) (pending : List FinalizedFile) :
    Except PyError (List FinalizedFile) :=
  match options.maxFiles with
  | none => .ok (options.order pending)
  | some count =>
    if count < 1 then .error (.valueError "max_files must be positive")
    else .ok ((options.order pending).take count)

namespace Normalizer

variable (normalizer : Normalizer)

/-- The rows that a run publishes. -/
def runRows (files : List FinalizedFile) : NormalizedRows :=
  let rows := (normalizer.readRows (readings files) fun _ => none).2
  { rows with trades := deduplicateTrades rows.trades }

/-- A sequence of complete runs: the rows of each, and the files that no run has processed. -/
def normalize : List RunOptions → List FinalizedFile → Except PyError (List NormalizedRows × List FinalizedFile)
  | [], pending => .ok ([], pending)
  | options :: rest, pending => do
    let files ← options.select pending
    let (runs, left) ← normalize rest
      (pending.filter fun file => file.relativePath ∉ files.map FinalizedFile.relativePath)
    return (normalizer.runRows files :: runs, left)

end Normalizer

end PolymarketBt
