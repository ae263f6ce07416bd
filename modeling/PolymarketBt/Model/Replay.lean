import Mathlib.Data.Prod.Lex
import Mathlib.Data.String.Basic
import PolymarketBt.Model.Parser
import PolymarketBt.ToMathlib.StableSort

/-! # Replay events and their order

The reader wraps every normalized record into a replay event, and the merger sorts the events by a
key of the selected clock, the receipt time, the priority of the source, the connection, the
sequence and the index of the change inside its message. Both sorts of the repository are stable.
-/

namespace PolymarketBt

open StableSort (sortByKey)

inductive ReplayClockMode where
  | exchangeTime
  | localReceiveTime
deriving DecidableEq, Repr

/-- The event types that the replay engine applies. -/
def handledEventTypes : List String :=
  ["book_snapshot", "book_update", "tick_size_change", "btc_price", "trade", "market_resolution"]

/-- The record of a replay event; it determines the event type. -/
inductive ReplayPayload where
  | bookSnapshot (snapshot : BookSnapshot)
  | tickSizeChange (change : TickSizeChange)
  | bookUpdate (change : BookLevelChange)
  | trade (trade : TradeEvent)
  | btcPrice (price : BtcPriceEvent)
  | marketResolution (resolution : Resolution)
  | other (eventType : String) (unhandled : eventType ∉ handledEventTypes)
deriving DecidableEq, Repr

def ReplayPayload.eventType : ReplayPayload → String
  | bookSnapshot _ => "book_snapshot"
  | tickSizeChange _ => "tick_size_change"
  | bookUpdate _ => "book_update"
  | trade _ => "trade"
  | btcPrice _ => "btc_price"
  | marketResolution _ => "market_resolution"
  | other eventType _ => eventType

structure ReplayEvent where
  exchangeTimestampNs : Option ℤ
  receivedUtcNs : ℤ
  receivedMonotonicNs : ℤ
  connectionId : String
  sequence : ℤ
  parentChangeIndex : ℕ
  sourcePriority : ℕ
  payload : ReplayPayload
deriving DecidableEq, Repr

namespace ReplayEvent

def timestamp (event : ReplayEvent) : ReplayClockMode → Except PyError ℤ
  | .localReceiveTime => .ok event.receivedUtcNs
  | .exchangeTime =>
    match event.exchangeTimestampNs with
    | some timestampNs => .ok timestampNs
    | none => .error (.valueError
      s!"event {event.payload.eventType} sequence {event.sequence} lacks exchange timestamp")

end ReplayEvent

/-! ## The reader's records -/

def ParsedSnapshot.replayEvent (snapshot : ParsedSnapshot) : ReplayEvent where
  exchangeTimestampNs := snapshot.exchangeTimestampNs
  receivedUtcNs := snapshot.receivedUtcNs
  receivedMonotonicNs := snapshot.receivedMonotonicNs
  connectionId := snapshot.connectionId
  sequence := snapshot.sequence
  parentChangeIndex := 0
  sourcePriority := 10
  payload := .bookSnapshot snapshot.toBookSnapshot

def ParsedTickSizeChange.replayEvent (change : ParsedTickSizeChange) : ReplayEvent where
  exchangeTimestampNs := change.exchangeTimestampNs
  receivedUtcNs := change.receivedUtcNs
  receivedMonotonicNs := change.receivedMonotonicNs
  connectionId := change.connectionId
  sequence := change.sequence
  parentChangeIndex := 0
  sourcePriority := 15
  payload := .tickSizeChange change.toTickSizeChange

def ParsedChange.replayEvent (change : ParsedChange) : ReplayEvent where
  exchangeTimestampNs := change.exchangeTimestampNs
  receivedUtcNs := change.receivedUtcNs
  receivedMonotonicNs := change.receivedMonotonicNs
  connectionId := change.connectionId
  sequence := change.sequence
  parentChangeIndex := change.changeIndex
  sourcePriority := 20
  payload := .bookUpdate change.toBookLevelChange

/-- The book events of a frame, dataset by dataset as the reader lists them. -/
def ParsedEvents.replayEvents (parsed : ParsedEvents) : List ReplayEvent :=
  parsed.snapshots.map ParsedSnapshot.replayEvent ++
    parsed.updates.map ParsedChange.replayEvent ++
    parsed.tickSizeChanges.map ParsedTickSizeChange.replayEvent

/-! ## Sorting -/

abbrev EventKey := ℤ ×ₗ ℤ ×ₗ ℕ ×ₗ String ×ₗ ℤ ×ₗ ℕ

/-- The key of an event whose replay time is known. -/
def eventKeyAt (replayTime : ℤ) (event : ReplayEvent) : EventKey :=
  toLex (replayTime, toLex (event.receivedUtcNs, toLex (event.sourcePriority,
    toLex (event.connectionId, toLex (event.sequence, event.parentChangeIndex)))))

def deterministicEventKey (event : ReplayEvent) (mode : ReplayClockMode) :
    Except PyError EventKey := do
  return eventKeyAt (← event.timestamp mode) event

def mergeEvents (events : List ReplayEvent) (mode : ReplayClockMode) :
    Except PyError (List ReplayEvent) := do
  let keyed ← events.mapM fun event => do return (← deterministicEventKey event mode, event)
  return (sortByKey Prod.fst keyed).map Prod.snd

/-- The rank of an event's kind in the tape; only book events are read there. -/
def tapeKind : ReplayPayload → ℕ
  | .bookSnapshot _ => 0
  | .tickSizeChange _ => 1
  | _ => 2

abbrev TapeKey := ℤ ×ₗ ℕ ×ₗ ℤ ×ₗ ℕ

def tapeOrderKey (event : ReplayEvent) : TapeKey :=
  toLex (event.receivedUtcNs, toLex (tapeKind event.payload,
    toLex (event.sequence, event.parentChangeIndex)))

/-- The order in which the tape builder reads book events. -/
def iterBookEvents (events : List ReplayEvent) : List ReplayEvent := sortByKey tapeOrderKey events

/-! ## Live application -/

/-- The text of an exception that the reconstructor raises. -/
def PyError.text : PyError → String
  | .valueError message => message
  | .invalidBookState issues => "; ".intercalate (issues.map ValidationIssue.message)
  | _ => ""

/-- The book event of a replay event, if it has one. -/
def ReplayPayload.bookEvent : ReplayPayload → Option BookEvent
  | .bookSnapshot snapshot => some (.snapshot snapshot)
  | .tickSizeChange change => some (.tick change)
  | .bookUpdate change => some (.update change)
  | _ => none

/-- The book events of a frame in the order of the live worker. -/
def ParsedEvents.workerEvents (parsed : ParsedEvents) : List BookEvent :=
  parsed.snapshots.map (fun snapshot => .snapshot snapshot.toBookSnapshot) ++
    parsed.updates.map (fun change => .update change.toBookLevelChange) ++
    parsed.tickSizeChanges.map (fun change => .tick change.toTickSizeChange)

namespace BookReconstructor

/-- The live worker applies an event; one that raises quarantines its token. -/
def workerApply (reconstructor : BookReconstructor) (event : BookEvent) : BookReconstructor :=
  match reconstructor.applyEvent event with
  | (applied, .ok _) => applied
  | (applied, .error e) =>
    applied.markUncertain event.tokenId event.receivedUtcNs e.text (some event.sequence)

/-- The live worker's part of one frame. -/
def bookWorker (reconstructor : BookReconstructor) (parsed : ParsedEvents) : BookReconstructor :=
  parsed.workerEvents.foldl workerApply reconstructor

end BookReconstructor

/-- Frames parsed one after another by one parser. -/
def EventParser.parseFrames (parser : EventParser) :
    (String → Option ℤ) → List RawEnvelope → Except ReadError (List ParsedEvents)
  | _, [] => .ok []
  | tickSizeByToken, envelope :: rest => do
    let state ← parser.parse envelope none tickSizeByToken
    return state.result :: (← EventParser.parseFrames parser state.tickSizeByToken rest)

/-- The book datasets that the reader loads, each with its records in the order of the frames. -/
def readEvents (frames : List ParsedEvents) : List ReplayEvent :=
  frames.flatMap (fun parsed => parsed.snapshots.map ParsedSnapshot.replayEvent) ++
    frames.flatMap (fun parsed => parsed.updates.map ParsedChange.replayEvent) ++
    frames.flatMap (fun parsed => parsed.tickSizeChanges.map ParsedTickSizeChange.replayEvent)

/-- The book events of a replay in its order. -/
def replayBookEvents (merged : List ReplayEvent) : List BookEvent :=
  merged.filterMap fun event => event.payload.bookEvent

end PolymarketBt
