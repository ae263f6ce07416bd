import PolymarketBt.Model.Failure
import PolymarketBt.ToMathlib.Lines

/-! # The raw archive

Every message the collector receives is appended to a partition file as one JSON record and one
newline byte. The normalizer reads a file back by decoding it and splitting it into lines. Files
are modelled by their uncompressed contents.
-/

namespace PolymarketBt

inductive Source where
  | gamma
  | clobRest
  | clobMarketWs
  | rtds
  | dataApi
  | internal
deriving DecidableEq, Repr

def Source.text : Source → String
  | gamma => "gamma"
  | clobRest => "clob_rest"
  | clobMarketWs => "clob_market_ws"
  | rtds => "rtds"
  | dataApi => "data_api"
  | internal => "internal"

inductive ContentType where
  | json
  | plain
  | octetStream
deriving DecidableEq, Repr

def ContentType.text : ContentType → String
  | json => "application/json"
  | plain => "text/plain"
  | octetStream => "application/octet-stream"

inductive PayloadEncoding where
  | utf8
  | base64
deriving DecidableEq, Repr

def PayloadEncoding.text : PayloadEncoding → String
  | utf8 => "utf-8"
  | base64 => "base64"

inductive ParseStatus where
  | notParsed
  | parsed
  | invalid
  | unknown
deriving DecidableEq, Repr

def ParseStatus.text : ParseStatus → String
  | notParsed => "not_parsed"
  | parsed => "parsed"
  | invalid => "invalid"
  | unknown => "unknown"

structure RawEnvelope where
  schemaVersion : ℤ := 1
  collectorVersion : String
  runId : String
  connectionId : String
  sequence : ℤ
  source : Source
  stream : String
  eventTypeHint : Option String := none
  receivedUtcNs : ℤ
  receivedMonotonicNs : ℤ
  sourceTimestampRaw : Option String := none
  marketId : Option String := none
  tokenId : Option String := none
  payloadRaw : String
  contentType : ContentType := .json
  payloadEncoding : PayloadEncoding := .utf8
  parseStatus : ParseStatus := .notParsed
  sequence_pos : 1 ≤ sequence := by decide
deriving DecidableEq, Repr

/-! ## The JSON writer -/

namespace Json

/-- The escape of a control character: its short form, or its code point in hexadecimal. -/
def controlEscape (code : ℕ) : List Char :=
  match code with
  | 0x08 => ['\\', 'b']
  | 0x09 => ['\\', 't']
  | 0x0A => ['\\', 'n']
  | 0x0C => ['\\', 'f']
  | 0x0D => ['\\', 'r']
  | code => ['\\', 'u', '0', '0', Nat.digitChar (code / 16), Nat.digitChar (code % 16)]

/-- Only quotes, backslashes and control characters are escaped. -/
def escapeChar (c : Char) : List Char :=
  if c = '"' then ['\\', '"']
  else if c = '\\' then ['\\', '\\']
  else if c.toNat < 0x20 then controlEscape c.toNat
  else [c]

def quoted (text : String) : List Char := '"' :: text.toList.flatMap escapeChar ++ ['"']

inductive Value where
  | null
  | int (value : ℤ)
  | text (value : String)
deriving DecidableEq, Repr

def Value.ofOption : Option String → Value
  | none => null
  | some value => text value

def Value.render : Value → List Char
  | null => ['n', 'u', 'l', 'l']
  | int value => (toString value).toList
  | text value => quoted value

def member (field : String × Value) : List Char := quoted field.1 ++ ':' :: field.2.render

/-- A compact object, its members in order. -/
def object (fields : List (String × Value)) : List Char :=
  '{' :: [','].intercalate (fields.map member) ++ ['}']

end Json

namespace RawEnvelope

open Json in
def fields (envelope : RawEnvelope) : List (String × Json.Value) :=
  [("schema_version", .int envelope.schemaVersion),
    ("collector_version", .text envelope.collectorVersion),
    ("run_id", .text envelope.runId),
    ("connection_id", .text envelope.connectionId),
    ("sequence", .int envelope.sequence),
    ("source", .text envelope.source.text),
    ("stream", .text envelope.stream),
    ("event_type_hint", .ofOption envelope.eventTypeHint),
    ("received_utc_ns", .int envelope.receivedUtcNs),
    ("received_monotonic_ns", .int envelope.receivedMonotonicNs),
    ("source_timestamp_raw", .ofOption envelope.sourceTimestampRaw),
    ("market_id", .ofOption envelope.marketId),
    ("token_id", .ofOption envelope.tokenId),
    ("payload_raw", .text envelope.payloadRaw),
    ("content_type", .text envelope.contentType.text),
    ("payload_encoding", .text envelope.payloadEncoding.text),
    ("parse_status", .text envelope.parseStatus.text)]

def modelDumpJson (envelope : RawEnvelope) : String := String.ofList (Json.object envelope.fields)

def jsonLine (envelope : RawEnvelope) : ByteArray := envelope.modelDumpJson.toUTF8 ++ "\n".toUTF8

end RawEnvelope

/-! ## The partition writer -/

/-- An open partition file: what it holds, and what its manifest entry will say about it. -/
structure PartitionWriter where
  contents : ByteArray
  rows : ℕ
  uncompressedBytes : ℕ
  firstSequence : Option ℤ
  lastSequence : Option ℤ
  minimumEventTime : Option ℤ
  maximumEventTime : Option ℤ
  marketIds : Finset String
  tokenIds : Finset String

namespace PartitionWriter

def init : PartitionWriter := ⟨.empty, 0, 0, none, none, none, none, ∅, ∅⟩

/-- A bound widened to a new value. -/
def widen (pick : ℤ → ℤ → ℤ) (bound : Option ℤ) (value : ℤ) : Option ℤ :=
  some (bound.elim value fun bound => pick bound value)

/-- Identifiers seen so far; an absent or empty one is not an identifier. -/
def addId (seen : Finset String) : Option String → Finset String
  | none => seen
  | some id => if id = "" then seen else insert id seen

def write (writer : PartitionWriter) (envelope : RawEnvelope) : PartitionWriter where
  contents := writer.contents ++ envelope.jsonLine
  rows := writer.rows + 1
  uncompressedBytes := writer.uncompressedBytes + envelope.jsonLine.size
  firstSequence := widen min writer.firstSequence envelope.sequence
  lastSequence := widen max writer.lastSequence envelope.sequence
  minimumEventTime := widen min writer.minimumEventTime envelope.receivedUtcNs
  maximumEventTime := widen max writer.maximumEventTime envelope.receivedUtcNs
  marketIds := addId writer.marketIds envelope.marketId
  tokenIds := addId writer.tokenIds envelope.tokenId

def writeAll (envelopes : List RawEnvelope) : PartitionWriter := envelopes.foldl write init

end PartitionWriter

/-! ## The reader -/

/-- The name a line of a raw file is referred to by. -/
def rawReference (fileId : String) (lineNumber : ℕ) : String := fileId ++ ":" ++ toString lineNumber

/-- Read a raw file with the given JSON reader. -/
def readEnvelopes (validateJson : String → Except PyError RawEnvelope) (fileId : String)
    (contents : ByteArray) : Except PyError (List (RawEnvelope × String)) :=
  match String.fromUTF8? contents with
  | none => .error .unicodeDecodeError
  | some text =>
    (((Lines.splitlines text.toList).zipIdx 1).filter fun line => line.1 ≠ []).mapM fun line => do
      let envelope ← validateJson (String.ofList line.1)
      return (envelope, rawReference fileId line.2)

end PolymarketBt
