import PolymarketBt.Model.Parser
import PolymarketBt.ToMathlib.StableSort

/-! # Matching recorded trades with the rows of the data API

Each recorded trade takes, in order, the best row that is still free: exact matches before probable
ones before conflicting ones, then by the number of agreeing fields, then by position. The rows that
no trade took are reported at the end.
-/

namespace PolymarketBt

open StableSort

inductive MatchStatus where
  | exactMatch
  | probableMatch
  | conflicting
  | websocketOnly
  | apiOnly
deriving DecidableEq, Repr

/-- The fields of a row as they were sent, and how far its instant is from the trade's. -/
structure MatchDetails where
  apiPriceRaw : Option String
  apiSizeRaw : Option String
  apiTimestampRaw : Option String
  apiTransactionHash : Option String
  timestampDeltaNs : Option ℤ
  comparisonErrors : List String
deriving DecidableEq, Repr

inductive ResultDetails where
  | matched (details : MatchDetails) (candidateCount : ℕ)
      (matchedFields mismatchedFields : List String)
  | websocketOnly
  | apiOnly (conditionId tokenId transactionHash : String)
      (apiPriceRaw apiSizeRaw apiTimestampRaw : Option String)
deriving DecidableEq, Repr

structure ReconciliationResult where
  status : MatchStatus
  websocketTradeId : Option String
  apiIndex : Option ℕ
  details : ResultDetails
deriving DecidableEq, Repr

structure Candidate where
  apiIndex : ℕ
  status : MatchStatus
  priority : ℕ
  matchedFields : List String
  mismatchedFields : List String
  details : MatchDetails
deriving DecidableEq, Repr

def Candidate.rank (item : Candidate) : ℤ ×ₗ ℕ := toLex (-(item.priority : ℤ), item.apiIndex)

/-- The libraries of the parser, and the text of a decimal without an exponent. -/
structure ReconciliationLibrary extends Library where
  fixedPoint : ℚ → String

def scaledToDecimal (value scale : ℤ) : Except ReadError ℚ :=
  match Decimal.round (value / scale) with
  | none => .error ⟨.decimalOverflow, "decimal overflow"⟩
  | some decimal => .ok decimal

/-- What one trade and one row have in common. -/
structure Comparison where
  priceError : Option String
  sizeError : Option String
  timestampError : Option String
  transactionHash : Option String
  timestampDeltaNs : Option ℤ
  transactionMatch : Bool
  timestampMatch : Bool
  priceMatch : Bool
  sizeMatch : Bool
  priceDiffers : Bool
  sizeDiffers : Bool
  transactionDiffers : Bool
  timestampDiffers : Bool
deriving DecidableEq, Repr

namespace ReconciliationLibrary

open JsonValue

variable (library : ReconciliationLibrary)

/-- A finite decimal, or why there is none. -/
def rawDecimal (value : JsonValue) (field : String) : Option ℚ × Option String :=
  let read : Option PyDecimal → Option ℚ × Option String
    | none => (none, some s!"{field} is invalid: [<class 'decimal.ConversionSyntax'>]")
    | some (.finite number) => (some number, none)
    | some _ => (none, some s!"{field} is non-finite")
  match value with
  | .null => (none, some s!"{field} is missing")
  | .decimal number => read (some (.finite number))
  | .text shown =>
    if shown = "" then (none, some s!"{field} is missing") else read (library.decimal shown)
  | value => read (library.decimal (library.str value))

def rawString : JsonValue → Option String
  | .null => none
  | .decimal number => some (library.fixedPoint number)
  | value => some (library.str value)

/-- The instant of a row, or why there is none; other exceptions are not caught. -/
def rawTimestamp (value : JsonValue) : Except ReadError (Option ℤ × Option String) :=
  match parseTimestampNs library.toLibrary value with
  | .ok (some timestamp) => .ok (some timestamp, none)
  | .ok none => .ok (none, some "timestamp is missing")
  | .error e =>
    match e.kind with
    | .typeError | .valueError | .precisionError =>
      .ok (none, some s!"timestamp is invalid: {e.text}")
    | _ => .error e

/-- The transaction of a row; an empty text is no transaction. -/
def transactionHash (row : Members) : Option String :=
  let hash := library.textOr row "transactionHash" ""
  if hash = "" then none else some hash

/-- The row is of the market and the token of the trade. -/
def Concerns (trade : TradeEvent) (row : Members) : Prop :=
  library.str (get row "conditionId") = trade.conditionId ∧
    library.str (get row "asset") = trade.tokenId

instance (trade : TradeEvent) (row : Members) : Decidable (library.Concerns trade row) :=
  inferInstanceAs (Decidable (_ ∧ _))

def compare (trade : TradeEvent) (row : Members) : Except ReadError Comparison := do
  let (price, priceError) := library.rawDecimal (get row "price") "price"
  let (size, sizeError) := library.rawDecimal (get row "size") "size"
  let (timestamp, timestampError) ← library.rawTimestamp (get row "timestamp")
  let expectedPrice ← scaledToDecimal trade.priceScaled polymarketPriceScale
  let expectedSize ← trade.sizeScaled.mapM (scaledToDecimal · shareSizeScale)
  let transactionHash := library.transactionHash row
  let transactionMatch := transactionHash.isSome && transactionHash = trade.transactionHash
  let timestampDeltaNs :=
    match timestamp, trade.exchangeTimestampNs with
    | some timestamp, some exchangeTimestampNs => some |timestamp - exchangeTimestampNs|
    | _, _ => none
  let timestampMatch := timestampDeltaNs.any (· ≤ 2000000000)
  let priceMatch := price = some expectedPrice
  let sizeMatch := size.isSome && size = expectedSize
  return {
    priceError := priceError
    sizeError := sizeError
    timestampError := timestampError
    transactionHash := transactionHash
    timestampDeltaNs := timestampDeltaNs
    transactionMatch := transactionMatch
    timestampMatch := timestampMatch
    priceMatch := priceMatch
    sizeMatch := sizeMatch
    priceDiffers := price.isSome && !priceMatch
    sizeDiffers := size.isSome && expectedSize.isSome && !sizeMatch
    transactionDiffers := transactionHash.isSome && trade.transactionHash.isSome && !transactionMatch
    timestampDiffers := timestampDeltaNs.isSome && !timestampMatch }

end ReconciliationLibrary

namespace Comparison

variable (comparison : Comparison)

def matchedFields : List String :=
  ["condition_id", "token_id"] ++
    (if comparison.transactionMatch then ["transaction_hash"] else []) ++
    (if comparison.timestampMatch then ["timestamp"] else []) ++
    (if comparison.priceMatch then ["price"] else []) ++
    (if comparison.sizeMatch then ["size"] else [])

def mismatchedFields : List String :=
  (if comparison.priceDiffers then ["price"] else []) ++
    (if comparison.sizeDiffers then ["size"] else []) ++
    (if comparison.transactionDiffers then ["transaction_hash"] else []) ++
    (if comparison.timestampDiffers then ["timestamp"] else [])

/-- The kind of the match and its priority, if it is one at all. -/
def verdict : Option (MatchStatus × ℕ) :=
  if comparison.transactionMatch && comparison.priceMatch && comparison.sizeMatch then
    some (.exactMatch, 300)
  else if comparison.timestampMatch && comparison.priceMatch && comparison.sizeMatch then
    some (.probableMatch, 200)
  else if comparison.transactionMatch &&
      (comparison.timestampMatch || comparison.priceMatch || comparison.sizeMatch) then
    some (.conflicting, 100)
  else none

end Comparison

namespace ReconciliationLibrary

open JsonValue

variable (library : ReconciliationLibrary)

def candidate (trade : TradeEvent) (index : ℕ) (row : Members) :
    Except ReadError (Option Candidate) := do
  let comparison ← library.compare trade row
  match comparison.verdict with
  | none => return none
  | some (status, priority) =>
    return some {
      apiIndex := index
      status := status
      priority := priority + comparison.matchedFields.length
      matchedFields := comparison.matchedFields
      mismatchedFields := comparison.mismatchedFields
      details := {
        apiPriceRaw := library.rawString (get row "price")
        apiSizeRaw := library.rawString (get row "size")
        apiTimestampRaw := library.rawString (get row "timestamp")
        apiTransactionHash := comparison.transactionHash
        timestampDeltaNs := comparison.timestampDeltaNs
        comparisonErrors :=
          [comparison.priceError, comparison.sizeError, comparison.timestampError].reduceOption } }

end ReconciliationLibrary

/-- The rows taken so far, and the results of the trades so far. -/
structure ReconciliationProgress where
  usedApi : Finset ℕ
  results : List ReconciliationResult

namespace ReconciliationLibrary

variable (library : ReconciliationLibrary)

/-- The matches among the free rows of the trade's market and token. -/
def candidates (rows : List Members) (usedApi : Finset ℕ) (trade : TradeEvent) :
    Except ReadError (List Candidate) := do
  let found ← (rows.zipIdx.filter fun entry =>
      entry.2 ∉ usedApi ∧ library.Concerns trade entry.1).mapM
    fun entry => library.candidate trade entry.2 entry.1
  return found.reduceOption

/-- The candidate of the highest priority, the first among equals. -/
def selected (candidates : List Candidate) : Option Candidate :=
  (sortByKey Candidate.rank candidates).head?

def reconcileTrade (rows : List Members) (progress : ReconciliationProgress)
    (trade : TradeEvent) : Except ReadError ReconciliationProgress := do
  let candidates ← library.candidates rows progress.usedApi trade
  match selected candidates with
  | some selected =>
    return {
      usedApi := insert selected.apiIndex progress.usedApi
      results := progress.results ++ [{
        status := selected.status
        websocketTradeId := some trade.tradeEventId
        apiIndex := some selected.apiIndex
        details := .matched selected.details candidates.length selected.matchedFields
          selected.mismatchedFields }] }
  | none =>
    return { progress with
      results := progress.results ++ [{
        status := .websocketOnly
        websocketTradeId := some trade.tradeEventId
        apiIndex := none
        details := .websocketOnly }] }

def apiOnlyResult (entry : Members × ℕ) : ReconciliationResult where
  status := .apiOnly
  websocketTradeId := none
  apiIndex := some entry.2
  details := .apiOnly (library.textOr entry.1 "conditionId" "") (library.textOr entry.1 "asset" "")
    (library.textOr entry.1 "transactionHash" "") (library.rawString (JsonValue.get entry.1 "price"))
    (library.rawString (JsonValue.get entry.1 "size"))
    (library.rawString (JsonValue.get entry.1 "timestamp"))

def apiOnly (rows : List Members) (usedApi : Finset ℕ) : List ReconciliationResult :=
  (rows.zipIdx.filter fun entry => entry.2 ∉ usedApi).map library.apiOnlyResult

/-- The entries of a response that are objects. -/
def apiRows (payload : List JsonValue) : List Members :=
  payload.filterMap fun
    | .object row => some row
    | _ => none

def reconcileTrades (websocketTrades : List TradeEvent) (dataApiRaw : String) :
    Except ReadError (List ReconciliationResult) := do
  match ← library.loads dataApiRaw with
  | .array payload =>
    let rows := apiRows payload
    let progress ← websocketTrades.foldlM (library.reconcileTrade rows) ⟨∅, []⟩
    return progress.results ++ library.apiOnly rows progress.usedApi
  | _ => .error ⟨.valueError, "Data API trades response must be a list"⟩

end ReconciliationLibrary

end PolymarketBt
