import Mathlib.Data.List.MinMax
import Mathlib.Data.Prod.Lex
import PolymarketBt.Model.Clock
import PolymarketBt.ToMathlib.KeyedList
import PolymarketBt.ToMathlib.StableSort

/-! # The venue parameters of an episode

An episode is run under the venue's parameters as they were observed by the open of its market. The
observations come from two endpoints of the order book and from the market listing; each carries
some of the parameters, and the selection merges the latest of each. A value of a row is a JSON value,
null where the row has none.
-/

namespace PolymarketBt

open KeyedList StableSort OrderDual

/-- What the projection of a payload takes from the standard library besides. -/
structure MetadataLibrary extends Library where
  /-- The JSON reader, with float fractions; `none` is a text that is not JSON. -/
  jsonLoads : String → Except ReadError (Option JsonValue)
  /-- The integer of a value. -/
  toInt : JsonValue → Except ReadError ℤ
  /-- A text without the blanks around it, in lower case. -/
  stripLower : String → String

/-- The parameters that are merged field by field. -/
inductive MergeField where
  | feeRate
  | feeExponent
  | feeTakerOnly
  | makerBaseFeeBps
  | takerBaseFeeBps
  | tickSizeScaled
  | minimumOrderSizeScaled
deriving DecidableEq, Repr

/-- An observation of the venue's parameters, or the selection made of several. -/
structure MetadataRow where
  receivedUtcNs : ℤ
  sequence : Option ℤ
  source : Option String
  metadataJson : Option String
  takerOrderDelayMs : Option ℤ
  fields : MergeField → JsonValue

/-- A version of a market in the listing. -/
structure GammaRow where
  discoveredUtcNs : ℤ
  feeFieldsJson : Option String

structure MarketOpen where
  conditionId : String
  marketStartUtcNs : ℤ
deriving DecidableEq, Repr

def JsonValue.isPresent : JsonValue → Bool
  | null => false
  | _ => true

/-! ## The delay of a payload -/

namespace MetadataLibrary

variable (library : MetadataLibrary)

def optionalInt (value : JsonValue) : Except ReadError (Option ℤ) := do
  if ← value.blank then return none
  match library.toInt (.text (library.str value)) with
  | .ok number => return some number
  | .error _ => return none

/-- Seconds as whole milliseconds; texts that are not numbers and negative numbers have none. -/
def secondsToExactMs (value : JsonValue) : Except ReadError (Option ℤ) := do
  if ← value.blank then return none
  match library.decimal (library.str value) with
  | some (.finite seconds) =>
    match Decimal.round (seconds * 1000) with
    | none => .error ⟨.decimalOverflow, "decimal overflow"⟩
    | some milliseconds =>
      if 0 ≤ milliseconds ∧ milliseconds.den = 1 then return some milliseconds.num
      else return none
  | _ => return none

def optionalBool : JsonValue → Option Bool
  | .bool value => some value
  | .int value => if value = 0 ∨ value = 1 then some (value ≠ 0) else none
  | .text value =>
    if library.stripLower value ∈ ["true", "1"] then some true
    else if library.stripLower value ∈ ["false", "0"] then some false
    else none
  | _ => none

/-- The first member that is neither null nor the empty text. -/
def firstGiven (payload : List (String × JsonValue)) :
    List String → Except ReadError (Option JsonValue)
  | [] => .ok none
  | key :: rest => do
    if ← (JsonValue.get payload key).blank then firstGiven payload rest
    else return some (JsonValue.get payload key)

/-- An explicit duration; a flag that the delay is off is a delay of zero, and one that it is on is
no duration. -/
def takerOrderDelayMsFromPayload (payload : List (String × JsonValue)) :
    Except ReadError (Option ℤ) := do
  match ← firstGiven payload ["taker_order_delay_ms", "takerOrderDelayMs", "orderDelayMs",
      "order_delay_ms"] with
  | some value => return (← library.optionalInt value).map fun delay => max delay 0
  | none =>
    match ["seconds_delay", "secondsDelay"].findSome? fun key => payload.lookup key with
    | some value => library.secondsToExactMs value
    | none =>
      match ["itode", "takerOrderDelayEnabled", "orderDelayEnabled"].findSome? fun key =>
        payload.lookup key with
      | some value => return if library.optionalBool value = some false then some 0 else none
      | none => return none

/-- The JSON text of a column, the empty object where it has none. -/
def columnJson (text : Option String) : Except ReadError JsonValue := do
  let shown := if text.getD "" = "" then "{}" else text.getD ""
  return (← library.jsonLoads shown).getD (.object [])

end MetadataLibrary

namespace MetadataRow

def isClob (row : MetadataRow) : Bool :=
  "clob_rest".toList.isPrefixOf (row.source.getD "").toList

def observationOrder (row : MetadataRow) : ℤ ×ₗ ℤ := toLex (row.receivedUtcNs, row.sequence.getD 0)

/-- An observation of the order book takes its delay from its payload again. -/
def normalized (library : MetadataLibrary) (row : MetadataRow) : Except ReadError MetadataRow := do
  if row.isClob then
    match ← library.columnJson row.metadataJson with
    | .object payload =>
      return { row with takerOrderDelayMs := ← library.takerOrderDelayMsFromPayload payload }
    | _ => return row
  else return row

end MetadataRow

/-! ## The selection -/

/-- The first of the items with the greatest key. -/
def maxBy {α κ : Type*} [LinearOrder κ] (key : α → κ) (items : List α) : Option α :=
  items.argmax key

/-- The fields of the newest observations that carry them, and the delay of the newest market detail
or else of the newest observation. -/
def mergeClob (clobObserved : List MetadataRow) (selected : MetadataRow) : MetadataRow :=
  let newestFirst := sortByKey (fun row => toDual row.observationOrder) clobObserved
  let details := clobObserved.filter fun row => row.source = some "clob_rest_market"
  let delaySource := maxBy MetadataRow.observationOrder
    (if details ≠ [] then details else clobObserved)
  { selected with
    fields := fun field =>
      ((newestFirst.map fun row => row.fields field).find? JsonValue.isPresent).getD
        (selected.fields field)
    takerOrderDelayMs := delaySource.bind MetadataRow.takerOrderDelayMs }

/-- Fields that are still null are taken from the newest observation of the listing. -/
def fillFromGamma (gammaObserved : List MetadataRow) (selected : MetadataRow) : MetadataRow :=
  match maxBy MetadataRow.observationOrder gammaObserved with
  | none => selected
  | some fallback =>
    { selected with
      fields := fun field =>
        if (selected.fields field).isPresent then selected.fields field else fallback.fields field }

def selectObserved (observed : List MetadataRow) : Option MetadataRow :=
  let clobObserved := observed.filter MetadataRow.isClob
  let gammaObserved := observed.filter fun row => row.source = some "gamma"
  let authority := if clobObserved ≠ [] then clobObserved else observed
  (maxBy MetadataRow.observationOrder authority).map fun latest =>
    if clobObserved ≠ [] then fillFromGamma gammaObserved (mergeClob clobObserved latest)
    else latest

/-- The parameters in the fee fields of a listed version, if it has a fee schedule. -/
def gammaSelection (library : MetadataLibrary) (row : GammaRow) :
    Except ReadError (Option MetadataRow) := do
  match ← library.columnJson row.feeFieldsJson with
  | .object feeFields =>
    match JsonValue.get feeFields "feeSchedule" with
    | .object schedule =>
      if schedule = [] then return none
      let exponent ←
        match JsonValue.get schedule "exponent" with
        | .null => pure .null
        | value => do pure (.int (← library.toInt value))
      return some {
        receivedUtcNs := row.discoveredUtcNs
        sequence := none
        source := some "gamma"
        metadataJson := none
        takerOrderDelayMs := none
        fields := fun
          | .feeRate =>
            match JsonValue.get schedule "rate" with
            | .null => .null
            | value => .text (library.str value)
          | .feeExponent => exponent
          | .feeTakerOnly =>
            match schedule.lookup "takerOnly" with
            | none => .null
            | some value => .bool value.truthy
          | .makerBaseFeeBps => JsonValue.get feeFields "makerBaseFee"
          | .takerBaseFeeBps => JsonValue.get feeFields "takerBaseFee"
          | .tickSizeScaled => .null
          | .minimumOrderSizeScaled => .null }
    | _ => return none
  | _ => return none

/-- The parameters of one market: of the observations by its open, or else of the last listed version
by then. -/
def selectMetadata (library : MetadataLibrary) (candidates : List MetadataRow)
    (gammaHistory : List GammaRow) (start : ℤ) : Except ReadError (Option MetadataRow) :=
  let observed := candidates.filter fun row => row.receivedUtcNs ≤ start
  if observed ≠ [] then .ok (selectObserved observed)
  else
    let historicalGamma := gammaHistory.filter fun row => row.discoveredUtcNs ≤ start
    match maxBy GammaRow.discoveredUtcNs historicalGamma with
    | none => .ok none
    | some gammaRow => gammaSelection library gammaRow

/-- The rows of a condition. -/
def rowsOf {α : Type*} (conditionId : String) (rows : List (String × α)) : List α :=
  (rows.filter fun row => row.1 = conditionId).map Prod.snd

/-- The parameters of one market, if it has some, go under its condition. -/
def recordMetadata (library : MetadataLibrary) (candidates : List (String × MetadataRow))
    (gammaRows : List (String × GammaRow)) (result : List (String × MetadataRow))
    (market : MarketOpen) : Except ReadError (List (String × MetadataRow)) := do
  match ← selectMetadata library (rowsOf market.conditionId candidates)
      (rowsOf market.conditionId gammaRows) market.marketStartUtcNs with
  | some selected => return assign market.conditionId selected result
  | none => return result

/-- The parameters of every market that has some, by condition. -/
def executionMetadata (library : MetadataLibrary) (rows : List (String × MetadataRow))
    (gammaRows : List (String × GammaRow)) (markets : List MarketOpen) :
    Except ReadError (List (String × MetadataRow)) := do
  let candidates ← rows.mapM fun row => do return (row.1, ← row.2.normalized library)
  markets.foldlM (recordMetadata library candidates gammaRows) []

end PolymarketBt
