import PolymarketBt.Model.Failure
import PolymarketBt.ToMathlib.Decimal

/-! # Reading numbers and instants out of JSON values

Numbers arrive as decimal texts and leave as integers on a fixed scale, or raise. What the
conversions take from the standard library and from the ISO parser (the reading of a JSON text, the
text and the representation of a value, the reading of a decimal text and of an ISO instant) is a
record of functions. A text is a sequence of characters, so unpaired surrogates are left out.
-/

namespace PolymarketBt

/-- A decimal object; a finite one is its rational value. -/
inductive PyDecimal where
  | finite (value : ℚ)
  | infinity
  | nan
deriving DecidableEq, Repr

/-- A value of a JSON text; its fractions are decimals, and its constants are not finite. -/
inductive JsonValue where
  | null
  | bool (value : Bool)
  | int (value : ℤ)
  | decimal (value : ℚ)
  | constant (value : PyDecimal)
  | text (value : String)
  | array (values : List JsonValue)
  | object (members : List (String × JsonValue))

inductive ErrorKind where
  | keyError
  | valueError
  | precisionError
  | typeError
  | invalidOperation
  | decimalOverflow
  | overflowError
  | recursionError
deriving DecidableEq, Repr

/-- An exception with its text. -/
structure ReadError where
  kind : ErrorKind
  text : String
deriving DecidableEq, Repr

/-- An ISO instant: whether it names a time zone, and days, seconds and microseconds since the epoch
in UTC where these exist. -/
structure IsoDatetime where
  aware : Bool
  sinceEpoch : Except ReadError (ℤ × ℤ × ℤ)

/-- What the parser takes from its libraries. -/
structure Library where
  /-- The JSON reader, with decimal fractions. -/
  loads : String → Except ReadError JsonValue
  /-- The text of a value that is not itself a text. -/
  render : JsonValue → String
  repr : JsonValue → String
  /-- The decimal of a text, exactly; `none` is a text that is not a decimal. -/
  decimal : String → Option PyDecimal
  /-- A text of digits, up to blanks around it and one point. -/
  looksNumeric : String → Bool
  isoparse : String → Except ReadError IsoDatetime
  upper : String → String
  /-- The name-based identifier under the URL namespace. -/
  uuid5 : String → String

namespace JsonValue

/-- The truth value of a value in a condition. -/
def truthy : JsonValue → Bool
  | null => false
  | bool value => value
  | int value => value ≠ 0
  | decimal value => value ≠ 0
  | constant _ => true
  | text value => value ≠ ""
  | array values => !values.isEmpty
  | object members => !members.isEmpty

/-- Membership in the set of null and the empty text; containers cannot be hashed. -/
def blank : JsonValue → Except ReadError Bool
  | null => .ok true
  | text value => .ok (value = "")
  | array _ => .error ⟨.typeError, "unhashable type: 'list'"⟩
  | object _ => .error ⟨.typeError, "unhashable type: 'dict'"⟩
  | _ => .ok false

/-- The member of an object, null where it has none. -/
def get (members : List (String × JsonValue)) (key : String) : JsonValue :=
  (members.lookup key).getD null

end JsonValue

namespace Library

variable (library : Library)

def str : JsonValue → String
  | .text value => value
  | value => library.render value

/-- The member of an object, which has to be there. -/
def getItem (members : List (String × JsonValue)) (key : String) : Except ReadError JsonValue :=
  match members.lookup key with
  | some value => .ok value
  | none => .error ⟨.keyError, library.repr (.text key)⟩

/-- The text of the first member that is true, or a default. -/
def textOr (members : List (String × JsonValue)) (key default : String) : String :=
  let value := JsonValue.get members key
  if value.truthy then library.str value else default

/-- The text of a member that is true. -/
def truthyText (members : List (String × JsonValue)) (key : String) : Option String :=
  let value := JsonValue.get members key
  if value.truthy then some (library.str value) else none

/-- The text of a member that is not null. -/
def presentText (members : List (String × JsonValue)) (key : String) : Option String :=
  match JsonValue.get members key with
  | .null => none
  | value => some (library.str value)

end Library

/-- A finite decimal on an integer scale, when it lies on it. -/
def scaleDecimal (decimal : PyDecimal) (shown : String) (scale : ℤ) (field : String) :
    Except ReadError ℤ :=
  match decimal with
  | .finite value =>
    match Decimal.round (value * scale) with
    | none => .error ⟨.decimalOverflow, "decimal overflow"⟩
    | some scaled =>
      if scaled.den = 1 then .ok scaled.num
      else .error ⟨.precisionError,
        s!"{field}={shown} exceeds supported precision for scale {scale}"⟩
  | _ => .error ⟨.valueError, s!"non-finite decimal for {field}: {shown}"⟩

def decimalToScaled (library : Library) (text : String) (scale : ℤ) (field : String) :
    Except ReadError ℤ :=
  match library.decimal text with
  | none => .error ⟨.valueError, s!"invalid decimal for {field}: {library.repr (.text text)}"⟩
  | some decimal => scaleDecimal decimal (library.repr (.text text)) scale field

/-- The factor that the size of a numeric timestamp selects: seconds, ms, us or ns. -/
def timestampMultiplier (absolute : ℚ) : ℚ :=
  if absolute < 100000000000 then 1000000000
  else if absolute < 100000000000000 then 1000000
  else if absolute < 100000000000000000 then 1000
  else 1

/-- Numeric timestamps; a number that is not finite fails in the arithmetic. -/
def numericTimestampNs (numeric : PyDecimal) (shown : String) : Except ReadError ℤ :=
  match numeric with
  | .nan => .error ⟨.invalidOperation, "comparison involving NaN"⟩
  | .infinity => .error ⟨.overflowError, "cannot convert Infinity to integer"⟩
  | .finite value =>
    match Decimal.round |value| with
    | none => .error ⟨.decimalOverflow, "decimal overflow"⟩
    | some absolute =>
      match Decimal.round (value * timestampMultiplier absolute) with
      | none => .error ⟨.decimalOverflow, "decimal overflow"⟩
      | some result =>
        if result.den = 1 then .ok result.num
        else .error ⟨.precisionError, s!"timestamp exceeds nanosecond precision: {shown}"⟩

def isoTimestampNs (library : Library) (value : String) : Except ReadError ℤ := do
  let parsed ← library.isoparse value
  if parsed.aware then
    let (days, seconds, microseconds) ← parsed.sinceEpoch
    return days * 86400 * 1000000000 + seconds * 1000000000 + microseconds * 1000
  else
    .error ⟨.valueError, s!"timestamp lacks timezone: {library.repr (.text value)}"⟩

/-- A Unix timestamp in s, ms, us or ns, or an ISO instant; null and the empty text are absent. -/
def parseTimestampNs (library : Library) (value : JsonValue) : Except ReadError (Option ℤ) :=
  let numeric : Except ReadError (Option ℤ) :=
    match library.decimal (library.str value) with
    | none => .error ⟨.valueError, s!"invalid timestamp: {library.repr value}"⟩
    | some decimal => (numericTimestampNs decimal (library.repr value)).map some
  match value with
  | .null => .ok none
  | .text text =>
    if text = "" then .ok none
    else if library.looksNumeric text then numeric
    else (isoTimestampNs library text).map some
  | _ => numeric

end PolymarketBt
