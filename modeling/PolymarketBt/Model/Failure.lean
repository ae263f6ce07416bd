import Mathlib.Tactic

/-! # Exceptions and units shared by the modelled modules

A function of the source that can raise is a function into `Except PyError`. A method that changes
its object before it raises returns the changed object beside the exception, because callers in the
tape builder and in the replay engine go on with that object. Prices, sizes and money are integers
on the fixed-point scales below; instants are integer nanoseconds.
-/

namespace PolymarketBt

/-- One failed check of a book event. -/
structure ValidationIssue where
  category : String
  message : String
deriving DecidableEq, Repr

/-- The exceptions the modelled functions raise. -/
inductive PyError where
  | valueError (message : String)
  | keyError (key : String)
  | lookupError (message : String)
  | assertionError
  /-- A decimal operation whose result does not exist or does not fit the context. -/
  | invalidOperation
  | invalidBookState (issues : List ValidationIssue)
  | insufficientReplayCash (message : String)
  /-- Bytes that are not the UTF-8 encoding of a text. -/
  | unicodeDecodeError
deriving DecidableEq, Repr

def polymarketPriceScale : ℤ := 1000000
def shareSizeScale : ℤ := 1000000
def usdcScale : ℤ := 1000000
def priceMinScaled : ℤ := 0
def priceMaxScaled : ℤ := polymarketPriceScale

/-- Parts per million. -/
def ppm : ℤ := 1000000

/-- The side of a resting quote, and of an order. -/
inductive Side where
  | buy
  | sell
deriving DecidableEq, Repr

/-- Raise unless a condition holds. -/
def require (condition : Prop) [Decidable condition] (message : String) : Except PyError Unit :=
  if condition then .ok () else .error (.valueError message)

@[simp] theorem require_eq_ok {condition : Prop} [Decidable condition] {message : String}
    {result : Unit} : require condition message = .ok result ↔ condition := by
  unfold require
  split <;> simp_all

theorem require_ok {condition : Prop} [Decidable condition] (holds : condition) (message : String) :
    require condition message = .ok () := if_pos holds

/-- An optional integer as a formatted string shows it. -/
def showOptional : Option ℤ → String
  | none => "None"
  | some value => s!"{value}"

end PolymarketBt
