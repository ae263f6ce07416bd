import PolymarketBt.Model.OptimalExecution
import PolymarketBt.ToMathlib.RaisingMethod

/-! # The volume cursor over the columns of a tape

A session hands its cursor the prints of one tape. The class it uses reads three columns by position,
for tokens of any kind, and changes itself as it advances: the volume first, then the position, then
the instant.
-/

namespace PolymarketBt

open RaisingMethod

/-- The trades of a tape, column by column. -/
structure TradeColumns (Token : Type) where
  timestampsUtcNs : List ℤ
  tokenIndices : List Token
  sizesScaled : List ℤ

namespace TradeColumns

variable {Token : Type} [DecidableEq Token] (columns : TradeColumns Token) (tokenIndex : Token)

def cursorFrom (startUtcNs : ℤ) : Except PyError CausalVolumeCursor := do
  require (columns.timestampsUtcNs.length = columns.tokenIndices.length ∧
    columns.tokenIndices.length = columns.sizesScaled.length) "trade arrays must have equal lengths"
  require (columns.timestampsUtcNs.IsChain (· ≤ ·)) "trade timestamps must be sorted"
  require (∀ size ∈ columns.sizesScaled, 0 ≤ size) "trade sizes must be non-negative"
  return ⟨columns.timestampsUtcNs.bisectLeft startUtcNs, startUtcNs - 1, 0⟩

/-- The sizes of one token at the positions from one index up to another. -/
def sizesBetween (first last : ℕ) : List ℤ :=
  (List.range' first (last - first)).filterMap fun index =>
    if columns.tokenIndices[index]? = some tokenIndex then columns.sizesScaled[index]? else none

/-- Cumulative volume of one token through `nowUtcNs` inclusive. -/
def advance (nowUtcNs : ℤ) : RaisingMethod PyError CausalVolumeCursor ℤ := do
  let cursor ← get
  raising (require (cursor.lastUtcNs ≤ nowUtcNs) "causal volume cursor cannot move backwards")
  let last := columns.timestampsUtcNs.bisectRightFrom cursor.position nowUtcNs
  let fresh := (columns.sizesBetween tokenIndex cursor.position last).sum
  update fun cursor => { cursor with volumeScaled := cursor.volumeScaled + fresh }
  update fun cursor => { cursor with position := last }
  update fun cursor => { cursor with lastUtcNs := nowUtcNs }
  let advanced ← get
  return advanced.volumeScaled

/-- What successive calls return, and the cursor they leave. -/
def advanceAll : List ℤ → CausalVolumeCursor → List (Except PyError ℤ) × CausalVolumeCursor
  | [], cursor => ([], cursor)
  | nowUtcNs :: later, cursor =>
    let first := (columns.advance tokenIndex nowUtcNs).perform cursor
    let rest := advanceAll later first.2
    (first.1 :: rest.1, rest.2)

end TradeColumns

end PolymarketBt
