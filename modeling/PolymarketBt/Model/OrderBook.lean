import Mathlib.Tactic
import Std.Data.TreeMap
import PolymarketBt.Model.Failure

/-! # One token's book

The two sides are ordered maps from price to displayed size. Depth taken by simulated fills is an
overlay beside them: the recorded feed stays authoritative, and a level is freed again only when
the source restates it. A method that raises leaves its partial effects behind, so the mutating
methods return the book together with their result.
-/

namespace PolymarketBt

structure BookLevel where
  priceScaled : ℤ
  sizeScaled : ℤ
deriving DecidableEq, Repr

structure BookSnapshot where
  sequence : ℤ
  source : String
  conditionId : String
  tokenId : String
  outcome : String
  receivedUtcNs : ℤ
  bookHash : Option String
  tickSizeScaled : ℤ
  minimumOrderSizeScaled : ℤ
  bids : List BookLevel
  asks : List BookLevel
deriving DecidableEq, Repr

structure BookLevelChange where
  sequence : ℤ
  conditionId : String
  tokenId : String
  receivedUtcNs : ℤ
  side : Side
  priceScaled : ℤ
  newSizeScaled : ℤ
  bookHash : Option String
  reportedBestBidScaled : Option ℤ
  reportedBestAskScaled : Option ℤ
deriving DecidableEq, Repr

structure TickSizeChange where
  sequence : ℤ
  conditionId : String
  tokenId : String
  receivedUtcNs : ℤ
  newTickSizeScaled : ℤ
deriving DecidableEq, Repr

def validateLevel (priceScaled sizeScaled tickSizeScaled : ℤ) : List ValidationIssue :=
  (if priceMinScaled < priceScaled ∧ priceScaled < priceMaxScaled then []
    else [⟨"invalid_price", s!"price outside (0,1): {priceScaled}"⟩]) ++
  (if sizeScaled < 0 then [⟨"negative_size", s!"negative size: {sizeScaled}"⟩] else []) ++
  (if tickSizeScaled ≤ 0 ∨ priceScaled % tickSizeScaled ≠ 0 then
    [⟨"tick_noncompliance", s!"price {priceScaled} is not aligned to tick {tickSizeScaled}"⟩]
    else [])

def validateCross : Option ℤ → Option ℤ → List ValidationIssue
  | some bestBid, some bestAsk =>
    if bestBid ≥ bestAsk then
      [⟨"book_crossed", s!"best bid {bestBid} is not below best ask {bestAsk}"⟩]
    else []
  | _, _ => []

/-- One side of a book, from the lowest price to the highest. -/
abbrev Levels := Std.TreeMap ℤ ℤ

def highestPrice (side : Levels) : Option ℤ := (side.toList.reverse.head?).map Prod.fst
def lowestPrice (side : Levels) : Option ℤ := (side.toList.head?).map Prod.fst

/-- Simulated consumption of one side; a price without an entry has none. -/
abbrev Consumption := ℤ → ℤ

structure OrderBook where
  conditionId : String
  tokenId : String
  outcome : String
  bids : Levels
  asks : Levels
  consumedBids : Consumption
  consumedAsks : Consumption
  tickSizeScaled : ℤ
  minimumOrderSizeScaled : ℤ
  lastSequence : ℤ
  lastReceivedUtcNs : ℤ
  sourceHash : Option String
  valid : Bool

namespace OrderBook

def init (conditionId tokenId outcome : String) : OrderBook where
  conditionId := conditionId
  tokenId := tokenId
  outcome := outcome
  bids := ∅
  asks := ∅
  consumedBids := fun _ => 0
  consumedAsks := fun _ => 0
  tickSizeScaled := 10000
  minimumOrderSizeScaled := 0
  lastSequence := 0
  lastReceivedUtcNs := 0
  sourceHash := none
  valid := false

variable (book : OrderBook)

/-- The resting levels of one side, best price first. -/
def levels : Side → List (ℤ × ℤ)
  | .buy => book.bids.toList.reverse
  | .sell => book.asks.toList

def consumed : Side → Consumption
  | .buy => book.consumedBids
  | .sell => book.consumedAsks

def bestBid : Option ℤ := highestPrice book.bids
def bestAsk : Option ℤ := lowestPrice book.asks

end OrderBook

/-- Levels minus the consumption at their prices, exhausted levels dropped. -/
def remainingLevels (levels : List (ℤ × ℤ)) (consumed : Consumption) : List (ℤ × ℤ) :=
  levels.filterMap fun level =>
    if 0 < level.2 - consumed level.1 then some (level.1, level.2 - consumed level.1) else none

namespace OrderBook

variable (book : OrderBook)

def availableLevels (side : Side) : List (ℤ × ℤ) :=
  remainingLevels (book.levels side) (book.consumed side)

def withConsumed (side : Side) (consumed : Consumption) : OrderBook :=
  match side with
  | .buy => { book with consumedBids := consumed }
  | .sell => { book with consumedAsks := consumed }

def consume (side : Side) (priceScaled sizeScaled : ℤ) : OrderBook :=
  book.withConsumed side
    (Function.update (book.consumed side) priceScaled (book.consumed side priceScaled + sizeScaled))

/-- One listed level of a snapshot: keep it when it has size, collecting what is wrong with it. -/
def readLevel (duplicate : String) (tickSizeScaled : ℤ) (read : Levels × List ValidationIssue)
    (level : BookLevel) : Levels × List ValidationIssue :=
  (if 0 < level.sizeScaled then read.1.insert level.priceScaled level.sizeScaled else read.1,
    read.2 ++ validateLevel level.priceScaled level.sizeScaled tickSizeScaled ++
      (if read.1.contains level.priceScaled then [⟨"duplicate_level", duplicate⟩] else []))

def readSide (duplicate : String) (tickSizeScaled : ℤ) (listed : List BookLevel) :
    Levels × List ValidationIssue :=
  listed.foldl (readLevel duplicate tickSizeScaled) (∅, [])

/-- The book one snapshot describes, and the checks it fails. -/
def readSnapshot (snapshot : BookSnapshot) : Levels × Levels × List ValidationIssue :=
  let bids := readSide "duplicate bid price" snapshot.tickSizeScaled snapshot.bids
  let asks := readSide "duplicate ask price" snapshot.tickSizeScaled snapshot.asks
  (bids.1, asks.1, bids.2 ++ asks.2 ++ validateCross (highestPrice bids.1) (lowestPrice asks.1))

/-- Replace every level; `false` when the snapshot is older than the state it would overwrite. -/
def replace (snapshot : BookSnapshot) : OrderBook × Except PyError Bool :=
  if snapshot.tokenId ≠ book.tokenId ∨ snapshot.conditionId ≠ book.conditionId then
    (book, .error (.invalidBookState
      [⟨"token_mapping_invalid", "snapshot token/market does not match book"⟩]))
  else if snapshot.sequence < book.lastSequence then (book, .ok false)
  else
    match readSnapshot snapshot with
    | (bids, asks, []) =>
      ({ book with
          bids := bids
          asks := asks
          consumedBids := fun _ => 0
          consumedAsks := fun _ => 0
          tickSizeScaled := snapshot.tickSizeScaled
          minimumOrderSizeScaled := snapshot.minimumOrderSizeScaled
          lastSequence := snapshot.sequence
          lastReceivedUtcNs := snapshot.receivedUtcNs
          sourceHash := snapshot.bookHash
          valid := true }, .ok true)
    | (_, _, issues) => ({ book with valid := false }, .error (.invalidBookState issues))

def setLevel (side : Levels) (priceScaled sizeScaled : ℤ) : Levels :=
  if sizeScaled = 0 then side.erase priceScaled else side.insert priceScaled sizeScaled

/-- The source restates one level: its consumption no longer applies, and its size is absolute. -/
def restate (change : BookLevelChange) : OrderBook :=
  match change.side with
  | .buy =>
    { book with
      consumedBids := Function.update book.consumedBids change.priceScaled 0
      bids := setLevel book.bids change.priceScaled change.newSizeScaled }
  | .sell =>
    { book with
      consumedAsks := Function.update book.consumedAsks change.priceScaled 0
      asks := setLevel book.asks change.priceScaled change.newSizeScaled }

/-- Drop the bids above a reported best bid; zero reports an empty side. -/
def pruneBids (bids : Levels) : Option ℤ → Levels
  | none => bids
  | some reported => if reported = 0 then ∅ else bids.filter fun price _ => price ≤ reported

/-- Drop the asks below a reported best ask; the price scale reports an empty side. -/
def pruneAsks (asks : Levels) : Option ℤ → Levels
  | none => asks
  | some reported =>
    if reported = polymarketPriceScale then ∅ else asks.filter fun price _ => reported ≤ price

def pruneReported (change : BookLevelChange) : OrderBook :=
  { book with
    bids := pruneBids book.bids change.reportedBestBidScaled
    asks := pruneAsks book.asks change.reportedBestAskScaled }

/-- A reported top other than the local one; `empty` is the value that reports no quote at all. -/
def topMismatch (name : String) (best : Option ℤ) (empty : ℤ) : Option ℤ → List ValidationIssue
  | none => []
  | some reported =>
    let expected := if reported = empty then none else some reported
    if best ≠ expected then
      [⟨"reported_top_mismatch",
        s!"local {name} {showOptional best} != reported {showOptional expected}"⟩]
    else []

def topIssues (change : BookLevelChange) : List ValidationIssue :=
  validateCross book.bestBid book.bestAsk ++
    topMismatch "bid" book.bestBid 0 change.reportedBestBidScaled ++
    topMismatch "ask" book.bestAsk polymarketPriceScale change.reportedBestAskScaled

/-- Accept a changed book whose top is consistent; otherwise it stays changed and is invalid. -/
def acceptChange (change : BookLevelChange) : OrderBook × Except PyError Unit :=
  match book.topIssues change with
  | [] =>
    ({ book with
        lastSequence := change.sequence
        lastReceivedUtcNs := change.receivedUtcNs
        sourceHash :=
          match change.bookHash with
          | none => book.sourceHash
          | some hash => if hash = "" then book.sourceHash else some hash
        valid := true }, .ok ())
  | issues => ({ book with valid := false }, .error (.invalidBookState issues))

/-- Apply one absolute level change; a change older than the book is dropped silently. -/
def apply (change : BookLevelChange) : OrderBook × Except PyError Unit :=
  if change.tokenId ≠ book.tokenId ∨ change.conditionId ≠ book.conditionId then
    (book, .error (.invalidBookState
      [⟨"token_mapping_invalid", "update token/market does not match book"⟩]))
  else if change.sequence < book.lastSequence then (book, .ok ())
  else
    match validateLevel change.priceScaled change.newSizeScaled book.tickSizeScaled with
    | [] => ((book.restate change).pruneReported change).acceptChange change
    | issues => ({ book with valid := false }, .error (.invalidBookState issues))

end OrderBook

end PolymarketBt
