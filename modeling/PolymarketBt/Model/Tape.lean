import PolymarketBt.Model.Reconstructor

/-! # Episodes and their tapes

A tape is the list of book states one episode went through. A row carries the event that produced
it, the quotes at the top of the book and the ladder of each side; ladders of a finite depth are
padded with zeros and an absent quote is stored as a sentinel, as in the columns on disk. Rows are
read through the accessors below, which undo both encodings.
-/

namespace PolymarketBt

/-- One market: its window, its two outcome tokens, its settled winner and its venue terms. -/
structure Episode where
  conditionId : String
  marketSlug : String
  startUtcNs : ℤ
  endUtcNs : ℤ
  upTokenId : String
  downTokenId : String
  tickSizeScaled : ℤ
  minimumOrderSizeScaled : ℤ
  winnerTokenId : Option String
  winnerOutcome : Option String
  eligible : Bool
  exclusionReason : Option String
  feeRate : Option ℚ
  feeExponent : Option ℤ
  /-- The payload reader clamps a published delay at zero. -/
  takerOrderDelayMs : Option ℕ
deriving DecidableEq, Repr

def Episode.tokenOutcome (episode : Episode) (tokenId : String) : Except PyError String :=
  if tokenId = episode.upTokenId then .ok "UP"
  else if tokenId = episode.downTokenId then .ok "DOWN"
  else .error (.keyError s!"token {tokenId} does not belong to {episode.conditionId}")

inductive TokenIndex where
  | up
  | down
deriving DecidableEq, Repr

def Episode.tokenIdOf (episode : Episode) : TokenIndex → String
  | .up => episode.upTokenId
  | .down => episode.downTokenId

inductive EventKind where
  | snapshot
  | tick
  | update
deriving DecidableEq, Repr

def BookEvent.kind : BookEvent → EventKind
  | .snapshot _ => .snapshot
  | .tick _ => .tick
  | .update _ => .update

/-- The stored ladder of one side; both columns of a row have one length. -/
structure LadderColumns where
  pricesScaled : List ℤ
  sizesScaled : List ℤ
  depthBeyondScaled : ℤ
  aligned : pricesScaled.length = sizesScaled.length := by decide
deriving DecidableEq, Repr

namespace LadderColumns

/-- Levels with positive size, best first. -/
def levels (columns : LadderColumns) : List (ℤ × ℤ) :=
  (columns.pricesScaled.zip columns.sizesScaled).filter fun level => 0 < level.2

/-- The levels a tape of this depth keeps. -/
def kept (depth : Option ℕ) (levels : List (ℤ × ℤ)) : List (ℤ × ℤ) :=
  match depth with
  | none => levels
  | some depth => levels.take depth

/-- The zeros that fill a column up to a finite depth. -/
def padding (depth : Option ℕ) (levels : List (ℤ × ℤ)) : List ℤ :=
  match depth with
  | none => []
  | some depth => List.replicate (depth - (kept depth levels).length) 0

def store (depth : Option ℕ) (levels : List (ℤ × ℤ)) : LadderColumns where
  pricesScaled := (kept depth levels).map Prod.fst ++ padding depth levels
  sizesScaled := (kept depth levels).map Prod.snd ++ padding depth levels
  depthBeyondScaled :=
    match depth with
    | none => 0
    | some depth => ((levels.drop depth).map Prod.snd).sum
  aligned := by simp

end LadderColumns

/-- The value a quote column stores where there is no quote. -/
def noQuote : ℤ := -1

structure TapeRow where
  receivedUtcNs : ℤ
  tokenIndex : TokenIndex
  eventKind : EventKind
  eventSide : Option Side
  eventPriceScaled : ℤ
  bookValid : Bool
  bestBidColumn : ℤ
  bestAskColumn : ℤ
  bids : LadderColumns
  asks : LadderColumns
deriving DecidableEq, Repr

def readQuote (column : ℤ) : Option ℤ := if column = noQuote then none else some column

namespace TapeRow

def bestBidScaled (row : TapeRow) : Option ℤ := readQuote row.bestBidColumn
def bestAskScaled (row : TapeRow) : Option ℤ := readQuote row.bestAskColumn

def columns (row : TapeRow) : Side → LadderColumns
  | .buy => row.bids
  | .sell => row.asks

/-- The ladder of the resting side. -/
def ladder (row : TapeRow) (bookSide : Side) : List (ℤ × ℤ) := (row.columns bookSide).levels

end TapeRow

/-- The resting side an order of the given side consumes. -/
def Side.taken : Side → Side
  | .buy => .sell
  | .sell => .buy

def TapeRow.depthBeyond (row : TapeRow) (bookSide : Side) : ℤ :=
  (row.columns bookSide).depthBeyondScaled

structure TradePrint where
  receivedUtcNs : ℤ
  tokenIndex : TokenIndex
  sizeScaled : ℤ
deriving DecidableEq, Repr

/-- A span in which a token's reconstruction is not trusted, both ends included. -/
structure UncertaintySpan where
  tokenId : String
  startUtcNs : ℤ
  endUtcNs : Option ℤ
  reason : String
deriving DecidableEq, Repr

def UncertaintySpan.covers (span : UncertaintySpan) (tokenId : String) (timestampNs : ℤ) : Bool :=
  span.tokenId = tokenId && span.startUtcNs ≤ timestampNs &&
    span.endUtcNs.all fun last => timestampNs ≤ last

structure EpisodeTape where
  episode : Episode
  depth : Option ℕ
  rows : List TapeRow
  trades : List TradePrint
  uncertainty : List UncertaintySpan
deriving DecidableEq, Repr

namespace EpisodeTape

variable (tape : EpisodeTape)

def tokenIndexOf (tokenId : String) : TokenIndex :=
  if tokenId = tape.episode.upTokenId then .up else .down

def tokenIdOf (tokenIndex : TokenIndex) : String := tape.episode.tokenIdOf tokenIndex

def isUncertain (tokenId : String) (timestampNs : ℤ) : Bool :=
  tape.uncertainty.any fun span => span.covers tokenId timestampNs

end EpisodeTape

/-! ## Building a tape -/

structure BuildState where
  reconstructor : BookReconstructor
  rows : List TapeRow
  invalidEvents : ℕ
  uncertainty : List UncertaintySpan
  /-- The open span of each token, in the order they were opened. -/
  pendingUncertain : List UncertaintySpan

/-- The name of the exception's type. -/
def PyError.typeName : PyError → String
  | .valueError _ => "ValueError"
  | .keyError _ => "KeyError"
  | .lookupError _ => "LookupError"
  | .assertionError => "AssertionError"
  | .invalidOperation => "InvalidOperation"
  | .invalidBookState _ => "InvalidBookState"
  | .insufficientReplayCash _ => "InsufficientReplayCash"
  | .unicodeDecodeError => "UnicodeDecodeError"

structure TapeBuilder where
  depth : Option ℕ

namespace TapeBuilder

variable (builder : TapeBuilder)

/-- The two tokens of the episode; the entry of the down token is written last. -/
def tokens (episode : Episode) (tokenId : String) : Option TokenIndex :=
  if tokenId = episode.downTokenId then some .down
  else if tokenId = episode.upTokenId then some .up
  else none

/-- The best kept price, or the sentinel. -/
def bestColumn (levels : List (ℤ × ℤ)) : ℤ :=
  (((LadderColumns.kept builder.depth levels).head?).map Prod.fst).getD noQuote

def rowOf (event : BookEvent) (tokenIndex : TokenIndex) (book : OrderBook) : TapeRow where
  receivedUtcNs := event.receivedUtcNs
  tokenIndex := tokenIndex
  eventKind := event.kind
  eventSide :=
    match event with
    | .update change => some change.side
    | _ => none
  eventPriceScaled :=
    match event with
    | .update change => change.priceScaled
    | _ => 0
  bookValid := book.valid
  bestBidColumn := builder.bestColumn (book.levels .buy)
  bestAskColumn := builder.bestColumn (book.levels .sell)
  bids := .store builder.depth (book.levels .buy)
  asks := .store builder.depth (book.levels .sell)

/-- An event that raises leaves no row: its book is invalid and a span opens unless one is open. -/
def refuse (state : BuildState) (applied : BookReconstructor) (event : BookEvent) (error : PyError) :
    BuildState :=
  { state with
    reconstructor := applied.invalidate event.tokenId
    invalidEvents := state.invalidEvents + 1
    pendingUncertain :=
      if state.pendingUncertain.any fun span => span.tokenId = event.tokenId then
        state.pendingUncertain
      else
        state.pendingUncertain ++
          [⟨event.tokenId, event.receivedUtcNs, none, error.typeName⟩] }

/-- A snapshot that does not raise ends the open span of its token, also when it is stale. -/
def closeSpan (state : BuildState) (event : BookEvent) : BuildState :=
  match event with
  | .snapshot _ =>
    { state with
      uncertainty := state.uncertainty ++
        ((state.pendingUncertain.filter fun span => span.tokenId = event.tokenId).map
          fun span => { span with endUtcNs := some event.receivedUtcNs })
      pendingUncertain := state.pendingUncertain.filter fun span => span.tokenId ≠ event.tokenId }
  | _ => state

def appendRow (state : BuildState) (event : BookEvent) (tokenIndex : TokenIndex) : BuildState :=
  match state.reconstructor.books event.tokenId with
  | none => state
  | some book => { state with rows := state.rows ++ [builder.rowOf event tokenIndex book] }

def step (episode : Episode) (state : BuildState) (event : BookEvent) : Except PyError BuildState :=
  match tokens episode event.tokenId with
  | none => .error (.keyError event.tokenId)
  | some tokenIndex =>
    match state.reconstructor.applyEvent event with
    | (applied, .error error) => .ok (refuse state applied event error)
    | (applied, .ok _) =>
      .ok (builder.appendRow (closeSpan { state with reconstructor := applied } event) event
        tokenIndex)

def scan (episode : Episode) (events : List BookEvent) : Except PyError BuildState :=
  events.foldlM (builder.step episode) ⟨.init, [], 0, [], []⟩

/-- Build the tape of an episode from its ordered events and its public prints. -/
def build (episode : Episode) (events : List BookEvent) (trades : List TradePrint) :
    Except PyError EpisodeTape := do
  let state ← builder.scan episode events
  return {
    episode := episode
    depth := builder.depth
    rows := state.rows
    trades := trades
    uncertainty := state.uncertainty ++ state.pendingUncertain }

end TapeBuilder

end PolymarketBt
