import PolymarketBt.Model.ConnectionLog
import PolymarketBt.Model.ExecutionMetadata
import PolymarketBt.Model.Tape

/-! # The episode index

The index has one episode for every listed condition. It names the winner, by an authoritative
resolution where one is recorded and by independent public observations otherwise, says when that
evidence was available, and excludes the episodes whose recording is not fit for a replay. Queries
are functions of the rows of the datasets; of rows at one instant a query that keeps one keeps the
first. The venue terms of a condition are the ones its execution metadata give.
-/

namespace PolymarketBt

open StableSort

def settledBidScaled : ℤ := 950000
def settledAskScaled : ℤ := 50000
def referenceMaxAgeNs : ℤ := 60000000000

/-- Replay bounds around a market, in nanoseconds relative to the schedule. -/
structure EpisodeWindow where
  preStartNs : ℤ := 300000000000
  postEndNs : ℤ := 60000000000
deriving DecidableEq, Repr

inductive WinnerSource where
  | marketResolution
  | gamma
  | terminalBook
  | referencePrice
  | ambiguous
deriving DecidableEq, Repr

/-! ## Rows of the datasets -/

/-- A version of a listing. -/
structure MarketRow where
  conditionId : String
  marketSlug : String
  marketStartUtcNs : ℤ
  marketEndUtcNs : ℤ
  start_le_end : marketStartUtcNs ≤ marketEndUtcNs
  upTokenId : Option String
  downTokenId : Option String
  tickSizeScaled : ℤ
  minimumOrderSizeScaled : ℤ
  winningTokenId : Option String
  discoveredUtcNs : ℤ
  resolvedUtcNs : Option ℤ

/-- An observation of the book of a token. -/
structure BookRow where
  tokenId : String
  receivedUtcNs : ℤ
deriving DecidableEq, Repr

structure QuoteRow where
  conditionId : String
  tokenId : String
  bestBidScaled : Option ℤ
  receivedUtcNs : ℤ
deriving DecidableEq, Repr

structure PriceRow where
  source : String
  receivedUtcNs : ℤ
  priceScaled : ℤ
deriving DecidableEq, Repr

structure ResolutionRow where
  conditionId : String
  winningTokenId : String
  receivedUtcNs : ℤ
deriving DecidableEq, Repr

inductive RecordedSeverity where
  | info
  | warning
  | error
  | critical
deriving DecidableEq, Repr

structure QualityRow where
  conditionId : Option String
  tokenId : Option String
  severity : RecordedSeverity
  startUtcNs : ℤ
  endUtcNs : Option ℤ
  replayEligible : Bool
deriving DecidableEq, Repr

structure VenueTerms where
  feeRate : Option ℚ
  feeExponent : Option ℤ
  takerOrderDelayMs : Option ℕ
deriving DecidableEq, Repr

/-- The normalized datasets. Connection events are those of the market websocket, in order of time. -/
structure IndexDatasets where
  markets : List MarketRow
  bookSnapshots : Option (List BookRow)
  bookUpdates : List BookRow
  topOfBook : List QuoteRow
  btcPrices : List PriceRow
  marketResolutions : List ResolutionRow
  dataQualityEvents : List QualityRow
  connectionEvents : List ConnectionEvent
  venueTerms : String → VenueTerms

/-- A listing with both of its tokens. -/
structure ListedMarket where
  row : MarketRow
  upTokenId : String
  downTokenId : String

def MarketRow.listed (row : MarketRow) : Option ListedMarket := do
  return ⟨row, ← row.upTokenId, ← row.downTokenId⟩

/-! ## Queries -/

structure TokenCoverage where
  events : ℕ
  first : ℤ
  last : ℤ
deriving DecidableEq, Repr

/-- The winner and the first receipt of recorded resolutions, or their contradiction. -/
structure RecordedResolution where
  winner : Option String := none
  received : Option ℤ := none
  conflict : Bool := false
deriving DecidableEq, Repr

structure ReferencePrice where
  source : String
  openScaled : ℤ
  closeScaled : ℤ
  openReceived : ℤ
  closeReceived : ℤ
deriving DecidableEq, Repr

structure QualitySummary where
  errors : ℕ
  blocking : ℕ
deriving DecidableEq, Repr

def MarketRow.schedule (row : MarketRow) : MarketWindow :=
  ⟨row.conditionId, row.marketStartUtcNs, row.marketEndUtcNs, row.start_le_end⟩

def MarketRow.versionKey (row : MarketRow) : ℤ ×ₗ ℤ :=
  toLex (row.discoveredUtcNs, row.marketStartUtcNs)

def QualityRow.isError (row : QualityRow) : Bool :=
  row.severity = .error || row.severity = .critical

/-- The row is about the market or one of its tokens, or about no market at all. -/
def QualityRow.concerns (market : ListedMarket) (row : QualityRow) : Bool :=
  row.conditionId = some market.row.conditionId ||
    row.tokenId = some market.upTokenId || row.tokenId = some market.downTokenId ||
    (row.conditionId = none && row.tokenId = none)

namespace IndexDatasets

variable (datasets : IndexDatasets) (window : EpisodeWindow)

/-- The latest version of each condition that has both tokens, in order of the starts. -/
def listings (startUtcNs endUtcNs : Option ℤ) : List ListedMarket :=
  let latest := (datasets.markets.map MarketRow.conditionId).dedup.filterMap fun conditionId =>
    (maxBy MarketRow.versionKey
      (datasets.markets.filter fun row => row.conditionId = conditionId)).bind MarketRow.listed
  sortByKey (fun market => market.row.marketStartUtcNs)
    (latest.filter fun market =>
      startUtcNs.all (· ≤ market.row.marketStartUtcNs) &&
        endUtcNs.all (market.row.marketEndUtcNs ≤ ·))

/-- The recorded book events of a token. -/
def bookTimes (tokenId : String) : List ℤ :=
  ((datasets.bookSnapshots.getD [] ++ datasets.bookUpdates).filter (·.tokenId = tokenId)).map
    BookRow.receivedUtcNs

/-- Recorded book coverage of a token. -/
def coverage (tokenId : String) : Option TokenCoverage := do
  let times := datasets.bookTimes tokenId
  return ⟨times.length, ← times.min?, ← times.max?⟩

/-- The end of the settlement window of a condition. -/
def settlementEnd (conditionId : String) : Option ℤ :=
  ((datasets.markets.filter fun row => row.conditionId = conditionId).map
    MarketRow.marketEndUtcNs).max?.map (· + window.postEndNs)

/-- The last quote of a token in its settlement window. -/
def terminalBook (tokenId : String) : Option QuoteRow :=
  maxBy QuoteRow.receivedUtcNs (datasets.topOfBook.filter fun row =>
    row.tokenId = tokenId &&
      (datasets.settlementEnd window row.conditionId).any (row.receivedUtcNs ≤ ·))

/-- The last prices of a source at the open and at the close of a market. -/
def pick (market : ListedMarket) (source : String) : Option ReferencePrice := do
  let near := datasets.btcPrices.filter fun row =>
    row.source = source && market.row.marketStartUtcNs - 900000000000 ≤ row.receivedUtcNs &&
      row.receivedUtcNs ≤ market.row.marketEndUtcNs
  let opened ← maxBy PriceRow.receivedUtcNs
    (near.filter (·.receivedUtcNs ≤ market.row.marketStartUtcNs))
  let closed ← maxBy PriceRow.receivedUtcNs
    (near.filter (·.receivedUtcNs ≤ market.row.marketEndUtcNs))
  return ⟨source, opened.priceScaled, closed.priceScaled, opened.receivedUtcNs, closed.receivedUtcNs⟩

/-- The price of the preferred source whose observations at both boundaries are recent. -/
def referencePrice (market : ListedMarket) : Option ReferencePrice :=
  ["CHAINLINK_BTCUSD", "BINANCE_BTCUSDT"].findSome? fun source =>
    (datasets.pick market source).filter fun price =>
      market.row.marketStartUtcNs - price.openReceived ≤ referenceMaxAgeNs &&
        market.row.marketEndUtcNs - price.closeReceived ≤ referenceMaxAgeNs

/-- The recorded resolutions of a condition. -/
def resolutionsOf (conditionId : String) : List ResolutionRow :=
  datasets.marketResolutions.filter (·.conditionId = conditionId)

/-- The authoritative winner, contradictory resolutions rejected. -/
def recordedResolution (conditionId : String) : RecordedResolution :=
  let values := datasets.resolutionsOf conditionId
  match (values.map ResolutionRow.winningTokenId).dedup with
  | [] => {}
  | [winner] => { winner := some winner, received := (values.map ResolutionRow.receivedUtcNs).min? }
  | _ => { conflict := true }

/-- The end of a quality interval; an open one of a token ends with its next snapshot. -/
def qualityEnd (row : QualityRow) : ℤ :=
  match datasets.bookSnapshots with
  | none => row.endUtcNs.getD row.startUtcNs
  | some snapshots =>
    match row.endUtcNs, row.tokenId with
    | some time, _ => time
    | none, some tokenId =>
      ((snapshots.filter fun snapshot =>
        snapshot.tokenId = tokenId && row.startUtcNs < snapshot.receivedUtcNs).map
          BookRow.receivedUtcNs).min?.getD 9223372036854775807
    | none, none => row.startUtcNs

/-- The quality rows that concern a market and overlap its window. -/
def qualityRows (market : ListedMarket) : List QualityRow :=
  datasets.dataQualityEvents.filter fun row =>
    row.concerns market && row.startUtcNs ≤ market.row.marketEndUtcNs &&
      market.row.marketStartUtcNs ≤ datasets.qualityEnd row

def qualitySummary (market : ListedMarket) : QualitySummary :=
  let errors := (datasets.qualityRows market).filter QualityRow.isError
  ⟨errors.length, (errors.filter fun row => !row.replayEligible).length⟩

end IndexDatasets

/-! ## The winner -/

def winnerFromTerminalBook (upToken downToken : String) (upBid downBid : Option ℤ) :
    Option String :=
  let upSettled := upBid.any (settledBidScaled ≤ ·)
  let downSettled := downBid.any (settledBidScaled ≤ ·)
  let upDead := upBid.all (· ≤ settledAskScaled)
  let downDead := downBid.all (· ≤ settledAskScaled)
  if upSettled && downDead then some upToken
  else if downSettled && upDead then some downToken
  else none

/-- A close equal to the open resolves up. -/
def winnerFromReference (upToken downToken : String) (reference : Option ReferencePrice) :
    Option String :=
  reference.map fun price => if price.openScaled ≤ price.closeScaled then upToken else downToken

structure ResolvedWinner where
  token : Option String
  source : WinnerSource
  confidence : ℚ
deriving DecidableEq

def ResolvedWinner.undetermined : ResolvedWinner := ⟨none, .ambiguous, 0⟩

/-- An authoritative resolution, else the listing's winner, else the terminal book and the reference
price, which must not contradict each other. -/
def resolveWinner (gammaWinner : Option String) (upToken downToken : String)
    (upBid downBid : Option ℤ) (reference : Option ReferencePrice)
    (resolution : RecordedResolution) : ResolvedWinner :=
  if resolution.conflict then .undetermined
  else
    match resolution.winner with
    | some winner =>
      if winner = upToken ∨ winner = downToken then ⟨some winner, .marketResolution, 1⟩
      -- A resolution outside the condition does not fall through to an inference.
      else .undetermined
    | none =>
      if gammaWinner = some upToken ∨ gammaWinner = some downToken then ⟨gammaWinner, .gamma, 1⟩
      else
        match winnerFromTerminalBook upToken downToken upBid downBid,
            winnerFromReference upToken downToken reference with
        | some book, some price =>
          if book = price then ⟨some book, .terminalBook, 99 / 100⟩ else .undetermined
        | some book, none => ⟨some book, .terminalBook, 9 / 10⟩
        | none, some price => ⟨some price, .referencePrice, 7 / 10⟩
        | none, none => .undetermined

/-- The receipts of the evidence. -/
structure EvidenceTimes where
  authoritative : Option ℤ
  gamma : ℤ
  terminal : Option ℤ

/-- The earliest causal time settlement evidence was available. -/
def resolutionAvailableTime (window : EpisodeWindow) (source : WinnerSource) (marketEndUtcNs : ℤ)
    (times : EvidenceTimes) : Option ℤ :=
  let held := fun received : ℤ =>
    if marketEndUtcNs < received then received else marketEndUtcNs + window.postEndNs
  match source with
  | .marketResolution => times.authoritative.map (max marketEndUtcNs ·)
  | .gamma => some (held times.gamma)
  | .terminalBook => times.terminal.map held
  | .referencePrice => some (marketEndUtcNs + window.postEndNs)
  | .ambiguous => none

/-- The first check an episode fails. -/
def exclusionReason (source : WinnerSource) (up down : Option TokenCoverage)
    (lead lag : Option ℤ) (requireFullWindow : Bool) (blocking gaps : ℕ) : Option String :=
  if up.isNone || down.isNone then some "missing_book_data_for_one_side"
  else if source = .ambiguous then some "winner_not_determinable"
  else if blocking ≠ 0 then some "non_replay_eligible_quality_error"
  else if gaps ≠ 0 then some "clob_connection_gap_during_market"
  else if !requireFullWindow then none
  else if !lead.any (0 ≤ ·) then some "book_data_starts_after_market_open"
  else if !lag.any (0 ≤ ·) then some "book_data_ends_before_market_close"
  else none

/-! ## The index -/

/-- An episode with the evidence the index keeps for it. -/
structure IndexedEpisode extends Episode where
  winnerSource : WinnerSource
  winnerConfidence : ℚ
  terminalUpBidScaled : Option ℤ
  terminalDownBidScaled : Option ℤ
  reference : Option ReferencePrice
  firstEventUtcNs : Option ℤ
  lastEventUtcNs : Option ℤ
  upEventCount : ℕ
  downEventCount : ℕ
  coverageStartLeadNs : Option ℤ
  coverageEndLagNs : Option ℤ
  qualityErrorCount : ℕ
  blockingQualityErrorCount : ℕ
  connectionGapCount : ℕ
  resolutionReceivedUtcNs : Option ℤ
deriving DecidableEq

/-- The text of a column, if it is not empty. -/
def givenText (text : Option String) : Option String := text.filter (· ≠ "")

/-- A listing's own time of resolution, unless it is missing or zero. -/
def MarketRow.gammaReceived (row : MarketRow) : ℤ :=
  match row.resolvedUtcNs with
  | none => row.discoveredUtcNs
  | some time => if time = 0 then row.discoveredUtcNs else time

/-- The smaller or larger of two times that may be missing. -/
def combined (choose : ℤ → ℤ → ℤ) : Option ℤ → Option ℤ → Option ℤ
  | some first, some second => some (choose first second)
  | some first, none => some first
  | none, second => second

namespace IndexDatasets

variable (datasets : IndexDatasets) (window : EpisodeWindow) (requireFullWindow : Bool)

/-- The episode of one listing. -/
def episodeOf (gaps : String → ℕ) (market : ListedMarket) : IndexedEpisode :=
  let row := market.row
  let up := datasets.coverage market.upTokenId
  let down := datasets.coverage market.downTokenId
  let upTerminal := datasets.terminalBook window market.upTokenId
  let downTerminal := datasets.terminalBook window market.downTokenId
  let upBid := upTerminal.bind QuoteRow.bestBidScaled
  let downBid := downTerminal.bind QuoteRow.bestBidScaled
  let reference := datasets.referencePrice market
  let resolution := datasets.recordedResolution row.conditionId
  let winner := resolveWinner (givenText row.winningTokenId) market.upTokenId market.downTokenId
    upBid downBid reference resolution
  -- Eligibility needs the later of the two starts and the earlier of the two ends.
  let lead := (combined max (up.map TokenCoverage.first) (down.map TokenCoverage.first)).map
    (row.marketStartUtcNs - ·)
  let lag := (combined min (up.map TokenCoverage.last) (down.map TokenCoverage.last)).map
    (· - row.marketEndUtcNs)
  let quality := datasets.qualitySummary market
  let gapCount := gaps row.conditionId
  let reason := exclusionReason winner.source up down lead lag requireFullWindow quality.blocking
    gapCount
  let terms := datasets.venueTerms row.conditionId
  { conditionId := row.conditionId
    marketSlug := row.marketSlug
    startUtcNs := row.marketStartUtcNs
    endUtcNs := row.marketEndUtcNs
    upTokenId := market.upTokenId
    downTokenId := market.downTokenId
    tickSizeScaled := row.tickSizeScaled
    minimumOrderSizeScaled := row.minimumOrderSizeScaled
    winnerTokenId := winner.token
    winnerOutcome := winner.token.map fun token => if token = market.upTokenId then "UP" else "DOWN"
    eligible := reason.isNone
    exclusionReason := reason
    feeRate := terms.feeRate
    feeExponent := terms.feeExponent
    takerOrderDelayMs := terms.takerOrderDelayMs
    winnerSource := winner.source
    winnerConfidence := winner.confidence
    terminalUpBidScaled := upBid
    terminalDownBidScaled := downBid
    reference := reference
    firstEventUtcNs := combined min (up.map TokenCoverage.first) (down.map TokenCoverage.first)
    lastEventUtcNs := combined max (up.map TokenCoverage.last) (down.map TokenCoverage.last)
    upEventCount := (up.map TokenCoverage.events).getD 0
    downEventCount := (down.map TokenCoverage.events).getD 0
    coverageStartLeadNs := lead
    coverageEndLagNs := lag
    qualityErrorCount := quality.errors
    blockingQualityErrorCount := quality.blocking
    connectionGapCount := gapCount
    resolutionReceivedUtcNs := resolutionAvailableTime window winner.source row.marketEndUtcNs
      { authoritative := resolution.received
        gamma := row.gammaReceived
        terminal := combined max (upTerminal.map QuoteRow.receivedUtcNs)
          (downTerminal.map QuoteRow.receivedUtcNs) } }

/-- The index of the listings within the bounds, in order of the starts. -/
def build (startUtcNs endUtcNs : Option ℤ) : List IndexedEpisode :=
  let markets := datasets.listings startUtcNs endUtcNs
  let gaps := connectionGapCounts datasets.connectionEvents
    (markets.map fun market => market.row.schedule)
  sortByKey (fun episode => episode.startUtcNs)
    (markets.map (datasets.episodeOf window requireFullWindow gaps))

end IndexDatasets

end PolymarketBt
