import PolymarketBt.ToMathlib.KeyedList
import PolymarketBt.ToMathlib.StableSort
import Mathlib.Data.Prod.Lex

/-! # The one-second chart cache

Top-of-book rows are merged into one series file for each market, which keeps one point a second for
each token, and an index counts what the files hold. The files are maps from a condition in its safe
form to the points of its tokens; their times of writing are left out.
-/

namespace PolymarketBt

open KeyedList StableSort

/-- A row of the top-of-book data. -/
structure TopRow where
  conditionId : String
  tokenId : String
  receivedUtcNs : ℤ
  sequence : ℤ
  bestBidScaled : Option ℤ
  bestAskScaled : Option ℤ
  midpointScaled : Option ℤ
  spreadScaled : Option ℤ
deriving DecidableEq, Repr

/-- A point as a file holds it; older files have points without a sequence. -/
structure StoredPoint where
  tMs : ℤ
  sequence : Option ℤ
  bid : Option ℤ
  ask : Option ℤ
  mid : Option ℤ
  spread : Option ℤ
deriving DecidableEq, Repr

structure ChartPoint where
  tMs : ℤ
  sequence : ℤ
  bid : Option ℤ
  ask : Option ℤ
  mid : Option ℤ
  spread : Option ℤ
deriving DecidableEq, Repr

def ChartPoint.stored (point : ChartPoint) : StoredPoint :=
  ⟨point.tMs, some point.sequence, point.bid, point.ask, point.mid, point.spread⟩

def StoredPoint.point (raw : StoredPoint) : ChartPoint :=
  ⟨raw.tMs, raw.sequence.getD 0, raw.bid, raw.ask, raw.mid, raw.spread⟩

def TopRow.point (row : TopRow) : ChartPoint where
  tMs := row.receivedUtcNs / 1000000
  sequence := row.sequence
  bid := row.bestBidScaled
  ask := row.bestAskScaled
  mid := row.midpointScaled
  spread := row.spreadScaled

/-- The second of a point. -/
def ChartPoint.bucket (point : ChartPoint) : ℤ := point.tMs / 1000

/-- Points compare by time, then by sequence. -/
def ChartPoint.rank (point : ChartPoint) : ℤ ×ₗ ℤ := toLex (point.tMs, point.sequence)

/-- A point replaces the one of its second unless that one is later. -/
def placePoint (buckets : List (ℤ × ChartPoint)) (raw : StoredPoint) : List (ℤ × ChartPoint) :=
  let point := raw.point
  match buckets.lookup point.bucket with
  | none => assign point.bucket point buckets
  | some previous =>
    if previous.rank ≤ point.rank then assign point.bucket point buckets else buckets

def mergePoints (current incoming : List StoredPoint) : List ChartPoint :=
  (sortByKey Prod.fst ((current ++ incoming).foldl placePoint [])).map Prod.snd

/-! ## Updating the files -/

/-- Characters outside the safe set become underscores. -/
def safeId (conditionId : String) : String :=
  conditionId.map fun c => if c.isAlphanum || c = '_' || c = '.' || c = '-' then c else '_'

/-- The points of the tokens of one market. -/
abbrev Series := List (String × List StoredPoint)

structure SeriesCoverage where
  pointCount : ℕ
  firstReceivedUtcNs : ℤ
  lastReceivedUtcNs : ℤ
deriving DecidableEq, Repr

structure MarketCoverage where
  total : SeriesCoverage
  tokens : List (String × SeriesCoverage)
deriving DecidableEq, Repr

/-- The series files by safe condition, and the markets of the index. -/
structure CacheFiles where
  series : List (String × Series)
  markets : List (String × MarketCoverage)
deriving DecidableEq, Repr

namespace DashboardCacheWriter

/-- The rows by condition and token, each in the order of its first row. -/
def grouped (rows : List TopRow) : List (String × List (String × List ChartPoint)) :=
  rows.foldl (fun groups row =>
    let tokens := (groups.lookup row.conditionId).getD []
    let points := (tokens.lookup row.tokenId).getD []
    assign row.conditionId (assign row.tokenId (points ++ [row.point]) tokens) groups) []

/-- How many points there are and the span of their times; an empty span is at zero. -/
def coverage (points : List StoredPoint) : SeriesCoverage where
  pointCount := points.length
  firstReceivedUtcNs := ((points.map StoredPoint.tMs).min?.getD 0) * 1000000
  lastReceivedUtcNs := ((points.map StoredPoint.tMs).max?.getD 0) * 1000000

def mergeTokens (tokens : Series) (tokenRows : List (String × List ChartPoint)) : Series :=
  tokenRows.foldl (fun tokens entry =>
    let existing := (tokens.lookup entry.1).getD []
    let merged := mergePoints existing (entry.2.map ChartPoint.stored)
    assign entry.1 (merged.map ChartPoint.stored) tokens) tokens

/-- One market of an update. -/
def updateMarket (files : CacheFiles) (conditionId : String)
    (tokenRows : List (String × List ChartPoint)) : CacheFiles :=
  let tokens := mergeTokens ((files.series.lookup (safeId conditionId)).getD []) tokenRows
  { series := assign (safeId conditionId) tokens files.series
    markets := assign conditionId
      { total := coverage (tokens.flatMap Prod.snd)
        tokens := (tokens.filter fun entry => entry.2 ≠ []).map fun entry =>
          (entry.1, coverage entry.2) }
      files.markets }

/-- The counts are the markets of the update and the points their files hold. -/
def update (files : CacheFiles) (rows : List TopRow) : CacheFiles × ℕ × ℕ :=
  (grouped rows).foldl (fun (files, updated, indexed) entry =>
    let next := updateMarket files entry.1 entry.2
    let points := ((next.series.lookup (safeId entry.1)).getD []).flatMap Prod.snd
    (next, updated + 1, indexed + points.length)) (files, 0, 0)

end DashboardCacheWriter

end PolymarketBt
