import PolymarketBt.Model.ChartCache

/-! # The bulk export of chart points

An export reads the points of a market from its series file, or from the rows of the top-of-book
query where there is none. The rows go through the downsampler of the chart, whose buckets split the
duration of the market into as many parts as the export has points at most.
-/

namespace PolymarketBt

open KeyedList StableSort

inductive Outcome where
  | up
  | down
deriving DecidableEq, Repr

/-- What an export reads of a market. -/
structure ExportMarket where
  marketStartUtcNs : ℤ
  marketEndUtcNs : ℤ
  upTokenId : String
  downTokenId : String
deriving DecidableEq, Repr

structure ExportPoint where
  tMs : ℤ
  bid : Option ℤ
  ask : Option ℤ
  mid : Option ℤ
  spread : Option ℤ
deriving DecidableEq, Repr

def exportMaxPoints : ℤ := 5000000

def TopRow.exportPoint (row : TopRow) : ExportPoint where
  tMs := row.receivedUtcNs / 1000000
  bid := row.bestBidScaled
  ask := row.bestAskScaled
  mid := row.midpointScaled
  spread := row.spreadScaled

def StoredPoint.exportPoint (raw : StoredPoint) : ExportPoint :=
  ⟨raw.tMs, raw.bid, raw.ask, raw.mid, raw.spread⟩

namespace ExportMarket

variable (market : ExportMarket)

def tokenId : Outcome → String
  | .up => market.upTokenId
  | .down => market.downTokenId

/-- The outcome of a token; of two equal tokens the second counts. -/
def tokenOutcomes (tokenId : String) : Option Outcome :=
  if tokenId = market.downTokenId then some .down
  else if tokenId = market.upTokenId then some .up
  else none

/-- The part of the market's duration that one point stands for. -/
def width (maxPoints : ℤ) : ℤ :=
  let duration := max 1 (market.marketEndUtcNs - market.marketStartUtcNs)
  max 1 (duration / maxPoints)

def bucket (maxPoints receivedNs : ℤ) : ℤ :=
  max 0 ((receivedNs - market.marketStartUtcNs) / market.width maxPoints)

/-- A row puts its point into the bucket of its outcome; other tokens are skipped. -/
def placeRow (maxPoints : ℤ) (buckets : Outcome → List (ℤ × ExportPoint)) (row : TopRow) :
    Outcome → List (ℤ × ExportPoint) :=
  match market.tokenOutcomes row.tokenId with
  | none => buckets
  | some outcome => Function.update buckets outcome
      (assign (market.bucket maxPoints row.receivedUtcNs) row.exportPoint (buckets outcome))

def downsampleTop (rows : List TopRow) (maxPoints : ℤ) (outcome : Outcome) : List ExportPoint :=
  let buckets := rows.foldl (market.placeRow maxPoints) fun _ => []
  (sortByKey Prod.fst (buckets outcome)).map Prod.snd

end ExportMarket

/-- The points within the window, or one of every so many where there are more than the maximum. The
sample is no longer than the maximum, so the second pass keeps it. -/
def downsampleCachedPoints (rawPoints : List StoredPoint) (maximum : ℕ) (startMs endMs : ℤ) :
    List ExportPoint :=
  let points := rawPoints.filter fun point => startMs ≤ point.tMs ∧ point.tMs ≤ endMs
  if points.length ≤ maximum then points.map StoredPoint.exportPoint
  else
    let width := max 1 ((points.length + maximum - 1) / maximum)
    let sampled := (List.range ((points.length + width - 1) / width)).filterMap fun index =>
      points[min (index * width + width - 1) (points.length - 1)]?
    (sampled.take maximum).map StoredPoint.exportPoint

/-- The points of the series file, if there is one, else of the rows of the query: those of the
market within its duration, by receipt and sequence; without files there are none. -/
def exportPoints (market : ExportMarket) (cachedSeries : Option Series) (rows : List TopRow)
    (outcome : Outcome) : List ExportPoint :=
  match cachedSeries with
  | some tokens =>
    downsampleCachedPoints ((tokens.lookup (market.tokenId outcome)).getD []) exportMaxPoints.toNat
      (market.marketStartUtcNs / 1000000) (market.marketEndUtcNs / 1000000)
  | none => market.downsampleTop rows exportMaxPoints outcome

end PolymarketBt
