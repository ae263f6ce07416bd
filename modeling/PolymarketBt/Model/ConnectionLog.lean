import Mathlib.Tactic

/-! # Connection gaps of the episode index

The index reads the log of the market websocket, ordered by time, and counts for every market the
disconnect intervals that overlap its window. An interval is closed by the first snapshot recovery
before the next disconnect, else by the first sign of a new connection before it.
-/

namespace PolymarketBt

inductive ConnectionEventType where
  | connectStarted
  | connected
  | subscriptionSent
  | subscriptionAcknowledged
  | subscriptionChanged
  | heartbeatMissed
  | disconnectDetected
  | reconnectScheduled
  | reconnected
  | snapshotRecoveryStarted
  | snapshotRecoveryCompleted
deriving DecidableEq, Repr

/-- A row of the connection log. -/
structure ConnectionEvent where
  eventType : ConnectionEventType
  eventUtcNs : ℤ
  subscribedTokenCount : Option ℤ
deriving DecidableEq, Repr

structure MarketWindow where
  conditionId : String
  marketStartUtcNs : ℤ
  marketEndUtcNs : ℤ
  start_le_end : marketStartUtcNs ≤ marketEndUtcNs
deriving DecidableEq, Repr

namespace ConnectionEvent

def isDisconnect (event : ConnectionEvent) : Bool := event.eventType = .disconnectDetected

def isRecovered (event : ConnectionEvent) : Bool := event.eventType = .snapshotRecoveryCompleted

/-- A sign of a new connection. -/
def isFallback (event : ConnectionEvent) : Bool :=
  event.eventType = .subscriptionAcknowledged || event.eventType = .connected

/-- The disconnect lost subscriptions. -/
def subscribed (event : ConnectionEvent) : Bool := event.subscribedTokenCount.getD 0 ≠ 0

end ConnectionEvent

open ConnectionEvent

/-- The rows before the next disconnect. -/
def beforeNextDisconnect (after : List ConnectionEvent) : List ConnectionEvent :=
  after.takeWhile fun candidate => !candidate.isDisconnect

def recoveredNs (after : List ConnectionEvent) : Option ℤ :=
  ((beforeNextDisconnect after).find? isRecovered).map ConnectionEvent.eventUtcNs

def fallbackNs (after : List ConnectionEvent) : Option ℤ :=
  ((beforeNextDisconnect after).find? isFallback).map ConnectionEvent.eventUtcNs

/-- A disconnect and the instant that closes it, if any. -/
structure ConnectionGap where
  gapStart : ℤ
  gapEnd : Option ℤ
deriving DecidableEq, Repr

/-- The gap of a disconnect, given the rows after it. -/
def gapOf (event : ConnectionEvent) (after : List ConnectionEvent) : ConnectionGap where
  gapStart := event.eventUtcNs
  gapEnd := (recoveredNs after).or (fallbackNs after)

def connectionGaps : List ConnectionEvent → List ConnectionGap
  | [] => []
  | event :: after =>
    if event.isDisconnect && event.subscribed then gapOf event after :: connectionGaps after
    else connectionGaps after

def ConnectionGap.overlaps (market : MarketWindow) (gap : ConnectionGap) : Bool :=
  gap.gapStart ≤ market.marketEndUtcNs &&
    gap.gapEnd.all fun gapEnd => market.marketStartUtcNs ≤ gapEnd

/-- The gap count of a market. -/
def connectionGapCount (events : List ConnectionEvent) (market : MarketWindow) : ℕ :=
  (connectionGaps events).countP fun gap => gap.overlaps market

/-- The gap counts by condition; a condition without gaps has no entry and is read as zero. -/
def connectionGapCounts (events : List ConnectionEvent) (markets : List MarketWindow) : String → ℕ :=
  markets.foldl (fun counts market =>
    if connectionGapCount events market ≠ 0 then
      Function.update counts market.conditionId (connectionGapCount events market)
    else counts) fun _ => 0

end PolymarketBt
