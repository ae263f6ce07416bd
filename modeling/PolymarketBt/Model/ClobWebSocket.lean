import PolymarketBt.Model.ConnectionLog

/-! # The market websocket's connection loop

One iteration of the loop makes one attempt to connect, receives frames until the connection ends,
and waits before the next attempt. Other tasks run between any two of its steps: they change the
desired assets, miss heartbeats, and recover snapshots after a reconnection. Every step reads the
clock once. The frame iteration raises when a connection is lost and ends normally when the server
closes it gracefully.
-/

namespace PolymarketBt

/-- Where the connection loop is. -/
inductive ConnectionPhase where
  | idle
  | connecting
  | opened
  | streaming (acknowledged : Bool)
  /-- The attempt is over and its connection given up. -/
  | ended
  | waiting
  | finished
deriving DecidableEq, Repr

/-- There is a connection. -/
def ConnectionPhase.online : ConnectionPhase → Bool
  | .opened => true
  | .streaming _ => true
  | _ => false

/-- What can be observed of a run, in order. -/
inductive TraceEntry where
  | frame
  /-- The loop gives up the connection. -/
  | lost (utcNs : ℤ)
  | emitted (event : ConnectionEvent)
deriving DecidableEq, Repr

inductive ClobStep where
  | startConnect
  | connectFails
  | connects
  | sendSubscription
  | receiveFrame (pong : Bool)
  /-- A connection error, from the frame iteration or from sending the subscription. -/
  | drops
  | closesGracefully
  | scheduleReconnect
  | endWait
  | requestStop
  | finish
  | updateAssets (desired : ℕ)
  | announceAssets
  | missHeartbeat
  | startRecovery
  /-- A recovery that finds no open market logs nothing. -/
  | skipRecovery
  | completeRecovery
deriving DecidableEq, Repr

/-- A step and the clock it reads. -/
structure ClobAction where
  utcNs : ℤ
  kind : ClobStep
deriving DecidableEq, Repr

structure ClobMarketWebSocket where
  phase : ConnectionPhase
  attempt : ℕ
  desiredAssets : ℕ
  stopped : Bool
  /-- Recoveries that were spawned and have not begun. -/
  spawned : ℕ
  recovering : ℕ
  now : ℤ
  trace : List TraceEntry
deriving DecidableEq, Repr

namespace ClobMarketWebSocket

def init (desiredAssets : ℕ) (now : ℤ) : ClobMarketWebSocket :=
  ⟨.idle, 0, desiredAssets, false, 0, 0, now, []⟩

variable (websocket : ClobMarketWebSocket)

def emitOperation (eventType : ConnectionEventType) : ClobMarketWebSocket :=
  { websocket with
    trace := websocket.trace ++
      [.emitted ⟨eventType, websocket.now, some websocket.desiredAssets⟩] }

def record (entry : TraceEntry) : ClobMarketWebSocket :=
  { websocket with trace := websocket.trace ++ [entry] }

def goto (phase : ConnectionPhase) : ClobMarketWebSocket := { websocket with phase := phase }

/-- The end of an attempt. -/
def giveUp : ClobMarketWebSocket := (websocket.record (.lost websocket.now)).goto .ended

/-- Perform a step at the websocket's time. -/
def perform (kind : ClobStep) : Option ClobMarketWebSocket :=
  match kind, websocket.phase with
  | .startConnect, .idle =>
    if websocket.stopped ∨ websocket.desiredAssets = 0 then none
    else
      some (({ websocket with attempt := websocket.attempt + 1 }.emitOperation
        .connectStarted).goto .connecting)
  | .connectFails, .connecting => some (websocket.emitOperation .disconnectDetected).giveUp
  | .connects, .connecting => some ((websocket.emitOperation .connected).goto .opened)
  | .sendSubscription, .opened =>
    let spawned := if 1 < websocket.attempt then websocket.spawned + 1 else websocket.spawned
    some (({ websocket with spawned := spawned }.emitOperation .subscriptionSent).goto
      (.streaming false))
  | .receiveFrame pong, .streaming acknowledged =>
    let websocket := websocket.record .frame
    if pong || acknowledged then some websocket
    else some ((websocket.emitOperation .subscriptionAcknowledged).goto (.streaming true))
  | .drops, .opened => some (websocket.emitOperation .disconnectDetected).giveUp
  | .drops, .streaming _ => some (websocket.emitOperation .disconnectDetected).giveUp
  | .closesGracefully, .streaming _ => some websocket.giveUp
  | .scheduleReconnect, .ended =>
    if websocket.stopped then none
    else some ((websocket.emitOperation .reconnectScheduled).goto .waiting)
  | .endWait, .waiting => some ((websocket.emitOperation .reconnected).goto .idle)
  | .requestStop, _ => some { websocket with stopped := true }
  | .finish, .idle => if websocket.stopped then some (websocket.goto .finished) else none
  | .finish, .ended => if websocket.stopped then some (websocket.goto .finished) else none
  | .finish, .waiting => if websocket.stopped then some (websocket.goto .finished) else none
  | .updateAssets desired, _ => some { websocket with desiredAssets := desired }
  | .announceAssets, _ => some (websocket.emitOperation .subscriptionChanged)
  | .missHeartbeat, .streaming _ => some (websocket.emitOperation .heartbeatMissed)
  | .startRecovery, _ =>
    if websocket.spawned = 0 then none
    else
      some ({ websocket with
        spawned := websocket.spawned - 1
        recovering := websocket.recovering + 1 }.emitOperation .snapshotRecoveryStarted)
  | .skipRecovery, _ =>
    if websocket.spawned = 0 then none
    else some { websocket with spawned := websocket.spawned - 1 }
  | .completeRecovery, _ =>
    if websocket.recovering = 0 then none
    else
      some ({ websocket with recovering := websocket.recovering - 1 }.emitOperation
        .snapshotRecoveryCompleted)
  | _, _ => none

def step (action : ClobAction) : Option ClobMarketWebSocket :=
  { websocket with now := action.utcNs }.perform action.kind

end ClobMarketWebSocket

/-- The log among the observations. -/
def connectionLog (trace : List TraceEntry) : List ConnectionEvent :=
  trace.filterMap fun entry =>
    match entry with
    | .emitted event => some event
    | _ => none

end PolymarketBt
