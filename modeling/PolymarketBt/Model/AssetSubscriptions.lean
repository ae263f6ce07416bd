import Mathlib.Data.Finset.Basic
import PolymarketBt.Machine.Transition

/-! # Subscriptions of the market websocket

Discovery plans the assets to stream and updates them under the lock of the assets, which it holds
while it sends what changes; the connection loop subscribes a new connection to all of them, and takes
the lock to read them. Messages reach the feed in the order in which they are sent, and are lost with
their connection. Every suspension point ends a step, and the steps of discovery, of the loop and of
the feed interleave. The lists of assets in the messages are sets here.
-/

namespace PolymarketBt

/-- What the collector sends about its assets. -/
inductive AssetMessage (Asset : Type*) where
  | market (assets : Finset Asset)
  | subscribe (assets : Finset Asset)
  | unsubscribe (assets : Finset Asset)

/-- The feed's side of a connection: what a message makes of the assets it streams. -/
structure AssetFeed (Asset : Type*) [DecidableEq Asset] where
  receive : Finset Asset → AssetMessage Asset → Finset Asset
  /-- The subscription of a connection covers what was already asked for. -/
  market : ∀ streamed assets, streamed ⊆ assets → receive streamed (.market assets) = assets
  subscribe : ∀ streamed assets, receive streamed (.subscribe assets) = streamed ∪ assets
  unsubscribe : ∀ streamed assets, receive streamed (.unsubscribe assets) = streamed \ assets

/-- A market that discovery reports. -/
structure AssetMarket (Asset : Type*) where
  upTokenId : Asset
  downTokenId : Asset
  marketEndUtcNs : ℤ
deriving DecidableEq

/-- A connection with its messages in flight and the assets the feed streams on it. -/
structure AssetConnection (Asset : Type*) where
  alive : Bool
  inflight : List (AssetMessage Asset)
  streamed : Finset Asset

/-- An update that holds the lock: the connection it found and what is left to send on it. -/
structure AssetUpdate (Asset : Type*) where
  connection : ℕ
  pending : List (AssetMessage Asset)

inductive SubscriptionStep (Asset : Type*) where
  /-- Discovery has found the markets, and reads the assets desired so far. -/
  | plan (now : ℤ) (markets : List (AssetMarket Asset))
  | update
  | send
  | connect
  | subscribe
  | deliver
  | lose
  | giveUp

/-- The desired assets, the discovery loop, and the current connection, if there is one, of those made
so far. -/
structure AssetSubscriptions (Asset : Type*) where
  desired : Finset Asset
  planned : Option (Finset Asset)
  updating : Option (AssetUpdate Asset)
  connections : ℕ
  connection : Option (AssetConnection Asset)
  /-- The loop has subscribed the current connection. -/
  subscribed : Bool

variable {Asset : Type*} [DecidableEq Asset]

namespace AssetMarket

variable (market : AssetMarket Asset)

def tokens : Finset Asset := {market.upTokenId, market.downTokenId}

/-- The market is open or upcoming, or was streamed and has closed within the grace. -/
def Wanted (graceNs now : ℤ) (previous : Finset Asset) : Prop :=
  now ≤ market.marketEndUtcNs ∨
    market.tokens ∩ previous ≠ ∅ ∧ now - graceNs ≤ market.marketEndUtcNs

instance (graceNs now : ℤ) (previous : Finset Asset) : Decidable (market.Wanted graceNs now previous) :=
  inferInstanceAs (Decidable (_ ∨ _))

end AssetMarket

/-- The assets that an activation of the markets desires. -/
def activate (graceNs now : ℤ) (previous : Finset Asset) (markets : List (AssetMarket Asset)) :
    Finset Asset :=
  (markets.filter (·.Wanted graceNs now previous)).foldl (fun desired market =>
    desired ∪ market.tokens) ∅

namespace AssetConnection

variable (connection : AssetConnection Asset)

def opened : AssetConnection Asset := ⟨true, [], ∅⟩

def push (message : AssetMessage Asset) : AssetConnection Asset :=
  { connection with inflight := connection.inflight ++ [message] }

/-- What the feed streams once all these messages have reached it. -/
def settle (feed : AssetFeed Asset) (later : List (AssetMessage Asset)) : Finset Asset :=
  (connection.inflight ++ later).foldl feed.receive connection.streamed

end AssetConnection

namespace AssetSubscriptions

def init : AssetSubscriptions Asset := ⟨∅, none, none, 0, none, false⟩

variable (feed : AssetFeed Asset) (graceNs : ℤ) (state : AssetSubscriptions Asset)

/-- What an update sends on a connection: the added assets before the removed ones. -/
def changes (assets : Finset Asset) : List (AssetMessage Asset) :=
  (if assets \ state.desired = ∅ then [] else [.subscribe (assets \ state.desired)]) ++
    if state.desired \ assets = ∅ then [] else [.unsubscribe (state.desired \ assets)]

/-- The update with what it still has to send; the last message releases the lock. -/
def hold (connection : ℕ) : List (AssetMessage Asset) → Option (AssetUpdate Asset)
  | [] => none
  | pending => some ⟨connection, pending⟩

/-- Replaces the desired assets; without a connection there is nothing to send. -/
def updateAssets (assets : Finset Asset) : AssetSubscriptions Asset :=
  { state with
    desired := assets
    planned := none
    updating := if state.connection.isSome then hold state.connections (state.changes assets)
      else none }

def perform : SubscriptionStep Asset → Option (AssetSubscriptions Asset)
  | .plan now markets =>
    if state.planned.isSome ∨ state.updating.isSome then none
    else some { state with planned := some (activate graceNs now state.desired markets) }
  | .update =>
    match state.planned, state.updating with
    | some assets, none => some (state.updateAssets assets)
    | _, _ => none
  | .send =>
    match state.updating, state.connection with
    | some ⟨number, message :: rest⟩, some connection =>
      if number = state.connections ∧ connection.alive then
        some { state with
          connection := some (connection.push message)
          updating := hold number rest }
      -- Sending on a connection that is closed raises, and the update is over.
      else some { state with updating := none }
    | some _, _ => some { state with updating := none }
    | none, _ => none
  | .connect =>
    if state.connection.isSome then none
    else some { state with
      connections := state.connections + 1
      connection := some .opened
      subscribed := false }
  | .subscribe =>
    match state.updating, state.connection with
    | none, some connection =>
      if connection.alive ∧ !state.subscribed then
        some { state with
          connection := some (connection.push (.market state.desired))
          subscribed := true }
      else none
    | _, _ => none
  | .deliver =>
    match state.connection with
    | some ⟨true, message :: rest, streamed⟩ =>
      some { state with connection := some ⟨true, rest, feed.receive streamed message⟩ }
    | _ => none
  | .lose => state.connection.map fun connection =>
      { state with connection := some { connection with alive := false } }
  | .giveUp =>
    match state.connection with
    | some ⟨false, _, _⟩ => some { state with connection := none, subscribed := false }
    | _ => none

/-- What the update in progress still has to send on the current connection. -/
def outstanding : List (AssetMessage Asset) :=
  match state.updating with
  | some update => if update.connection = state.connections then update.pending else []
  | none => []

end AssetSubscriptions

end PolymarketBt
