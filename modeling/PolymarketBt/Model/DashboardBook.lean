import PolymarketBt.Model.Replay

/-! # The dashboard's historical book

The dashboard rebuilds the books of a market a second time, from the rows of three queries: the
newest snapshot of each token, the levels of these snapshots, and the changes since the older one.
What a query returns is stated by its clauses; levels come back in no order, and of two snapshots
that tie for the newest either may come back.
-/

namespace PolymarketBt

/-- What the historical book reads of a market. -/
structure DashboardMarket where
  conditionId : String
  upTokenId : String
  downTokenId : String
deriving DecidableEq, Repr

/-! ## The rows of the queries -/

structure SnapshotRow where
  snapshotId : String
  tokenId : String
  receivedUtcNs : ℤ
  sequence : ℤ
deriving DecidableEq, Repr

structure LevelRow where
  snapshotId : String
  side : Side
  priceScaled : ℤ
  sizeScaled : ℤ
deriving DecidableEq, Repr

structure UpdateRow where
  tokenId : String
  receivedUtcNs : ℤ
  sequence : ℤ
  changeIndex : ℕ
  side : Side
  priceScaled : ℤ
  newSizeScaled : ℤ
deriving DecidableEq, Repr

def ParsedSnapshot.row (snapshot : ParsedSnapshot) : SnapshotRow :=
  ⟨snapshot.snapshotId, snapshot.tokenId, snapshot.receivedUtcNs, snapshot.sequence⟩

def ParsedSnapshot.listed (snapshot : ParsedSnapshot) : Side → List BookLevel
  | .buy => snapshot.bids
  | .sell => snapshot.asks

def ParsedSnapshot.levelRows (snapshot : ParsedSnapshot) (side : Side) : List LevelRow :=
  (snapshot.listed side).map fun level =>
    ⟨snapshot.snapshotId, side, level.priceScaled, level.sizeScaled⟩

def ParsedChange.row (change : ParsedChange) : UpdateRow :=
  ⟨change.tokenId, change.receivedUtcNs, change.sequence, change.changeIndex, change.side,
    change.priceScaled, change.newSizeScaled⟩

/-- The age of a snapshot; the newest one has the greatest. -/
def SnapshotRow.age (row : SnapshotRow) : ℤ ×ₗ ℤ := toLex (row.receivedUtcNs, row.sequence)

def UpdateRow.orderKey (row : UpdateRow) : ℤ ×ₗ ℤ ×ₗ ℕ :=
  toLex (row.receivedUtcNs, toLex (row.sequence, row.changeIndex))

/-- The clause that all three datasets are read under. -/
def DashboardMarket.Selects (market : DashboardMarket) (atNs : ℤ) (conditionId tokenId : String)
    (receivedUtcNs : ℤ) : Prop :=
  conditionId = market.conditionId ∧ receivedUtcNs ≤ atNs ∧
    (tokenId = market.upTokenId ∨ tokenId = market.downTokenId)

instance (market : DashboardMarket) (atNs : ℤ) (conditionId tokenId : String) (receivedUtcNs : ℤ) :
    Decidable (market.Selects atNs conditionId tokenId receivedUtcNs) :=
  inferInstanceAs (Decidable (_ ∧ _ ∧ (_ ∨ _)))

structure BookRows where
  snapshots : List SnapshotRow
  levels : List LevelRow
  updates : List UpdateRow

/-- The rows answer the queries over these datasets. -/
structure BookRows.Answer (market : DashboardMarket) (datasets : ParsedEvents) (atNs : ℤ)
    (rows : BookRows) : Prop where
  newest : ∀ row ∈ rows.snapshots, ∃ snapshot ∈ datasets.snapshots, snapshot.row = row ∧
    market.Selects atNs snapshot.conditionId snapshot.tokenId snapshot.receivedUtcNs ∧
    ∀ other ∈ datasets.snapshots, other.tokenId = snapshot.tokenId →
      market.Selects atNs other.conditionId other.tokenId other.receivedUtcNs →
      other.row.age ≤ row.age
  oneEach : (rows.snapshots.map SnapshotRow.tokenId).Nodup
  complete : ∀ snapshot ∈ datasets.snapshots,
    market.Selects atNs snapshot.conditionId snapshot.tokenId snapshot.receivedUtcNs →
    snapshot.tokenId ∈ rows.snapshots.map SnapshotRow.tokenId
  levels : rows.levels.Perm ((datasets.snapshots.flatMap fun snapshot =>
    snapshot.levelRows .buy ++ snapshot.levelRows .sell).filter fun level =>
      level.snapshotId ∈ rows.snapshots.map SnapshotRow.snapshotId)
  updates : rows.updates.Perm ((datasets.updates.filter fun change =>
    market.Selects atNs change.conditionId change.tokenId change.receivedUtcNs ∧
      ∃ row ∈ rows.snapshots, row.receivedUtcNs ≤ change.receivedUtcNs).map ParsedChange.row)
  ordered : rows.updates.Pairwise fun first second => first.orderKey ≤ second.orderKey

/-! ## The books -/

/-- The levels of each token and side. -/
abbrev BookStates := String → Side → Levels

def BookStates.setSide (states : BookStates) (tokenId : String) (side : Side) (levels : Levels) :
    BookStates :=
  Function.update states tokenId (Function.update (states tokenId) side levels)

/-- The levels a book page lists for a token before it cuts them off. -/
def BookStates.depth (states : BookStates) (tokenId : String) : Side → List (ℤ × ℤ)
  | .buy => (states tokenId .buy).toList.reverse
  | .sell => (states tokenId .sell).toList

namespace BookRows

variable (rows : BookRows)

/-- The dictionary of snapshots by token: a later row of a token takes the place of an earlier. -/
def snapshotForToken (tokenId : String) : Option SnapshotRow :=
  rows.snapshots.reverse.find? fun row => row.tokenId = tokenId

def tokenForSnapshot (snapshotId : String) : Option String :=
  (rows.snapshots.reverse.find? fun row =>
    row.snapshotId = snapshotId ∧ rows.snapshotForToken row.tokenId = some row).map
      SnapshotRow.tokenId

def readLevelRow (states : BookStates) (level : LevelRow) : BookStates :=
  match rows.tokenForSnapshot level.snapshotId with
  | none => states
  | some tokenId =>
    states.setSide tokenId level.side
      ((states tokenId level.side).insert level.priceScaled level.sizeScaled)

/-- A change applies when it comes after the snapshot of its token. -/
def applyUpdateRow (states : BookStates) (update : UpdateRow) : Except PyError BookStates :=
  match rows.snapshotForToken update.tokenId with
  | none => .error (.keyError update.tokenId)
  | some snapshot =>
    if update.receivedUtcNs < snapshot.receivedUtcNs ∨
        update.receivedUtcNs = snapshot.receivedUtcNs ∧ update.sequence ≤ snapshot.sequence then
      .ok states
    else
      .ok (states.setSide update.tokenId update.side
        (OrderBook.setLevel (states update.tokenId update.side) update.priceScaled
          update.newSizeScaled))

/-- The books of a market from the rows of its queries. -/
def book : Except PyError BookStates := do
  if rows.snapshots.length < 2 then
    throw (.lookupError "both outcome snapshots are not yet available")
  rows.updates.foldlM rows.applyUpdateRow (rows.levels.foldl rows.readLevelRow fun _ _ => ∅)

end BookRows

/-- The reconstructor after the book events up to an instant in their deterministic order. -/
def ParsedEvents.reconstructedAt (datasets : ParsedEvents) (atNs : ℤ) :
    Except PyError BookReconstructor := do
  let merged ← mergeEvents datasets.replayEvents .localReceiveTime
  let past := merged.filter fun event => event.receivedUtcNs ≤ atNs
  return BookReconstructor.init.performAll ((replayBookEvents past).map .event)

end PolymarketBt
