import PolymarketBt.Model.OrderBook

/-! # Reconstructing books from snapshots, level changes and tick changes

The reconstructor keeps one book for each token and the tick size in force for it. Its operations
return the changed reconstructor also when they raise, since both callers catch the exception and
go on with the object.
-/

namespace PolymarketBt

structure UncertaintyInterval where
  tokenId : String
  startUtcNs : ℤ
  endUtcNs : Option ℤ
  reason : String
  firstSequence : Option ℤ
  lastSequence : Option ℤ
deriving DecidableEq, Repr

structure BookReconstructor where
  books : String → Option OrderBook
  uncertainty : List UncertaintyInterval
  effectiveTickSizes : String → Option ℤ

namespace BookReconstructor

def init : BookReconstructor := ⟨fun _ => none, [], fun _ => none⟩

variable (reconstructor : BookReconstructor)

def setBook (tokenId : String) (book : OrderBook) : BookReconstructor :=
  { reconstructor with books := Function.update reconstructor.books tokenId (some book) }

def setTick (tokenId : String) (tickSizeScaled : ℤ) : BookReconstructor :=
  { reconstructor with
    effectiveTickSizes :=
      Function.update reconstructor.effectiveTickSizes tokenId (some tickSizeScaled) }

def register (conditionId tokenId outcome : String) :
    BookReconstructor × Except PyError OrderBook :=
  match reconstructor.books tokenId with
  | some existing =>
    if existing.conditionId ≠ conditionId ∨ existing.outcome ≠ outcome then
      (reconstructor, .error (.valueError s!"token mapping changed unexpectedly: {tokenId}"))
    else (reconstructor, .ok existing)
  | none =>
    (reconstructor.setBook tokenId (.init conditionId tokenId outcome),
      .ok (.init conditionId tokenId outcome))

/-- A discovery-time tick on a websocket snapshot yields to the tick already in force. -/
def effectiveSnapshot (snapshot : BookSnapshot) : BookReconstructor × BookSnapshot :=
  match reconstructor.effectiveTickSizes snapshot.tokenId with
  | none => (reconstructor.setTick snapshot.tokenId snapshot.tickSizeScaled, snapshot)
  | some tick =>
    if snapshot.source = "clob_rest" then
      (reconstructor.setTick snapshot.tokenId snapshot.tickSizeScaled, snapshot)
    else (reconstructor, { snapshot with tickSizeScaled := tick })

/-- Close the latest interval of the token that is still open. -/
def closeLatest (snapshot : BookSnapshot) : List UncertaintyInterval → List UncertaintyInterval
  | [] => []
  | interval :: rest =>
    if interval.tokenId = snapshot.tokenId ∧ interval.endUtcNs = none then
      { interval with
        endUtcNs := some snapshot.receivedUtcNs
        lastSequence := some snapshot.sequence } :: rest
    else interval :: closeLatest snapshot rest

def applySnapshot (snapshot : BookSnapshot) : BookReconstructor × Except PyError Unit :=
  let (ticked, snapshot) := reconstructor.effectiveSnapshot snapshot
  match ticked.register snapshot.conditionId snapshot.tokenId snapshot.outcome with
  | (registered, .error e) => (registered, .error e)
  | (registered, .ok book) =>
    match book.replace snapshot with
    | (replaced, .error e) => (registered.setBook snapshot.tokenId replaced, .error e)
    | (replaced, .ok _) =>
      ({ registered.setBook snapshot.tokenId replaced with
          uncertainty := (closeLatest snapshot registered.uncertainty.reverse).reverse }, .ok ())

def applyTickSizeChange (change : TickSizeChange) : BookReconstructor × Except PyError Unit :=
  if change.newTickSizeScaled ≤ 0 then
    (reconstructor, .error (.valueError "tick size must be positive"))
  else
    let ticked := reconstructor.setTick change.tokenId change.newTickSizeScaled
    match reconstructor.books change.tokenId with
    | none => (ticked, .ok ())
    | some book =>
      if book.conditionId ≠ change.conditionId then
        (ticked, .error (.valueError "tick-size token/market mapping does not match book"))
      else
        (ticked.setBook change.tokenId { book with tickSizeScaled := change.newTickSizeScaled },
          .ok ())

def applyChange (change : BookLevelChange) : BookReconstructor × Except PyError Unit :=
  let refused : BookReconstructor × Except PyError Unit :=
    (reconstructor,
      .error (.valueError s!"cannot apply update without valid snapshot: {change.tokenId}"))
  match reconstructor.books change.tokenId with
  | none => refused
  | some book =>
    if book.valid then
      (reconstructor.setBook change.tokenId (book.apply change).1, (book.apply change).2)
    else refused

end BookReconstructor

/-- A recorded book event, in the order of kinds at one instant: snapshot, tick, update. -/
inductive BookEvent where
  | snapshot (snapshot : BookSnapshot)
  | tick (change : TickSizeChange)
  | update (change : BookLevelChange)
deriving DecidableEq, Repr

namespace BookEvent

def tokenId : BookEvent → String
  | snapshot s => s.tokenId
  | tick c => c.tokenId
  | update c => c.tokenId

def receivedUtcNs : BookEvent → ℤ
  | snapshot s => s.receivedUtcNs
  | tick c => c.receivedUtcNs
  | update c => c.receivedUtcNs

def sequence : BookEvent → ℤ
  | snapshot s => s.sequence
  | tick c => c.sequence
  | update c => c.sequence

end BookEvent

namespace BookReconstructor

def applyEvent (reconstructor : BookReconstructor) :
    BookEvent → BookReconstructor × Except PyError Unit
  | .snapshot s => reconstructor.applySnapshot s
  | .tick c => reconstructor.applyTickSizeChange c
  | .update c => reconstructor.applyChange c

/-- The rule of the tape builder: a book whose event raised is no longer valid. -/
def invalidate (reconstructor : BookReconstructor) (tokenId : String) : BookReconstructor :=
  match reconstructor.books tokenId with
  | none => reconstructor
  | some book => reconstructor.setBook tokenId { book with valid := false }

/-- Apply one event under that rule. -/
def absorb (reconstructor : BookReconstructor) (event : BookEvent) : BookReconstructor :=
  match reconstructor.applyEvent event with
  | (applied, .ok _) => applied
  | (applied, .error _) => applied.invalidate event.tokenId

def absorbAll (reconstructor : BookReconstructor) (events : List BookEvent) : BookReconstructor :=
  events.foldl absorb reconstructor

/-- Quarantine a token: its book, if there is one, is no longer valid, and an interval opens. -/
def markUncertain (reconstructor : BookReconstructor) (tokenId : String) (startUtcNs : ℤ)
    (reason : String) (firstSequence : Option ℤ) : BookReconstructor :=
  { reconstructor.invalidate tokenId with
    uncertainty := reconstructor.uncertainty ++
      [⟨tokenId, startUtcNs, none, reason, firstSequence, none⟩] }

end BookReconstructor

/-- A call of one of the mutating methods. -/
inductive BookOperation where
  | event (event : BookEvent)
  | markUncertain (tokenId : String) (startUtcNs : ℤ) (reason : String) (firstSequence : Option ℤ)
deriving DecidableEq, Repr

def BookOperation.tokenId : BookOperation → String
  | event e => e.tokenId
  | markUncertain tokenId _ _ _ => tokenId

namespace BookReconstructor

def perform (reconstructor : BookReconstructor) :
    BookOperation → BookReconstructor × Except PyError Unit
  | .event event => reconstructor.applyEvent event
  | .markUncertain tokenId startUtcNs reason firstSequence =>
    (reconstructor.markUncertain tokenId startUtcNs reason firstSequence, .ok ())

/-- A run of operations whose exceptions the caller catches. -/
def performAll (reconstructor : BookReconstructor) (operations : List BookOperation) :
    BookReconstructor :=
  operations.foldl (fun current operation => (current.perform operation).1) reconstructor

end BookReconstructor

end PolymarketBt
