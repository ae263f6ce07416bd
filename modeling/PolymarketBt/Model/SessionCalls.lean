import PolymarketBt.Model.OptimalExecution
import PolymarketBt.ToMathlib.RaisingMethod

/-! # The methods of a session, with what they change before they raise

Each method is written in the order of the source: a raise keeps the assignments made before it. A
policy is any function of the state it is shown, and it may raise itself.
-/

namespace PolymarketBt

open RaisingMethod

abbrev SessionMethod (α : Type) := RaisingMethod PyError SequentialExecutionSession α

/-- What a pure deterministic policy answers to a state. -/
abbrev PolicyAnswer := ExecutionState → Except PyError ExecutionAction

namespace SessionMethod

variable (parent : ParentOrder) (answer : PolicyAnswer)

def decide (nowUtcNs : ℤ) (bids asks : List (ℤ × ℤ)) (minimumOrderSizeScaled : ℤ)
    (currentReferencePriceScaled : Option ℤ) : SessionMethod ExecutionAction := do
  let session ← get
  raising (require (session.lastDecisionUtcNs.all (· ≤ nowUtcNs))
    "execution session cannot decide backwards in time")
  let volume ← raising (session.volume.advance parent.trades parent.tokenIndex nowUtcNs)
  update fun session => { session with volume := volume }
  update fun session => { session with lastDecisionUtcNs := some nowUtcNs }
  if session.pending.isSome then return .waitFor .childOutstanding
  if nowUtcNs < session.nextDecisionNotBeforeUtcNs then return .waitFor .previousChildNotArrived
  let observed ← get
  let state :=
    observed.stateAt parent nowUtcNs bids asks minimumOrderSizeScaled currentReferencePriceScaled
  raising state.check
  let action ← raising (answer state)
  match action.kind with
  | .wait => return action
  | .takerSlice =>
    update fun session => { session with pending := some (action, nowUtcNs) }
    update fun session => { session with lastActionUtcNs := some nowUtcNs }
    return action

def requirePending : SessionMethod (ExecutionAction × ℤ) := do
  let session ← get
  match session.pending with
  | none => raising (.error (.valueError "there is no pending child action"))
  | some child => return child

def applyFills (fills : List ExecutionFill) (notionalTotalScaled feeTotalScaled : ℤ) :
    SessionMethod Unit := do
  let child ← requirePending
  let session ← get
  let addedShares := (fills.map ExecutionFill.sharesScaled).sum
  raising (require (addedShares ≤ child.1.requestedSharesScaled)
    "fills exceed the pending child request")
  raising (require (addedShares ≤ session.remainingSharesScaled parent)
    "fills exceed the parent remainder")
  let wallet ← raising (match parent.plan.side with
    | .buy => do
      require (notionalTotalScaled + feeTotalScaled ≤ session.cashScaled)
        "fill notional plus fees exceeds available cash"
      return (session.cashScaled - (notionalTotalScaled + feeTotalScaled),
        session.inventorySharesScaled + addedShares)
    | .sell => do
      require (addedShares ≤ session.inventorySharesScaled) "sell fills exceed available inventory"
      require (0 ≤ session.cashScaled + notionalTotalScaled - feeTotalScaled)
        "sell fees would make available cash negative"
      return (session.cashScaled + notionalTotalScaled - feeTotalScaled,
        session.inventorySharesScaled - addedShares))
  update fun session => { session with cashScaled := wallet.1 }
  update fun session => { session with inventorySharesScaled := wallet.2 }
  update fun session =>
    { session with filledSharesScaled := session.filledSharesScaled + addedShares }
  update fun session => { session with fills := session.fills ++ fills }

def completePending (arrivalUtcNs : ℤ) : SessionMethod Unit := do
  update fun session => { session with
    nextDecisionNotBeforeUtcNs := max session.nextDecisionNotBeforeUtcNs arrivalUtcNs }
  update fun session => { session with pending := none }

/-- The fills an outcome hands to the session, one for each slice. -/
def fillsOf (outcome : ExecutionOutcome) : List ExecutionFill :=
  outcome.slices.map fun slice =>
    ⟨outcome.arrivalUtcNs, slice.sizeScaled, slice.priceScaled, slice.feeScaled⟩

/-- Atomically apply the outcome of the outstanding child. -/
def recordOutcome (outcome : ExecutionOutcome) : SessionMethod Unit := do
  let child ← requirePending
  raising (require (outcome.requestedSharesScaled = child.1.requestedSharesScaled)
    "outcome requested size does not match pending child")
  raising (require (outcome.decisionUtcNs = child.2)
    "outcome decision timestamp does not match pending child")
  raising (require (child.2 ≤ outcome.arrivalUtcNs) "outcome arrival cannot precede its decision")
  raising (require (outcome.arrivalUtcNs ≤ parent.plan.deadlineUtcNs ∨ outcome.filled = false)
    "a child arriving after the parent deadline cannot fill")
  raising (require (sliceShares outcome.slices = outcome.filledSharesScaled)
    "outcome slices do not equal aggregate filled shares")
  raising (require (sliceNotional outcome.slices = outcome.notionalScaled)
    "outcome slices do not equal aggregate notional")
  raising (require (sliceFees outcome.slices = outcome.feesScaled)
    "outcome slices do not equal aggregate fees")
  raising ((fillsOf outcome).forM ExecutionFill.check)
  applyFills parent (fillsOf outcome) outcome.notionalScaled outcome.feesScaled
  completePending outcome.arrivalUtcNs

/-- Apply one aggregate fill of an executor that reports no slices. -/
def recordFill (fill : ExecutionFill) : SessionMethod Unit := do
  let child ← requirePending
  raising (require (child.2 ≤ fill.timestampUtcNs) "fill cannot precede its decision")
  raising (require (fill.timestampUtcNs ≤ parent.plan.deadlineUtcNs)
    "a child arriving after the parent deadline cannot fill")
  let notional ← raising (notionalScaled fill.sharesScaled fill.priceScaled)
  applyFills parent [fill] notional fill.feeScaled
  completePending fill.timestampUtcNs

/-- Complete a rejected child without a change to the wallet. -/
def recordNoFill (arrivalUtcNs : ℤ) : SessionMethod Unit := do
  let child ← requirePending
  raising (require (child.2 ≤ arrivalUtcNs) "arrival cannot precede its decision")
  completePending arrivalUtcNs

end SessionMethod

/-! ## Calls on one session -/

/-- A call with its arguments. A fill is an argument only if its own construction returned. -/
inductive SessionCall where
  | decide (nowUtcNs : ℤ) (bids asks : List (ℤ × ℤ)) (minimumOrderSizeScaled : ℤ)
      (currentReferencePriceScaled : Option ℤ)
  | recordOutcome (outcome : ExecutionOutcome)
  | recordFill (fill : ExecutionFill) (constructed : fill.check = .ok ())
  | recordNoFill (arrivalUtcNs : ℤ)

/-- A fill as it was recorded, with the notional it was booked at. -/
structure RecordedFill where
  fill : ExecutionFill
  notionalScaled : ℤ
deriving DecidableEq, Repr

namespace RecordedFill

/-- The slices of an outcome are booked at their own notionals. -/
def ofOutcome (outcome : ExecutionOutcome) : List RecordedFill :=
  outcome.slices.map fun slice =>
    ⟨⟨outcome.arrivalUtcNs, slice.sizeScaled, slice.priceScaled, slice.feeScaled⟩,
      slice.notionalScaled⟩

/-- An aggregate fill is booked at the notional of its size and price, which `recordFill` checked
to exist. -/
def ofFill (fill : ExecutionFill) : RecordedFill :=
  ⟨fill, ((PolymarketBt.notionalScaled fill.sharesScaled fill.priceScaled).toOption).getD 0⟩

end RecordedFill

/-- What a call that returned adds to the history of a session. -/
inductive SessionEvent where
  | decided (nowUtcNs : ℤ) (action : ExecutionAction)
  | completed (arrivalUtcNs : ℤ) (fills : List RecordedFill)
deriving DecidableEq, Repr

namespace SessionCall

variable (parent : ParentOrder) (answer : PolicyAnswer)

/-- Whether the call records the end of a child. -/
def Records : SessionCall → Prop
  | decide .. => False
  | _ => True

/-- Perform a call and name what it did. -/
def method : SessionCall → SessionMethod SessionEvent
  | decide nowUtcNs bids asks minimumOrderSizeScaled currentReferencePriceScaled => do
    let action ← SessionMethod.decide parent answer nowUtcNs bids asks minimumOrderSizeScaled
      currentReferencePriceScaled
    return .decided nowUtcNs action
  | recordOutcome outcome => do
    SessionMethod.recordOutcome parent outcome
    return .completed outcome.arrivalUtcNs (RecordedFill.ofOutcome outcome)
  | recordFill fill _ => do
    SessionMethod.recordFill parent fill
    return .completed fill.timestampUtcNs [.ofFill fill]
  | recordNoFill arrivalUtcNs => do
    SessionMethod.recordNoFill arrivalUtcNs
    return .completed arrivalUtcNs []

end SessionCall

/-- A session and the history of the calls that returned. -/
structure SessionRun where
  session : SequentialExecutionSession
  history : List SessionEvent

/-- The next call; its caller goes on when it raises. -/
def SessionRun.call (parent : ParentOrder) (answer : PolicyAnswer) (run : SessionRun)
    (call : SessionCall) : SessionRun :=
  match (call.method parent answer).perform run.session with
  | (.ok event, session) => ⟨session, run.history ++ [event]⟩
  | (.error _, session) => ⟨session, run.history⟩

def SessionRun.calls (parent : ParentOrder) (answer : PolicyAnswer) (run : SessionRun)
    (calls : List SessionCall) : SessionRun :=
  calls.foldl (SessionRun.call parent answer) run

end PolymarketBt
