import PolymarketBt.Model.TakerExecution

/-! # The taker execution with the state it leaves behind

The same call as `execute`, with the book and the portfolio as they are when it raises: a level whose
fee does not exist stops the plan after the fills before it have been booked.
-/

namespace PolymarketBt

/-- Book and portfolio after a call, and what the call returned or raised. -/
structure TakerCall where
  book : OrderBook
  portfolio : Portfolio
  returned : Except PyError OrderResult

namespace TakerExecutionSimulator

variable (simulator : TakerExecutionSimulator)

/-- Carry out a plan level by level. -/
def fillLevels (intent : OrderIntent) (arrivalTimeNs : ℤ) :
    FillProgress → List PlannedFill → FillProgress × Except PyError Unit
  | progress, [] => (progress, .ok ())
  | progress, level :: rest =>
    match simulator.feeModel.calculate level.sizeScaled level.priceScaled with
    | .error e => (progress, .error e)
    | .ok fee =>
      let fill := simulator.fillOf intent arrivalTimeNs progress.book.lastSequence level fee
      match progress.portfolio.applyFill fill intent.outcome with
      | (portfolio, .error e) => ({ progress with portfolio := portfolio }, .error e)
      | (portfolio, .ok ()) =>
        fillLevels intent arrivalTimeNs {
          book := progress.book.consume intent.side.opposite level.priceScaled level.sizeScaled
          portfolio := portfolio
          fills := progress.fills ++ [fill] } rest

/-- What an order whose fills are booked returns. -/
def resultOf (intent : OrderIntent) (fills : List SimulatedFill) : OrderResult :=
  if fills.isEmpty then .rejected intent "no executable liquidity/resources"
  else {
    intent := intent
    status := if fullyFilled intent fills then .filled else .partiallyFilled
    fills := fills }

def perform (intent : OrderIntent) (book : OrderBook) (portfolio : Portfolio) (arrivalTimeNs : ℤ) :
    TakerCall :=
  if !book.valid then ⟨book, portfolio, .ok (.rejected intent "book unavailable or invalid")⟩
  else if intent.requestedSharesScaled = none ∧ intent.requestedNotionalScaled = none then
    ⟨book, portfolio, .ok (.rejected intent "size or notional required")⟩
  else
    match plan intent book with
    | .error e => ⟨book, portfolio, .error e⟩
    | .ok planned =>
      match simulator.shortage intent portfolio planned with
      | .error e => ⟨book, portfolio, .error e⟩
      | .ok (some reason) => ⟨book, portfolio, .ok (.rejected intent reason)⟩
      | .ok none =>
        match simulator.fillLevels intent arrivalTimeNs ⟨book, portfolio, []⟩ planned with
        | (progress, .error e) => ⟨progress.book, progress.portfolio, .error e⟩
        | (progress, .ok ()) =>
          ⟨progress.book, progress.portfolio, .ok (resultOf intent progress.fills)⟩

variable {simulator} {intent : OrderIntent} {arrivalTimeNs : ℤ}

theorem foldlM_fillLevel (progress : FillProgress) (planned : List PlannedFill) :
    planned.foldlM (simulator.fillLevel intent arrivalTimeNs) progress =
      match simulator.fillLevels intent arrivalTimeNs progress planned with
      | (after, .ok ()) => .ok after
      | (_, .error e) => .error e := by
  induction planned generalizing progress with
  | nil => rfl
  | cons level rest ih =>
    rw [List.foldlM_cons, fillLevels]
    unfold fillLevel
    cases simulator.feeModel.calculate level.sizeScaled level.priceScaled with
    | error e => rfl
    | ok fee =>
      dsimp only [bind, Except.bind]
      cases progress.portfolio.applyFill (simulator.fillOf intent arrivalTimeNs
          progress.book.lastSequence level fee) intent.outcome with
      | mk portfolio applied =>
        cases applied with
        | error e => rfl
        | ok done => exact ih _

/-- A call returns what `execute` returns, with the same book and portfolio. -/
theorem execute_eq_perform (book : OrderBook) (portfolio : Portfolio) :
    simulator.execute intent book portfolio arrivalTimeNs =
      (simulator.perform intent book portfolio arrivalTimeNs).returned.map fun result =>
        ((simulator.perform intent book portfolio arrivalTimeNs).book,
          (simulator.perform intent book portfolio arrivalTimeNs).portfolio, result) := by
  unfold execute perform
  split
  · rfl
  split
  · rfl
  cases plan intent book with
  | error e => rfl
  | ok planned =>
    dsimp only [bind, Except.bind]
    cases simulator.shortage intent portfolio planned with
    | error e => rfl
    | ok short =>
      cases short with
      | some reason => rfl
      | none =>
        dsimp only
        rw [foldlM_fillLevel]
        cases simulator.fillLevels intent arrivalTimeNs ⟨book, portfolio, []⟩ planned with
        | mk progress filled =>
          cases filled with
          | error e => rfl
          | ok done =>
            unfold resultOf
            dsimp only [Except.map]
            split
            · rfl
            · rfl

end TakerExecutionSimulator

/-! ## Calls on one portfolio -/

inductive LedgerCall where
  | execute (intent : OrderIntent) (book : OrderBook) (arrivalTimeNs : ℤ)
  | settleMarket (conditionId winningTokenId : String) (timestampNs : ℤ)

/-- The portfolio that a call leaves behind, whether it returns or raises. -/
def TakerExecutionSimulator.after (simulator : TakerExecutionSimulator) (portfolio : Portfolio) :
    LedgerCall → Portfolio
  | .execute intent book arrivalTimeNs =>
    (simulator.perform intent book portfolio arrivalTimeNs).portfolio
  | .settleMarket conditionId winningTokenId timestampNs =>
    (portfolio.settleMarket conditionId winningTokenId timestampNs).1

end PolymarketBt
