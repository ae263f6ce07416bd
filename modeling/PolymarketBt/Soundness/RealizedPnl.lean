import PolymarketBt.Proofs.Portfolio

/-! # What realized P&L leaves out

A sale nets its fee out of realized P&L; a purchase takes its fee from cash and enters it neither in
the cost of the position nor in realized P&L. So cash and cost exceed the starting cash by the realized
P&L less the fees of the purchases.
-/

namespace PolymarketBt

inductive PortfolioCall where
  | applyFill (fill : SimulatedFill) (outcome : String)
  | settleMarket (conditionId winningTokenId : String) (timestampNs : ℤ)
deriving DecidableEq, Repr

namespace Portfolio

/-- The portfolio that a call leaves behind, whether it returns or raises. -/
def after (portfolio : Portfolio) : PortfolioCall → Portfolio
  | .applyFill fill outcome => (portfolio.applyFill fill outcome).1
  | .settleMarket conditionId winningTokenId timestampNs =>
    (portfolio.settleMarket conditionId winningTokenId timestampNs).1

/-- The fee of a purchase that is booked. -/
def buyFee (portfolio : Portfolio) : PortfolioCall → ℤ
  | .applyFill fill outcome =>
    match fill.side, (portfolio.applyFill fill outcome).2 with
    | .buy, .ok () => fill.feeScaled
    | _, _ => 0
  | .settleMarket _ _ _ => 0

def afterAll (portfolio : Portfolio) (calls : List PortfolioCall) : Portfolio :=
  calls.foldl after portfolio

/-- The fees of all purchases that are booked. -/
def buyFees (portfolio : Portfolio) : List PortfolioCall → ℤ
  | [] => 0
  | call :: rest => portfolio.buyFee call + (portfolio.after call).buyFees rest

/-- A fill of a positive size that sells no more than the position holds, or is refused for it. -/
def Covered (portfolio : Portfolio) : PortfolioCall → Prop
  | .applyFill fill _ => 0 < fill.sizeScaled ∧ 0 ≤ fill.notionalScaled ∧
      (fill.side = .sell → portfolio.allowShortPositions = true →
        fill.sizeScaled ≤ portfolio.inventory fill.tokenId)
  | .settleMarket _ _ _ => True

/-- Every call is covered in the portfolio on which it is made. -/
def CoveredAll (portfolio : Portfolio) : List PortfolioCall → Prop
  | [] => True
  | call :: rest => portfolio.Covered call ∧ (portfolio.after call).CoveredAll rest

/-- Cash and cost against starting cash and realized P&L, given the fees of the purchases. -/
structure Accounts (portfolio : Portfolio) (startingCash fees : ℤ) : Prop where
  distinct : portfolio.Distinct
  balance : portfolio.availableCashScaled + portfolio.totalCost =
    startingCash + portfolio.realizedPnlScaled - fees

variable {portfolio : Portfolio} {startingCash fees : ℤ}

theorem Accounts.init (startingCash : ℤ) (allowNegativeCash allowShortPositions : Bool) :
    (Portfolio.init startingCash allowNegativeCash allowShortPositions).Accounts startingCash 0 :=
  ⟨List.nodup_nil, by simp [Portfolio.init, totalCost]⟩

theorem Accounts.after (accounts : portfolio.Accounts startingCash fees) (call : PortfolioCall) :
    (portfolio.after call).Accounts startingCash (fees + portfolio.buyFee call) := by
  obtain ⟨distinct, balance⟩ := accounts
  cases call with
  | settleMarket conditionId winningTokenId timestampNs =>
    refine ⟨distinct.settleMarket, ?_⟩
    change (portfolio.settleMarket _ _ _).1.availableCashScaled +
      (portfolio.settleMarket _ _ _).1.totalCost = _
    rw [totalCost_settleMarket]
    simp only [Portfolio.settleMarket, Portfolio.after, buyFee]
    omega
  | applyFill fill outcome =>
    rcases applyFill_cases portfolio fill outcome with ⟨error, refused⟩ | ⟨side, -, booked⟩ |
      ⟨side, -, booked⟩
    · have noFee : portfolio.buyFee (.applyFill fill outcome) = 0 := by
        simp only [buyFee, refused]
        cases fill.side <;> rfl
      simp only [Portfolio.after, refused, noFee, add_zero]
      refine ⟨distinct.setPosition _ _, ?_⟩
      rw [totalCost_refused distinct]
      exact balance
    · have fee : portfolio.buyFee (.applyFill fill outcome) = fill.feeScaled := by
        simp only [buyFee, side, booked]
      simp only [Portfolio.after, booked, fee]
      refine ⟨distinct.setPosition _ _, ?_⟩
      rw [totalCost_buyFill distinct]
      simp only [recordFill, buyFill, setPosition]
      omega
    · have noFee : portfolio.buyFee (.applyFill fill outcome) = 0 := by
        simp only [buyFee, side]
      simp only [Portfolio.after, booked, noFee, add_zero]
      refine ⟨distinct.setPosition _ _, ?_⟩
      rw [totalCost_sellFill distinct]
      simp only [recordFill, sellFill, setPosition]
      omega

theorem Accounts.afterAll (accounts : portfolio.Accounts startingCash fees)
    (calls : List PortfolioCall) :
    (portfolio.afterAll calls).Accounts startingCash (fees + portfolio.buyFees calls) := by
  induction calls generalizing portfolio fees with
  | nil => simpa [Portfolio.afterAll, buyFees] using accounts
  | cons call rest ih =>
    have later := ih (accounts.after call)
    rw [add_assoc] at later
    exact later

/-- Covered calls keep every position long. -/
theorem Long.after {call : PortfolioCall} (long : portfolio.Long) (covered : portfolio.Covered call) :
    (portfolio.after call).Long := by
  cases call with
  | settleMarket conditionId winningTokenId timestampNs => exact long.settleMarket
  | applyFill fill outcome =>
    obtain ⟨size, notional, unshorted⟩ := covered
    rcases applyFill_cases portfolio fill outcome with ⟨error, refused⟩ | ⟨-, -, booked⟩ |
      ⟨side, permitted, booked⟩
    · simp only [Portfolio.after, refused]
      exact Long.setPosition long long.positionFor
    · simp only [Portfolio.after, booked]
      exact long.buyFill size notional
    · simp only [Portfolio.after, booked]
      exact long.sellFill size (permitted.elim (unshorted side) id)

theorem Long.afterAll {calls : List PortfolioCall} (long : portfolio.Long)
    (covered : portfolio.CoveredAll calls) : (portfolio.afterAll calls).Long := by
  induction calls generalizing portfolio with
  | nil => exact long
  | cons call rest ih => exact ih (long.after covered.1) covered.2

/-- Long positions without shares have no cost. -/
theorem Long.totalCost_eq_zero (long : portfolio.Long)
    (flat : ∀ entry ∈ portfolio.positions, entry.2.sharesScaled = 0) : portfolio.totalCost = 0 := by
  refine List.sum_eq_zero fun cost member => ?_
  obtain ⟨entry, known, rfl⟩ := List.mem_map.mp member
  exact (long entry known).empty (flat entry known)

end Portfolio

/-- After any calls, cash and cost balance with realized P&L exactly when the purchases were free of
fees, and so does the cash of a flat portfolio that never sold short. -/
theorem realized_pnl_identity_iff (startingCash : ℤ) (allowNegativeCash allowShortPositions : Bool)
    (calls : List PortfolioCall) :
    let initial := Portfolio.init startingCash allowNegativeCash allowShortPositions
    let final := initial.afterAll calls
    (final.availableCashScaled + final.totalCost = startingCash + final.realizedPnlScaled ↔
      initial.buyFees calls = 0) ∧
    (initial.CoveredAll calls → (∀ entry ∈ final.positions, entry.2.sharesScaled = 0) →
      (final.realizedPnlScaled = final.availableCashScaled - startingCash ↔
        initial.buyFees calls = 0)) := by
  intro initial final
  have accounts := (Portfolio.Accounts.init startingCash allowNegativeCash
    allowShortPositions).afterAll calls
  have balance : final.availableCashScaled + final.totalCost =
      startingCash + final.realizedPnlScaled - (0 + initial.buyFees calls) := accounts.balance
  constructor
  · constructor <;> intro <;> omega
  · intro covered flat
    have long : initial.Long := fun entry member => by cases member
    have costless : final.totalCost = 0 := (long.afterAll covered).totalCost_eq_zero flat
    constructor <;> intro <;> omega

/-- Ten shares at a half, with the given fee. -/
def halfPriceFill (side : Side) (feeScaled : ℤ) : SimulatedFill where
  fillId := "fill"
  orderIntentId := "order"
  conditionId := "market"
  tokenId := "up"
  side := side
  priceScaled := 500000
  sizeScaled := 10000000
  notionalScaled := 5000000
  feeScaled := feeScaled
  bookEventSequence := 1
  decisionTimeNs := 1
  scheduledArrivalTimeNs := 2
  fillTimeNs := 2
  levelRank := 1
  liquidityRemainingAfterScaled := 0

/-- A purchase without a fee and a sale with one. -/
theorem realized_pnl_identity_sold :
    let final := (Portfolio.init 9000000 false false).afterAll
      [.applyFill (halfPriceFill .buy 0) "Up", .applyFill (halfPriceFill .sell 175000) "Up"]
    final.realizedPnlScaled = final.availableCashScaled - 9000000 :=
  ((realized_pnl_identity_iff 9000000 false false
    [.applyFill (halfPriceFill .buy 0) "Up", .applyFill (halfPriceFill .sell 175000) "Up"]).2
      ⟨⟨by decide, by decide, fun _ shorted => Bool.noConfusion shorted⟩,
        ⟨by decide, by decide, fun _ shorted => Bool.noConfusion shorted⟩, trivial⟩
      (by decide)).mpr (by decide)

/-- Bought and sold at one price with the fee of the default schedule on both sides: the portfolio is
flat, has lost both fees, and has realized the loss of one. -/
theorem realized_pnl_misses_buy_fee :
    let final := (Portfolio.init 9000000 false false).afterAll
      [.applyFill (halfPriceFill .buy 175000) "Up", .applyFill (halfPriceFill .sell 175000) "Up"]
    (∀ entry ∈ final.positions, entry.2.sharesScaled = 0) ∧
      final.availableCashScaled - 9000000 = -350000 ∧ final.realizedPnlScaled = -175000 ∧
      final.availableCashScaled + final.totalCost ≠ 9000000 + final.realizedPnlScaled := by
  decide

end PolymarketBt
