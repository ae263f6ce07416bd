import PolymarketBt.Model.Failure

/-! # Parameters of one threshold-and-hold variant

Minutes and seconds are configured as floating-point numbers and are used only after truncation to
nanoseconds; the record holds the truncated values. A copied record can differ from its source in
fields the constructor would have checked, so the checks are predicates and not fields.
-/

namespace PolymarketBt

inductive SideSelection where
  | favoured
  | up
  | down
deriving DecidableEq, Repr

inductive EntryExecutionPolicy where
  | immediate
  | twap
  | adaptivePov
deriving DecidableEq, Repr

structure ThresholdHoldParams where
  entryFromNs : ℤ
  entryToNs : ℤ
  entryTriggerPriceScaled : ℤ
  entryLimitPriceScaled : ℤ
  sideSelection : SideSelection
  orderSharesScaled : Option ℤ
  orderNotionalScaled : Option ℤ
  allowPartialEntry : Bool
  maxEntriesPerEpisode : ℕ
  reentryCooldownNs : ℤ
  entryExecutionPolicy : EntryExecutionPolicy
  executionHorizonNs : ℤ
  executionSlices : ℤ
  executionParticipationPpm : ℤ
  stopLossPriceScaled : Option ℤ
  stopLossFromNs : Option ℤ
  stopLossFractionPpm : ℤ
  takeProfitPriceScaled : Option ℤ
  takeProfitFractionPpm : ℤ
  stopRetryLimit : ℕ
  stopRetryIntervalMs : ℤ
  flattenBeforeEndNs : Option ℤ
deriving DecidableEq, Repr

namespace ThresholdHoldParams

/-- The bounds every field is declared with. -/
structure InRange (params : ThresholdHoldParams) : Prop where
  entryFrom_nonneg : 0 ≤ params.entryFromNs
  entryTo_nonneg : 0 ≤ params.entryToNs
  trigger_range : 0 < params.entryTriggerPriceScaled ∧
    params.entryTriggerPriceScaled < polymarketPriceScale
  limit_range : 0 < params.entryLimitPriceScaled ∧
    params.entryLimitPriceScaled ≤ polymarketPriceScale
  shares_pos : ∀ shares ∈ params.orderSharesScaled, 0 < shares
  notional_pos : ∀ notional ∈ params.orderNotionalScaled, 0 < notional
  entries_pos : 1 ≤ params.maxEntriesPerEpisode
  cooldown_nonneg : 0 ≤ params.reentryCooldownNs
  horizon_range : 0 ≤ params.executionHorizonNs ∧ params.executionHorizonNs ≤ 60000000000
  slices_range : 1 ≤ params.executionSlices ∧ params.executionSlices ≤ 100
  participation_range : 0 < params.executionParticipationPpm ∧
    params.executionParticipationPpm < ppm
  stop_range : ∀ price ∈ params.stopLossPriceScaled, 0 < price ∧ price < polymarketPriceScale
  stopFrom_nonneg : ∀ minute ∈ params.stopLossFromNs, 0 ≤ minute
  stopFraction_range : 0 < params.stopLossFractionPpm ∧ params.stopLossFractionPpm ≤ ppm
  takeProfit_range : ∀ price ∈ params.takeProfitPriceScaled,
    0 < price ∧ price ≤ polymarketPriceScale
  takeProfitFraction_range : 0 < params.takeProfitFractionPpm ∧
    params.takeProfitFractionPpm ≤ ppm
  retryInterval_pos : 0 < params.stopRetryIntervalMs
  flatten_nonneg : ∀ seconds ∈ params.flattenBeforeEndNs, 0 ≤ seconds

/-- The relations between fields the constructor checks. Truncation to nanoseconds keeps the order
of the entry window but can identify its ends. -/
structure Checked (params : ThresholdHoldParams) : Prop where
  window : params.entryFromNs ≤ params.entryToNs
  limit : params.entryTriggerPriceScaled ≤ params.entryLimitPriceScaled
  sizing : params.orderSharesScaled.isSome ≠ params.orderNotionalScaled.isSome
  stop : ∀ price ∈ params.stopLossPriceScaled, price < params.entryTriggerPriceScaled
  takeProfit : ∀ price ∈ params.takeProfitPriceScaled, params.entryTriggerPriceScaled < price
  arming : params.stopLossFromNs.isSome → params.stopLossPriceScaled.isSome
  atomic : params.entryExecutionPolicy ≠ .immediate → params.allowPartialEntry = true

structure Valid (params : ThresholdHoldParams) : Prop where
  inRange : params.InRange
  checked : params.Checked

end ThresholdHoldParams

end PolymarketBt
