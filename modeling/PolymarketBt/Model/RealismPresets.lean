import PolymarketBt.Model.Sweep

/-! # The realism presets

Three points on one axis of pessimism. Every variant of a strategy is evaluated under each of them,
and what holds only under the optimistic one depends on assumptions the public data cannot settle.
-/

namespace PolymarketBt

inductive PresetName where
  | optimistic
  | base
  | pessimistic
deriving DecidableEq, Repr

def PresetName.text : PresetName → String
  | optimistic => "optimistic"
  | base => "base"
  | pessimistic => "pessimistic"

def defaultFee : FeeConfig where
  liquidityRole := .taker
  formula := .sharesRatePOneMinusP
  rate := 7 / 100
  exponent := 1
  minimumFee := 1 / 1000000
  rounding := .halfUp

/-! ## The bounds of the presets pass their checks -/

theorem base_haircut_range : 0 ≤ (250000 : ℤ) ∧ (250000 : ℤ) < ppm := by decide

theorem pessimistic_haircut_range : 0 ≤ (500000 : ℤ) ∧ (500000 : ℤ) < ppm := by decide

theorem pessimistic_participation_range : 0 < (250000 : ℤ) ∧ (250000 : ℤ) ≤ ppm := by decide

theorem base_participation_range : 0 < (500000 : ℤ) ∧ (500000 : ℤ) ≤ ppm := by decide

theorem pessimistic_levels_pos : ∀ levels ∈ some 5, 1 ≤ levels := by simp

theorem pessimistic_age_pos : ∀ age ∈ some (2000 : ℤ), 0 < age := by simp

theorem base_age_pos : ∀ age ∈ some (5000 : ℤ), 0 < age := by simp

theorem pessimistic_ticks_nonneg : ∀ ticks ∈ some (5 : ℤ), 0 ≤ ticks := by simp

theorem base_ticks_nonneg : ∀ ticks ∈ some (10 : ℤ), 0 ≤ ticks := by simp

theorem pessimistic_through_nonneg : ∀ price ∈ some (5000 : ℤ), 0 ≤ price := by simp

theorem base_through_nonneg : ∀ price ∈ some (10000 : ℤ), 0 ≤ price := by simp

def preset (name : PresetName) (latency : Option LatencyConfig) (fee : Option FeeConfig) :
    NamedRealism where
  name := name.text
  realism :=
    match name with
    | .optimistic => {
        latency := latency.getD (.constant 25)
        displayedDepthHaircutPpm := 0
        maxLevelParticipationPpm := ppm
        maxLevelsSwept := none
        volumeParticipationPpm := none
        staleBookMaxAgeMs := none
        requireValidBook := true
        maxTicksThroughTouch := none
        maxPriceThroughTouchScaled := none
        fee := fee.getD defaultFee
        haircut_range := no_haircut_range
        participation_range := full_participation_range
        levels_pos := unset_levels_pos
        volume_pos := unset_pos
        age_pos := unset_pos
        ticks_nonneg := unset_nonneg
        through_nonneg := unset_nonneg }
    | .pessimistic => {
        latency := latency.getD (.constant 250)
        displayedDepthHaircutPpm := 500000
        maxLevelParticipationPpm := 250000
        maxLevelsSwept := some 5
        volumeParticipationPpm := none
        staleBookMaxAgeMs := some 2000
        requireValidBook := true
        maxTicksThroughTouch := some 5
        maxPriceThroughTouchScaled := some 5000
        fee := fee.getD defaultFee
        haircut_range := pessimistic_haircut_range
        participation_range := pessimistic_participation_range
        levels_pos := pessimistic_levels_pos
        volume_pos := unset_pos
        age_pos := pessimistic_age_pos
        ticks_nonneg := pessimistic_ticks_nonneg
        through_nonneg := pessimistic_through_nonneg }
    | .base => {
        latency := latency.getD .lognormal
        displayedDepthHaircutPpm := 250000
        maxLevelParticipationPpm := 500000
        maxLevelsSwept := none
        volumeParticipationPpm := none
        staleBookMaxAgeMs := some 5000
        requireValidBook := true
        maxTicksThroughTouch := some 10
        maxPriceThroughTouchScaled := some 10000
        fee := fee.getD defaultFee
        haircut_range := base_haircut_range
        participation_range := base_participation_range
        levels_pos := unset_levels_pos
        volume_pos := unset_pos
        age_pos := base_age_pos
        ticks_nonneg := base_ticks_nonneg
        through_nonneg := base_through_nonneg }

end PolymarketBt
