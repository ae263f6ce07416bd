import PolymarketBt.Model.Realism

/-! # The realism of the cross-check

The fast simulator is checked against the reference engine under a realism stripped down to what
that engine also models.
-/

namespace PolymarketBt

/-- Strip the realism model down to what the reference engine also models. -/
def engineComparableRealism (realism : ExecutionRealism) (latencyMs : ℤ) : ExecutionRealism :=
  { realism with
    latency := .constant latencyMs
    displayedDepthHaircutPpm := 0
    maxLevelParticipationPpm := 1000000
    maxLevelsSwept := none
    volumeParticipationPpm := none
    staleBookMaxAgeMs := none
    maxTicksThroughTouch := none
    maxPriceThroughTouchScaled := none
    haircut_range := no_haircut_range
    participation_range := full_participation_range
    levels_pos := unset_levels_pos
    volume_pos := unset_pos
    age_pos := unset_pos
    ticks_nonneg := unset_nonneg
    through_nonneg := unset_nonneg }

end PolymarketBt
