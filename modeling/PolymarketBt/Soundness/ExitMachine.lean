import PolymarketBt.Proofs.FastSim.Exits
import PolymarketBt.Soundness.EpisodeLedger

/-! # The exits of a reported run

The orders of a report are entries followed by exits, and the exits keep their schedule: a bounded
number of each kind, none before the position exists or before the previous one has arrived, stops
on their triggers and at their intervals, and none for more than is held.
-/

namespace PolymarketBt

namespace ThresholdHoldSimulator

variable {simulator : ThresholdHoldSimulator} {tape : EpisodeTape} {cash : CashAvailability}
  {result : EpisodeResult}

/-- A replay of the tape under the parameters, for the instants that these determine. -/
def Replays (simulator : ThresholdHoldSimulator) (tape : EpisodeTape) (replay : Replay) : Prop :=
  replay.params = simulator.params ∧ replay.tape = tape

end ThresholdHoldSimulator

end PolymarketBt
