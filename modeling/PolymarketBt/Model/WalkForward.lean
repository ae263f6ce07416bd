import PolymarketBt.Machine.Loop
import PolymarketBt.Model.ExecutionMetadata
import PolymarketBt.Model.Sweep

/-! # Walk-forward selection

The eligible episodes, in order of their starts, are cut into blocks of one size. Every fold selects,
among the variants of one realism preset, the one that earned most on the blocks before its own, and
scores it on its own block.
-/

namespace PolymarketBt

open Machine StableSort

structure WalkForwardFold where
  fold : ℕ
  trainEpisodes : ℕ
  testEpisodes : ℕ
  selectedLabel : String
  trainNetPnlScaled : ℤ
  testNetPnlScaled : ℤ
  testEntries : ℕ
  testWinRatePpm : ℤ
deriving DecidableEq

/-- The arguments of a walk-forward selection, with the tapes and the random streams. -/
structure WalkForward where
  loadTape : Episode → Except PyError EpisodeTape
  draws : String → Draws
  episodes : List Episode
  variants : List Variant
  folds : ℕ := 3
  selectionRealism : String := "base"

namespace WalkForward

variable (walk : WalkForward)

def ordered : List Episode :=
  sortByKey Episode.startUtcNs (walk.episodes.filter (·.eligible))

def block : ℕ := walk.ordered.length / (walk.folds + 1)

def candidates : List Variant :=
  walk.variants.filter (·.realism.name = walk.selectionRealism)

def train (fold : ℕ) : List Episode := walk.ordered.take (walk.block * (fold + 1))

def test (fold : ℕ) : List Episode :=
  (walk.ordered.take (walk.block * (fold + 2))).drop (walk.block * (fold + 1))

def runner (episodes : List Episode) : SweepRunner := .init walk.loadTape episodes walk.draws

/-- The first candidate with the greatest training profit, beside its metrics. -/
def select (metrics : List VariantMetrics) (candidates : List Variant) :
    Option (VariantMetrics × Variant) :=
  maxBy (fun entry => entry.1.netPnlScaled) (metrics.zip candidates)

/-- The metrics of a fold's candidates on its training episodes, and the one selected. -/
def trained (fold : ℕ) : Except PyError (VariantMetrics × Variant) := do
  let (trainMetrics, _) ← (walk.runner (walk.train fold)).run walk.candidates
  match select trainMetrics walk.candidates with
  | none => .error (.valueError "max() iterable argument is empty")
  | some selected => return selected

/-- One fold: select on the past, score on the block that follows it. -/
def score (fold : ℕ) : Except PyError WalkForwardFold := do
  let (trained, best) ← walk.trained fold
  let (testMetrics, _) ← (walk.runner (walk.test fold)).run [best]
  match testMetrics with
  | [] => .error (.lookupError "list index out of range")
  | tested :: _ =>
    return {
      fold := fold
      trainEpisodes := (walk.train fold).length
      testEpisodes := (walk.test fold).length
      selectedLabel := best.label
      trainNetPnlScaled := trained.netPnlScaled
      testNetPnlScaled := tested.netPnlScaled
      testEntries := tested.entries
      testWinRatePpm := tested.winRatePpm }

/-- One iteration over the folds; an empty block ends the loop. -/
def scoreInto (outcomes : List WalkForwardFold) (fold : ℕ) :
    Except PyError (Flow (List WalkForwardFold)) :=
  if walk.test fold = [] then .ok (.stop outcomes)
  else do
    let outcome ← walk.score fold
    return .next (outcomes ++ [outcome])

def run : Except PyError (List WalkForwardFold) :=
  if walk.folds < 2 ∨ walk.ordered.length < walk.folds * 2 then
    .error (.valueError "not enough episodes for the requested number of folds")
  else if walk.candidates = [] then
    .error (.valueError s!"no variants use realism preset {walk.selectionRealism}")
  else forLoop walk.scoreInto [] (List.range walk.folds)

end WalkForward

end PolymarketBt
