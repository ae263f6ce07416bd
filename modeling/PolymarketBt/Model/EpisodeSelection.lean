import PolymarketBt.Model.Tape
import PolymarketBt.ToMathlib.Binary64
import PolymarketBt.ToMathlib.StableSort

/-! # The episodes a backtest request selects

A request names the first and the last calendar day of the market starts it wants. Both become bounds
in nanoseconds through floating-point seconds, and both bounds are inclusive. The index is sorted by
start; whether the tape of an episode is published is read off the workspace.
-/

namespace PolymarketBt

open StableSort

/-- A day of the calendar, counted from the first day of year one through the last of year 9999. -/
@[ext] structure CalendarDay where
  ordinal : ℤ
  first_le : 1 ≤ ordinal := by decide
  le_last : ordinal ≤ 3652059 := by decide
deriving Repr

instance : DecidableEq CalendarDay := fun _ _ => decidable_of_iff _ CalendarDay.ext_iff.symm

/-- The ordinal of the first of January 1970. -/
def unixEpochOrdinal : ℤ := 719163

/-- Seconds from the epoch to a midnight, as a float. -/
def CalendarDay.timestamp (day : CalendarDay) : ℚ :=
  Binary64.nearest (86400 * (day.ordinal - unixEpochOrdinal))

/-- The integer part of a float. -/
def truncate (x : ℚ) : ℤ := if 0 ≤ x then ⌊x⌋ else ⌈x⌉

/-- What of a request the selection reads. -/
structure SelectionRequest where
  fromDate : Option CalendarDay
  toDate : Option CalendarDay
  maxEpisodes : Option ℕ
deriving DecidableEq, Repr

namespace SelectionRequest

/-- The bound a date implies, at the start of its day or at the end of it. -/
def boundAt (endOfDay : Bool) (day : CalendarDay) : ℤ :=
  let seconds := Binary64.nearest (day.timestamp + if endOfDay then 86400 else 0)
  truncate (Binary64.nearest (seconds * 1000000000))

/-- Inclusive episode-start bounds implied by the requested dates. -/
def windowNs (request : SelectionRequest) : Option ℤ × Option ℤ :=
  (request.fromDate.map (boundAt false), request.toDate.map (boundAt true))

end SelectionRequest

/-- The episodes kept so far, and the reasons counted for the others. -/
structure EpisodeSelection where
  selected : List Episode
  excluded : List String
deriving DecidableEq

/-- The reason under which an episode that is not eligible is counted. -/
def Episode.exclusion (episode : Episode) : String :=
  match episode.exclusionReason with
  | none => "ineligible"
  | some reason => if reason = "" then "ineligible" else reason

namespace EpisodeSelection

variable (tapeReady : Episode → Bool)

def visit (window : Option ℤ × Option ℤ) (selection : EpisodeSelection) (episode : Episode) :
    EpisodeSelection :=
  if window.1.any (episode.startUtcNs < ·) then selection
  else if window.2.any (· < episode.startUtcNs) then selection
  else if !episode.eligible then
    { selection with excluded := selection.excluded ++ [episode.exclusion] }
  else if !tapeReady episode then
    { selection with excluded := selection.excluded ++ ["tape_not_built_yet"] }
  else { selection with selected := selection.selected ++ [episode] }

/-- The selection of a request from an index; a cap keeps the most recent episodes. -/
def ofRequest (request : SelectionRequest) (index : List Episode) : EpisodeSelection :=
  let swept := (sortByKey Episode.startUtcNs index).foldl (visit tapeReady request.windowNs) ⟨[], []⟩
  match request.maxEpisodes with
  | none => swept
  | some most =>
    if most < swept.selected.length then
      { swept with selected := swept.selected.drop (swept.selected.length - most) }
    else swept

end EpisodeSelection

end PolymarketBt
