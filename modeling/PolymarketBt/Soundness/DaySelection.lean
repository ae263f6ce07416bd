import PolymarketBt.Model.EpisodeSelection

/-! # Single-day selections

The bounds of a request are exact: the floating-point seconds of every midnight of the calendar are
whole and small enough. The upper one is the next midnight and inclusive, so a market that starts at
midnight is selected by two days, and the days partition an index exactly when it has no such market.
-/

namespace PolymarketBt

open StableSort

/-! ## The bounds in nanoseconds -/

namespace CalendarDay

def nanosecondsPerDay : ℤ := 86400000000000

/-- The first nanosecond of a day. -/
def startNs (day : CalendarDay) : ℤ := nanosecondsPerDay * (day.ordinal - unixEpochOrdinal)

/-- The first nanosecond after a day. -/
def nextMidnightNs (day : CalendarDay) : ℤ := day.startNs + nanosecondsPerDay

/-- The instants of a day. -/
def Contains (day : CalendarDay) (instantNs : ℤ) : Prop :=
  day.startNs ≤ instantNs ∧ instantNs < day.nextMidnightNs

instance (day : CalendarDay) (instantNs : ℤ) : Decidable (day.Contains instantNs) :=
  inferInstanceAs (Decidable (_ ∧ _))

theorem truncate_intCast (n : ℤ) : truncate (n : ℚ) = n := by
  unfold truncate
  split <;> simp

/-- Whole seconds of a midnight are exact in floating point, and so are their nanoseconds. -/
theorem seconds_exact (days : ℤ) (bound : |days| ≤ 3652059) :
    Binary64.nearest (86400 * (days : ℚ)) = 86400 * days ∧
      Binary64.nearest (86400 * (days : ℚ) * 1000000000) = 86400 * days * 1000000000 := by
  have small := abs_le.mp bound
  constructor
  · have whole := Binary64.nearest_exact (n := 86400 * days) 0 (by rw [abs_lt]; omega)
    push_cast at whole
    simpa using whole
  · have whole := Binary64.nearest_exact (n := 1318359375 * days) 16 (by rw [abs_lt]; omega)
    have same : ((1318359375 * days : ℤ) : ℚ) * 2 ^ 16 = 86400 * days * 1000000000 := by
      push_cast
      ring
    rwa [same] at whole

theorem boundAt_eq (day : CalendarDay) :
    SelectionRequest.boundAt false day = day.startNs ∧
      SelectionRequest.boundAt true day = day.nextMidnightNs := by
  have first := day.first_le
  have last := day.le_last
  obtain ⟨seconds, nanoseconds⟩ := seconds_exact (day.ordinal - unixEpochOrdinal)
    (by rw [abs_le, unixEpochOrdinal]; omega)
  obtain ⟨later, laterNs⟩ := seconds_exact (day.ordinal - unixEpochOrdinal + 1)
    (by rw [abs_le, unixEpochOrdinal]; omega)
  push_cast at seconds nanoseconds later laterNs
  have stamp : day.timestamp = 86400 * ((day.ordinal : ℚ) - unixEpochOrdinal) := seconds
  constructor
  · have whole : (86400 * ((day.ordinal : ℚ) - unixEpochOrdinal) * 1000000000) =
        (day.startNs : ℤ) := by
      rw [startNs, nanosecondsPerDay]
      push_cast
      ring
    simp only [SelectionRequest.boundAt, Bool.false_eq_true, if_false, add_zero, stamp, seconds,
      nanoseconds]
    rw [whole, truncate_intCast]
  · have next : 86400 * ((day.ordinal : ℚ) - unixEpochOrdinal) + 86400 =
        86400 * ((day.ordinal : ℚ) - unixEpochOrdinal + 1) := by ring
    have whole : (86400 * ((day.ordinal : ℚ) - unixEpochOrdinal + 1) * 1000000000) =
        (day.nextMidnightNs : ℤ) := by
      rw [nextMidnightNs, startNs, nanosecondsPerDay]
      push_cast
      ring
    simp only [SelectionRequest.boundAt, if_true, stamp, next, later, laterNs]
    rw [whole, truncate_intCast]

/-- No instant lies in two days. -/
theorem Contains.eq {first second : CalendarDay} {instantNs : ℤ} (one : first.Contains instantNs)
    (two : second.Contains instantNs) : first = second := by
  have same : first.ordinal = second.ordinal := by
    obtain ⟨start, finish⟩ := one
    obtain ⟨start', finish'⟩ := two
    simp only [nextMidnightNs, startNs, nanosecondsPerDay] at start finish start' finish'
    omega
  obtain ⟨_, _, _⟩ := first
  obtain ⟨_, _, _⟩ := second
  cases same
  rfl

/-- Every instant from the first nanosecond of a day to the last of another lies in a day between
them. -/
theorem exists_contains {first last : CalendarDay} {instantNs : ℤ} (started : first.startNs ≤ instantNs)
    (ends : instantNs < last.nextMidnightNs) :
    ∃ day : CalendarDay, first.ordinal ≤ day.ordinal ∧ day.ordinal ≤ last.ordinal ∧
      day.Contains instantNs := by
  have low := first.first_le
  have high := last.le_last
  simp only [nextMidnightNs, startNs, nanosecondsPerDay] at started ends
  refine ⟨⟨instantNs / nanosecondsPerDay + unixEpochOrdinal, ?_, ?_⟩, ?_, ?_, ?_, ?_⟩
  all_goals simp only [nextMidnightNs, startNs, nanosecondsPerDay, unixEpochOrdinal] at *
  all_goals omega

end CalendarDay

/-! ## The selection -/

section

variable (tapeReady : Episode → Bool)

/-- What a request without a cap selects between two days. -/
def selectedBetween (index : List Episode) (first last : CalendarDay) : List Episode :=
  (EpisodeSelection.ofRequest tapeReady ⟨some first, some last, none⟩ index).selected

open Classical in
/-- Single-day requests partition an index, and a longer one selects the union of its days. -/
structure PartitionsDays (index : List Episode) : Prop where
  single : ∀ day, selectedBetween tapeReady index day day =
    (sortByKey Episode.startUtcNs index).filter fun episode => day.Contains episode.startUtcNs
  once : ∀ episode ∈ index, (∃ day : CalendarDay, day.Contains episode.startUtcNs) →
    ∃! day, episode ∈ selectedBetween tapeReady index day day
  disjoint : ∀ first second, first ≠ second →
    (selectedBetween tapeReady index first first).Disjoint
      (selectedBetween tapeReady index second second)
  union : ∀ first last : CalendarDay, first.ordinal ≤ last.ordinal →
    selectedBetween tapeReady index first last =
      (sortByKey Episode.startUtcNs index).filter fun episode =>
        ∃ day : CalendarDay, first.ordinal ≤ day.ordinal ∧ day.ordinal ≤ last.ordinal ∧
          episode ∈ selectedBetween tapeReady index day day

theorem EpisodeSelection.foldl_visit (window : Option ℤ × Option ℤ) (items : List Episode)
    (before : EpisodeSelection) :
    (items.foldl (EpisodeSelection.visit tapeReady window) before).selected =
      before.selected ++ items.filter fun episode =>
        !window.1.any (episode.startUtcNs < ·) && !window.2.any (· < episode.startUtcNs) &&
          episode.eligible && tapeReady episode := by
  induction items generalizing before with
  | nil => simp
  | cons episode rest ih =>
    rw [List.foldl_cons, ih, EpisodeSelection.visit]
    cases early : window.1.any (episode.startUtcNs < ·) with
    | true => simp [early]
    | false =>
      cases late : window.2.any (· < episode.startUtcNs) with
      | true => simp [early, late]
      | false =>
        cases eligible : episode.eligible <;> cases ready : tapeReady episode <;>
          simp [early, late, eligible, ready]

variable {tapeReady} {index : List Episode}

/-- Between two days a request selects the starts up to the midnight after the last, included. -/
theorem selectedBetween_eq (eligible : ∀ episode ∈ index, episode.eligible = true)
    (ready : ∀ episode ∈ index, tapeReady episode = true) (first last : CalendarDay) :
    selectedBetween tapeReady index first last =
      (sortByKey Episode.startUtcNs index).filter fun episode =>
        first.startNs ≤ episode.startUtcNs ∧ episode.startUtcNs ≤ last.nextMidnightNs := by
  change ((sortByKey Episode.startUtcNs index).foldl (EpisodeSelection.visit tapeReady _)
    ⟨[], []⟩).selected = _
  rw [EpisodeSelection.foldl_visit, List.nil_append]
  refine List.filter_congr fun episode member => ?_
  have member := mem_sortByKey.mp member
  rw [Bool.eq_iff_iff]
  simp [SelectionRequest.windowNs, (CalendarDay.boundAt_eq first).1, (CalendarDay.boundAt_eq last).2,
    eligible episode member, ready episode member]

/-- Single-day requests partition the eligible, ready episodes of an index exactly when none starts
at the midnight that ends a day. -/
theorem partitions_days_iff (eligible : ∀ episode ∈ index, episode.eligible = true)
    (ready : ∀ episode ∈ index, tapeReady episode = true) :
    PartitionsDays tapeReady index ↔
      ∀ episode ∈ index, ∀ day : CalendarDay, episode.startUtcNs ≠ day.nextMidnightNs := by
  have between := selectedBetween_eq eligible ready
  constructor
  · intro partitions episode member day midnight
    have inIndex : episode ∈ sortByKey Episode.startUtcNs index := mem_sortByKey.mpr member
    have selected : episode ∈ selectedBetween tapeReady index day day := by
      rw [between, List.mem_filter]
      refine ⟨inIndex, decide_eq_true ⟨?_, midnight.le⟩⟩
      rw [midnight, CalendarDay.nextMidnightNs, CalendarDay.nanosecondsPerDay]
      omega
    rw [partitions.single, List.mem_filter] at selected
    exact (of_decide_eq_true selected.2).2.ne midnight
  · intro apart
    have single (day : CalendarDay) : selectedBetween tapeReady index day day =
        (sortByKey Episode.startUtcNs index).filter fun episode =>
          day.Contains episode.startUtcNs := by
      rw [between]
      refine List.filter_congr fun episode member => ?_
      have other := apart episode (mem_sortByKey.mp member) day
      exact decide_eq_decide.mpr (and_congr_right fun _ => ⟨fun le => lt_of_le_of_ne le other, le_of_lt⟩)
    have mem_single {day : CalendarDay} {episode : Episode} :
        episode ∈ selectedBetween tapeReady index day day ↔
          episode ∈ index ∧ day.Contains episode.startUtcNs := by
      rw [single, List.mem_filter, mem_sortByKey, decide_eq_true_iff]
    refine ⟨single, ?_, ?_, ?_⟩
    · rintro episode member ⟨day, inside⟩
      exact ⟨day, mem_single.mpr ⟨member, inside⟩,
        fun other selected => (mem_single.mp selected).2.eq inside⟩
    · intro first second different episode one two
      exact different ((mem_single.mp one).2.eq (mem_single.mp two).2)
    · intro first last ordered
      rw [between]
      refine List.filter_congr fun episode member => ?_
      have member := mem_sortByKey.mp member
      refine decide_eq_decide.mpr ⟨?_, ?_⟩
      · rintro ⟨started, ends⟩
        obtain ⟨day, low, high, inside⟩ := CalendarDay.exists_contains started
          (lt_of_le_of_ne ends (apart episode member last))
        exact ⟨day, low, high, mem_single.mpr ⟨member, inside⟩⟩
      · rintro ⟨day, low, high, selected⟩
        obtain ⟨start, finish⟩ := (mem_single.mp selected).2
        simp only [CalendarDay.nextMidnightNs, CalendarDay.startNs,
          CalendarDay.nanosecondsPerDay] at start finish ⊢
        omega

end

/-! ## A market at midnight -/

/-- An eligible market with a given start. -/
def quarterHour (startUtcNs : ℤ) : Episode where
  conditionId := "condition"
  marketSlug := "btc-updown-15m"
  startUtcNs := startUtcNs
  endUtcNs := startUtcNs + 900000000000
  upTokenId := "up"
  downTokenId := "down"
  tickSizeScaled := 10000
  minimumOrderSizeScaled := 5000000
  winnerTokenId := some "up"
  winnerOutcome := some "UP"
  eligible := true
  exclusionReason := none
  feeRate := none
  feeExponent := none
  takerOrderDelayMs := none

/-- The first of August 2026. -/
def firstOfAugust : CalendarDay where
  ordinal := 739829

theorem partitions_days_afternoon :
    PartitionsDays (fun _ => true) [quarterHour (firstOfAugust.startNs + 43200000000000)] := by
  refine (partitions_days_iff (by decide) (by decide)).mpr ?_
  intro episode member day
  obtain rfl := List.mem_singleton.mp member
  simp only [quarterHour, CalendarDay.nextMidnightNs, CalendarDay.startNs,
    CalendarDay.nanosecondsPerDay]
  omega

/-- The first market of the second of August is also selected by the first. -/
theorem midnight_selected_twice :
    ¬ PartitionsDays (fun _ => true) [quarterHour firstOfAugust.nextMidnightNs] := by
  intro partitions
  have single := partitions.single firstOfAugust
  rw [selectedBetween_eq (by decide) (by decide)] at single
  exact absurd single (by decide)

end PolymarketBt
