import PolymarketBt.Model.ConnectionLog

/-! # When a connection gap ends

A disconnect is closed before the next one or not at all. So a market that opens after the recovery
counts no gap when each earlier disconnect was closed in this way, and an outage that reaches into
the window is counted unless a new connection was logged before the market start.
-/

namespace PolymarketBt

open ConnectionEvent

variable {events before after : List ConnectionEvent} {event : ConnectionEvent}
  {market : MarketWindow}

theorem mem_connectionGaps {gap : ConnectionGap} :
    gap ∈ connectionGaps events ↔ ∃ before event after, events = before ++ event :: after ∧
      event.isDisconnect = true ∧ event.subscribed = true ∧ gap = gapOf event after := by
  induction events with
  | nil => simp [connectionGaps]
  | cons first rest ih =>
    have later : gap ∈ connectionGaps rest ↔ ∃ before event after,
        first :: rest = (first :: before) ++ event :: after ∧ event.isDisconnect = true ∧
          event.subscribed = true ∧ gap = gapOf event after := by
      simpa using ih
    rw [connectionGaps]
    constructor
    · intro member
      split at member
      · next opens =>
        rw [Bool.and_eq_true] at opens
        rcases List.mem_cons.mp member with same | member
        · exact ⟨[], first, rest, rfl, opens.1, opens.2, same⟩
        · obtain ⟨before, found⟩ := later.mp member
          exact ⟨first :: before, found⟩
      · obtain ⟨before, found⟩ := later.mp member
        exact ⟨first :: before, found⟩
    · rintro ⟨before, event, after, split, disconnect, subscribed, same⟩
      cases before with
      | nil =>
        obtain ⟨rfl, rfl⟩ := List.cons.inj split
        rw [if_pos (by rw [disconnect, subscribed]; rfl), same]
        exact List.mem_cons_self
      | cons head before =>
        obtain ⟨rfl, rfl⟩ := List.cons.inj split
        have member := later.mpr ⟨before, event, after, rfl, disconnect, subscribed, same⟩
        split
        · exact List.mem_cons_of_mem _ member
        · exact member

theorem connectionGapCount_eq_zero_iff :
    connectionGapCount events market = 0 ↔
      ∀ gap ∈ connectionGaps events, gap.overlaps market = false := by
  rw [connectionGapCount, List.countP_eq_zero]
  simp

/-- A gap that starts by the market end and does not end before the start is counted. -/
theorem connectionGapCount_pos (disconnect : event.isDisconnect = true)
    (subscribed : event.subscribed = true) (opens : event.eventUtcNs ≤ market.marketEndUtcNs)
    (closes : ∀ gapEnd, (gapOf event after).gapEnd = some gapEnd → market.marketStartUtcNs ≤ gapEnd) :
    0 < connectionGapCount (before ++ event :: after) market := by
  rw [connectionGapCount, List.countP_pos_iff]
  refine ⟨gapOf event after, mem_connectionGaps.mpr
    ⟨before, event, after, rfl, disconnect, subscribed, rfl⟩, ?_⟩
  have opens : (gapOf event after).gapStart ≤ market.marketEndUtcNs := opens
  simp only [ConnectionGap.overlaps, Bool.and_eq_true, decide_eq_true_eq, opens, true_and]
  cases closing : (gapOf event after).gapEnd with
  | none => rfl
  | some gapEnd => simpa using closes gapEnd closing

/-- What closes a gap is a row before the next disconnect. -/
theorem exists_of_gapEnd {gapEnd : ℤ} (closing : (gapOf event after).gapEnd = some gapEnd) :
    ∃ row ∈ beforeNextDisconnect after, row.eventUtcNs = gapEnd ∧
      (row.isRecovered = true ∨ row.isFallback = true) := by
  have cases := Option.or_eq_some_iff.mp closing
  simp only [recoveredNs, fallbackNs, Option.map_eq_some_iff] at cases
  rcases cases with ⟨row, found, same⟩ | ⟨-, row, found, same⟩
  · exact ⟨row, List.mem_of_find?_eq_some found, same, .inl (List.find?_some found)⟩
  · exact ⟨row, List.mem_of_find?_eq_some found, same, .inr (List.find?_some found)⟩

/-- A gap is closed as soon as one such row is there. -/
theorem gapEnd_isSome {row : ConnectionEvent} (member : row ∈ beforeNextDisconnect after)
    (closing : row.isRecovered = true ∨ row.isFallback = true) :
    (gapOf event after).gapEnd.isSome := by
  simp only [gapOf, recoveredNs, fallbackNs, Option.isSome_or, Option.isSome_map,
    List.find?_isSome, Bool.or_eq_true]
  exact closing.imp (fun recovered => ⟨row, member, recovered⟩) fun fallback => ⟨row, member, fallback⟩

/-- The first recovery after a disconnect closes it when it comes before the next one. -/
theorem recoveredNs_of_find {row : ConnectionEvent}
    (found : (beforeNextDisconnect after).find? isRecovered = some row) :
    after.find? isRecovered = some row ∧ (gapOf event after).gapEnd = some row.eventUtcNs := by
  constructor
  · have split := List.takeWhile_append_dropWhile (p := fun row => !isDisconnect row) (l := after)
    rw [← split, List.find?_append]
    exact Option.or_eq_some_iff.mpr (.inl found)
  · simp [gapOf, recoveredNs, found]

/-- A disconnect in between leaves the rows up to it. -/
theorem beforeNextDisconnect_append {later : List ConnectionEvent}
    (disconnect : event.isDisconnect = true) :
    beforeNextDisconnect (before ++ event :: later) = beforeNextDisconnect before := by
  induction before with
  | nil => simp [beforeNextDisconnect, disconnect]
  | cons first rest ih =>
    simp only [beforeNextDisconnect] at ih
    simp only [beforeNextDisconnect, List.cons_append, List.takeWhile_cons, ih]

/-! ## The dictionary of counts -/

private theorem foldl_counts_of_notMem {markets : List MarketWindow} {counts : String → ℕ}
    {conditionId : String} (absent : conditionId ∉ markets.map MarketWindow.conditionId) :
    (markets.foldl (fun counts market =>
      if connectionGapCount events market ≠ 0 then
        Function.update counts market.conditionId (connectionGapCount events market)
      else counts) counts) conditionId = counts conditionId := by
  induction markets generalizing counts with
  | nil => rfl
  | cons first rest ih =>
    obtain ⟨other, absent⟩ := not_or.mp (List.mem_cons.not.mp absent)
    rw [List.foldl_cons, ih absent]
    split
    · exact Function.update_of_ne other _ _
    · rfl

/-- The entry of a market is its count when no other market has its condition. -/
theorem connectionGapCounts_eq {markets : List MarketWindow}
    (distinct : (markets.map MarketWindow.conditionId).Nodup) (member : market ∈ markets) :
    connectionGapCounts events markets market.conditionId = connectionGapCount events market := by
  suffices general : ∀ counts : String → ℕ, counts market.conditionId = 0 →
      (markets.foldl (fun counts market =>
        if connectionGapCount events market ≠ 0 then
          Function.update counts market.conditionId (connectionGapCount events market)
        else counts) counts) market.conditionId = connectionGapCount events market from
    general _ rfl
  induction markets with
  | nil => simp at member
  | cons first rest ih =>
    intro counts unset
    obtain ⟨unique, distinct⟩ := List.nodup_cons.mp distinct
    rw [List.foldl_cons]
    rcases List.mem_cons.mp member with rfl | member
    · rw [foldl_counts_of_notMem unique]
      split
      · exact Function.update_self ..
      · next none => rw [unset, not_not.mp none]
    · refine ih distinct member _ ?_
      have other : market.conditionId ≠ first.conditionId := fun same =>
        unique (same ▸ List.mem_map_of_mem member)
      split
      · rw [Function.update_of_ne other, unset]
      · exact unset

/-! ## Recovered and unrecovered markets -/

/-- In an ordered log, a row earlier than every later disconnect comes before the next one. -/
theorem mem_beforeNextDisconnect {row : ConnectionEvent}
    (ordered : after.Pairwise fun first second => first.eventUtcNs ≤ second.eventUtcNs)
    (member : row ∈ after)
    (earlier : ∀ later ∈ after, later.isDisconnect = true → row.eventUtcNs < later.eventUtcNs) :
    row ∈ beforeNextDisconnect after := by
  induction after with
  | nil => simp at member
  | cons first rest ih =>
    obtain ⟨least, ordered⟩ := List.pairwise_cons.mp ordered
    have connected : first.isDisconnect = false := by
      refine Bool.eq_false_iff.mpr fun disconnect => ?_
      have before := earlier first List.mem_cons_self disconnect
      rcases List.mem_cons.mp member with rfl | member
      · omega
      · have after := least row member
        omega
    rw [beforeNextDisconnect, List.takeWhile_cons, if_pos (by rw [connected]; rfl)]
    rcases List.mem_cons.mp member with rfl | member
    · exact List.mem_cons_self
    · exact List.mem_cons_of_mem _
        (ih ordered member fun later inRest => earlier later (List.mem_cons_of_mem _ inRest))

/-- A recovery before the next disconnect closes the gap by its own instant. -/
theorem gapEnd_le_of_recovered {row : ConnectionEvent}
    (ordered : after.Pairwise fun first second => first.eventUtcNs ≤ second.eventUtcNs)
    (member : row ∈ beforeNextDisconnect after) (recovered : row.isRecovered = true) :
    ∃ gapEnd, (gapOf event after).gapEnd = some gapEnd ∧ gapEnd ≤ row.eventUtcNs := by
  obtain ⟨first, found⟩ := Option.isSome_iff_exists.mp
    (List.find?_isSome.mpr ⟨row, member, recovered⟩)
  refine ⟨first.eventUtcNs, (recoveredNs_of_find found).2, ?_⟩
  obtain ⟨-, earlier, later, split, unrecovered⟩ := List.find?_eq_some_iff_append.mp found
  have ordered : (beforeNextDisconnect after).Pairwise
      fun first second => first.eventUtcNs ≤ second.eventUtcNs :=
    ordered.sublist (List.takeWhile_sublist _)
  rw [split] at ordered member
  rcases List.mem_append.mp member with inEarlier | inLater
  · have contradiction := unrecovered row inEarlier
    simp [recovered] at contradiction
  · rcases List.mem_cons.mp inLater with rfl | inLater
    · exact le_rfl
    · exact (List.pairwise_cons.mp (List.pairwise_append.mp ordered).2.1).1 row inLater

/-- Two rows of one log are the same or one comes after the other. -/
theorem split_cases {earlier rest : List ConnectionEvent} {lost : ConnectionEvent}
    (split : before ++ event :: after = earlier ++ lost :: rest) :
    (∃ between, before = earlier ++ lost :: between ∧ rest = between ++ event :: after) ∨
      (event = lost ∧ after = rest) ∨ ∃ between, after = between ++ lost :: rest := by
  rcases List.append_eq_append_iff.mp split with ⟨between, -, split⟩ | ⟨between, beforeSplit, split⟩
  · cases between with
    | nil => exact .inr (.inl (List.cons.inj split))
    | cons head between => exact .inr (.inr ⟨between, (List.cons.inj split).2⟩)
  · cases between with
    | nil => exact .inr (.inl (List.cons.inj split.symm))
    | cons head between =>
      obtain ⟨rfl, rfl⟩ := List.cons.inj split
      exact .inl ⟨between, beforeSplit, rfl⟩

/-- Nothing is counted once the last disconnect has been recovered from and the others closed. -/
theorem connectionGapCount_eq_zero (ordered : (before ++ event :: after).Pairwise
      fun first second => first.eventUtcNs ≤ second.eventUtcNs)
    (disconnect : event.isDisconnect = true)
    (last : ∀ later ∈ after, later.isDisconnect = true → market.marketEndUtcNs < later.eventUtcNs)
    (recovered : ∃ row ∈ after, row.isRecovered = true ∧
      row.eventUtcNs < market.marketStartUtcNs)
    (closed : ∀ earlier lost rest, before = earlier ++ lost :: rest → lost.isDisconnect = true →
      lost.subscribed = true →
      ∃ row ∈ beforeNextDisconnect rest, row.isRecovered = true ∨ row.isFallback = true) :
    connectionGapCount (before ++ event :: after) market = 0 := by
  obtain ⟨recovery, inAfter, recovers, early⟩ := recovered
  obtain ⟨-, orderedFrom, acrossOrdered⟩ := List.pairwise_append.mp ordered
  have orderedAfter := (List.pairwise_cons.mp orderedFrom).2
  have window := market.start_le_end
  -- A gap that closes by the recovery closes before the market starts.
  have misses : ∀ (lost : ConnectionEvent) (rest : List ConnectionEvent) (gapEnd : ℤ),
      (gapOf lost rest).gapEnd = some gapEnd → gapEnd ≤ recovery.eventUtcNs →
      (gapOf lost rest).overlaps market = false := by
    intro lost rest gapEnd closing bounded
    have missed : ¬ market.marketStartUtcNs ≤ gapEnd := by omega
    simp [ConnectionGap.overlaps, closing, missed]
  rw [connectionGapCount_eq_zero_iff]
  intro gap member
  obtain ⟨earlier, lost, rest, split, lostConnection, subscribed, rfl⟩ := mem_connectionGaps.mp member
  rcases split_cases split with ⟨between, beforeSplit, rfl⟩ | ⟨rfl, rfl⟩ | ⟨between, rfl⟩
  · -- An earlier disconnect, closed before the next one and so before the recovery.
    have sameRows : beforeNextDisconnect (between ++ event :: after) =
      beforeNextDisconnect between := beforeNextDisconnect_append disconnect
    obtain ⟨row, inRows, closing⟩ := closed earlier lost between beforeSplit lostConnection subscribed
    have closes : (gapOf lost (between ++ event :: after)).gapEnd.isSome :=
      gapEnd_isSome (sameRows.symm ▸ inRows) closing
    obtain ⟨gapEnd, closing⟩ := Option.isSome_iff_exists.mp closes
    obtain ⟨row, inRows, rfl, -⟩ := exists_of_gapEnd closing
    rw [sameRows] at inRows
    have inBetween : row ∈ between := (List.takeWhile_sublist _).subset inRows
    have inBefore : row ∈ before := by simp [beforeSplit, inBetween]
    exact misses _ _ _ closing (acrossOrdered row inBefore recovery (List.mem_cons_of_mem _ inAfter))
  · -- The last disconnect itself.
    have inSegment := mem_beforeNextDisconnect orderedAfter inAfter fun later inLater lostLater => by
      have beyond := last later inLater lostLater
      omega
    obtain ⟨gapEnd, closing, bounded⟩ := gapEnd_le_of_recovered orderedAfter inSegment recovers
    exact misses _ _ gapEnd closing bounded
  · -- A disconnect after the market end.
    have late : ¬ (gapOf lost rest).gapStart ≤ market.marketEndUtcNs :=
      not_le.mpr (last lost (by simp) lostConnection)
    simp [ConnectionGap.overlaps, late]

/-- An outage that reaches into the window is counted unless a new connection closed it before. -/
theorem connectionGapCount_pos_of_outage (disconnect : event.isDisconnect = true)
    (subscribed : event.subscribed = true) (opens : event.eventUtcNs ≤ market.marketEndUtcNs)
    (unrecovered : ∀ row, after.find? isRecovered = some row →
      market.marketStartUtcNs ≤ row.eventUtcNs)
    (unconnected : ∀ row, (beforeNextDisconnect after).find? isRecovered = none →
      (beforeNextDisconnect after).find? isFallback = some row →
      market.marketStartUtcNs ≤ row.eventUtcNs) :
    0 < connectionGapCount (before ++ event :: after) market := by
  refine connectionGapCount_pos disconnect subscribed opens fun gapEnd closing => ?_
  cases found : (beforeNextDisconnect after).find? isRecovered with
  | some row =>
    obtain ⟨first, same⟩ := recoveredNs_of_find found
    obtain rfl := Option.some.inj (same.symm.trans closing)
    exact unrecovered row first
  | none =>
    simp only [gapOf, recoveredNs, found, Option.map_none, Option.none_or, fallbackNs,
      Option.map_eq_some_iff] at closing
    obtain ⟨row, connected, rfl⟩ := closing
    exact unconnected row found connected

/-! ## The count of an ordered log -/

theorem connectionGapCount_recovered (market : MarketWindow)
    (ordered : events.Pairwise fun first second => first.eventUtcNs ≤ second.eventUtcNs) :
    (∀ before event after, events = before ++ event :: after → event.isDisconnect = true →
      event.eventUtcNs ≤ market.marketEndUtcNs →
      (∀ later ∈ after, later.isDisconnect = true → market.marketEndUtcNs < later.eventUtcNs) →
      (∃ row ∈ after, row.isRecovered = true ∧ row.eventUtcNs < market.marketStartUtcNs) →
      (∀ earlier lost rest, before = earlier ++ lost :: rest → lost.isDisconnect = true →
        lost.subscribed = true →
        ∃ row ∈ beforeNextDisconnect rest, row.isRecovered = true ∨ row.isFallback = true) →
      connectionGapCount events market = 0) ∧
    ∀ before event after, events = before ++ event :: after → event.isDisconnect = true →
      event.subscribed = true → event.eventUtcNs ≤ market.marketEndUtcNs →
      (∀ row, after.find? isRecovered = some row → market.marketStartUtcNs ≤ row.eventUtcNs) →
      (∀ row, (beforeNextDisconnect after).find? isRecovered = none →
        (beforeNextDisconnect after).find? isFallback = some row →
        market.marketStartUtcNs ≤ row.eventUtcNs) →
      0 < connectionGapCount events market := by
  constructor
  · rintro before event after rfl disconnect - last recovered closed
    exact connectionGapCount_eq_zero ordered disconnect last recovered closed
  · rintro before event after rfl disconnect subscribed opens unrecovered unconnected
    exact connectionGapCount_pos_of_outage disconnect subscribed opens unrecovered unconnected

def exampleEvent (eventType : ConnectionEventType) (eventUtcNs : ℤ) : ConnectionEvent :=
  ⟨eventType, eventUtcNs, some 2⟩

theorem connectionGapCount_recovered_closed :
    connectionGapCount [exampleEvent .disconnectDetected 10, exampleEvent .connected 20,
      exampleEvent .disconnectDetected 30, exampleEvent .snapshotRecoveryCompleted 40]
      ⟨"market", 50, 60, by decide⟩ = 0 :=
  (connectionGapCount_recovered _ (by decide)).1
    [exampleEvent .disconnectDetected 10, exampleEvent .connected 20] _ _ rfl rfl (by decide)
    (by decide) ⟨exampleEvent .snapshotRecoveryCompleted 40, by decide, by decide, by decide⟩
    fun earlier lost rest split => by
      cases earlier with
      | nil =>
        obtain ⟨rfl, rfl⟩ := List.cons.inj split
        exact fun _ _ => ⟨_, List.mem_cons_self, .inr rfl⟩
      | cons head earlier =>
        obtain ⟨-, split⟩ := List.cons.inj split
        cases earlier with
        | nil =>
          obtain ⟨rfl, rfl⟩ := List.cons.inj split
          exact fun lost => absurd lost (by decide)
        | cons head earlier => simp at split

/-- An outage that is never recovered from reaches into the window, but the new connection closed it. -/
theorem reconnected_outage_not_counted :
    let events := [exampleEvent .disconnectDetected 10, exampleEvent .connected 20]
    let market : MarketWindow := ⟨"market", 30, 40, by decide⟩
    events.Pairwise (fun first second => first.eventUtcNs ≤ second.eventUtcNs) ∧
      (exampleEvent .disconnectDetected 10).subscribed = true ∧
      (exampleEvent .disconnectDetected 10).eventUtcNs ≤ market.marketEndUtcNs ∧
      [exampleEvent .connected 20].find? isRecovered = none ∧
      connectionGapCount events market = 0 := by
  decide

end PolymarketBt
