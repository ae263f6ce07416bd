import PolymarketBt.Proofs.FastSim.Aligned

/-! # Entries of replays that share their past

An immediate entry that arrives by the instant is one order. A parent is worked on its own clock,
which runs ahead of the rows: both replays decide its children on the same instants and in the same
states as long as these arrive by the instant, and what they decide later arrives later.
-/

namespace PolymarketBt

open Machine

/-! ## The clock of a parent -/

theorem mem_clockTicks {decisionNs deadlineNs now : ℤ}
    (member : now ∈ Replay.clockTicks decisionNs deadlineNs) : now < deadlineNs := by
  obtain ⟨tick, inRange, rfl⟩ := List.mem_map.mp member
  have bound : (tick : ℤ) + 1 ≤ (deadlineNs - decisionNs - 1) / Replay.decisionIntervalNs := by
    have := List.mem_range.mp inRange
    omega
  have scaled := Int.mul_le_of_le_ediv (by decide) bound
  rw [mul_comm] at scaled
  omega

theorem mem_between {column : List ℤ} (sorted : column.Pairwise (· ≤ ·)) {firstNs lastNs : ℤ}
    (ahead : firstNs ≤ lastNs) {now : ℤ} :
    now ∈ Replay.between column firstNs lastNs ↔ now ∈ column ∧ firstNs ≤ now ∧ now ≤ lastNs := by
  have mapped : (column.map fun stamp : ℤ => stamp).Pairwise (· ≤ ·) := by simpa using sorted
  have filtered := List.drop_take_bisectLeft (fun stamp : ℤ => stamp) mapped ahead
  simp only [List.map_id'] at filtered
  rw [Replay.between, filtered, List.mem_filter, decide_eq_true_eq]

theorem mem_tradesBetween {trades : List TradePrint} (sorted : (tradeStamps trades).Pairwise (· ≤ ·))
    {tokenIndex : TokenIndex} {firstNs lastNs : ℤ} (ahead : firstNs ≤ lastNs) {now : ℤ} :
    now ∈ Replay.tradesBetween trades tokenIndex firstNs lastNs ↔
      ∃ trade ∈ trades, trade.tokenIndex = tokenIndex ∧ trade.receivedUtcNs = now ∧
        firstNs ≤ now ∧ now ≤ lastNs := by
  have filtered := List.drop_take_bisectLeft TradePrint.receivedUtcNs sorted ahead
  rw [Replay.tradesBetween, tradeStamps, filtered]
  simp only [List.mem_map, List.mem_filter, decide_eq_true_eq]
  constructor
  · rintro ⟨trade, ⟨⟨member, window⟩, own⟩, rfl⟩
    exact ⟨trade, member, own, rfl, window⟩
  · rintro ⟨trade, member, own, rfl, window⟩
    exact ⟨trade, ⟨⟨member, window⟩, own⟩, rfl⟩

namespace Replay

section Instants

variable {replay : Replay} (tokenIndex : TokenIndex) (decisionNs deadlineNs : ℤ)

theorem decisionInstants_sorted :
    (replay.decisionInstants tokenIndex decisionNs deadlineNs).Pairwise (· ≤ ·) :=
  List.pairwise_insertionSort _ _

theorem decisionInstants_nodup : (replay.decisionInstants tokenIndex decisionNs deadlineNs).Nodup :=
  (List.perm_insertionSort _ _).nodup_iff.mpr (List.nodup_dedup _)

/-- The clock up to an instant, followed by what it ticks later. -/
theorem decisionInstants_split (replay : Replay) (latest : ℤ) :
    ∃ later, replay.decisionInstants tokenIndex decisionNs deadlineNs =
        (replay.decisionInstants tokenIndex decisionNs deadlineNs).filter (· ≤ latest) ++ later ∧
      ∀ now ∈ later, latest < now := by
  have sorted := @decisionInstants_sorted replay tokenIndex decisionNs deadlineNs
  rw [← List.map_id' (replay.decisionInstants tokenIndex decisionNs deadlineNs)] at sorted
  refine ⟨_, List.filter_append_filter_not (fun now : ℤ => now) sorted latest, fun now member => ?_⟩
  simpa using (List.mem_filter.mp member).2

variable {tokenIndex decisionNs deadlineNs}

theorem mem_decisionInstants (ordered : replay.tape.Ordered) (trades : replay.tape.TradesOrdered)
    (ahead : decisionNs ≤ deadlineNs) {now : ℤ} :
    now ∈ replay.decisionInstants tokenIndex decisionNs deadlineNs ↔
      now = decisionNs ∨ now = deadlineNs ∨ now ∈ clockTicks decisionNs deadlineNs ∨
        ((∃ entry ∈ tokenRows replay.tape tokenIndex, entry.1.receivedUtcNs = now) ∨
          ∃ trade ∈ replay.tape.trades, trade.tokenIndex = tokenIndex ∧ trade.receivedUtcNs = now) ∧
        decisionNs ≤ now ∧ now ≤ deadlineNs := by
  simp only [decisionInstants, List.mem_insertionSort, List.mem_dedup, List.mem_append,
    List.mem_cons, List.not_mem_nil, or_false, mem_tradesBetween trades ahead, rowsOf,
    mem_between (stamps_sorted ordered tokenIndex) ahead]
  simp only [stamps, List.mem_map]
  constructor
  · rintro ((((rfl | rfl) | tick) | ⟨⟨entry, member, rfl⟩, window⟩) |
      ⟨trade, member, own, rfl, window⟩)
    · exact .inl rfl
    · exact .inr (.inl rfl)
    · exact .inr (.inr (.inl tick))
    · exact .inr (.inr (.inr ⟨.inl ⟨entry, member, rfl⟩, window⟩))
    · exact .inr (.inr (.inr ⟨.inr ⟨trade, member, own, rfl⟩, window⟩))
  · rintro (rfl | rfl | tick | ⟨⟨entry, member, rfl⟩ | ⟨trade, member, own, rfl⟩, window⟩)
    · exact .inl (.inl (.inl (.inl rfl)))
    · exact .inl (.inl (.inl (.inr rfl)))
    · exact .inl (.inl (.inr tick))
    · exact .inl (.inr ⟨⟨entry, member, rfl⟩, window⟩)
    · exact .inr ⟨trade, member, own, rfl, window⟩

theorem decisionInstants_le (ordered : replay.tape.Ordered) (trades : replay.tape.TradesOrdered)
    (ahead : decisionNs ≤ deadlineNs) :
    ∀ now ∈ replay.decisionInstants tokenIndex decisionNs deadlineNs, now ≤ deadlineNs := by
  intro now member
  rcases (mem_decisionInstants ordered trades ahead).mp member with rfl | rfl | tick | ⟨_, _, within⟩
  · exact ahead
  · exact le_rfl
  · exact (mem_clockTicks tick).le
  · exact within

end Instants

namespace Aligned

variable {instant delay : ℤ} {left right : Replay} (aligned : Aligned instant left right)

include aligned

/-- Both clocks tick alike up to the instant. -/
theorem decisionInstants_eq (tokenIndex : TokenIndex) {decisionNs deadlineNs : ℤ}
    (ahead : decisionNs ≤ deadlineNs) {latest : ℤ} (by_ : latest ≤ instant) :
    (left.decisionInstants tokenIndex decisionNs deadlineNs).filter (· ≤ latest) =
      (right.decisionInstants tokenIndex decisionNs deadlineNs).filter (· ≤ latest) := by
  have rows : ∀ now ≤ latest, (∃ entry ∈ tokenRows left.tape tokenIndex, entry.1.receivedUtcNs = now) ↔
      ∃ entry ∈ tokenRows right.tape tokenIndex, entry.1.receivedUtcNs = now := by
    intro now early
    have same := aligned.past.received_eq tokenIndex (early.trans by_)
    constructor
    · rintro ⟨entry, member, rfl⟩
      have kept := List.mem_filter (p := fun other : TapeRow × ℕ =>
        decide (other.1.receivedUtcNs ≤ entry.1.receivedUtcNs)).mpr ⟨member, decide_eq_true le_rfl⟩
      rw [same] at kept
      exact ⟨entry, (List.mem_filter.mp kept).1, rfl⟩
    · rintro ⟨entry, member, rfl⟩
      have kept := List.mem_filter (p := fun other : TapeRow × ℕ =>
        decide (other.1.receivedUtcNs ≤ entry.1.receivedUtcNs)).mpr ⟨member, decide_eq_true le_rfl⟩
      rw [← same] at kept
      exact ⟨entry, (List.mem_filter.mp kept).1, rfl⟩
  have trades : ∀ trade : TradePrint, trade.receivedUtcNs ≤ latest →
      (trade ∈ left.tape.trades ↔ trade ∈ right.tape.trades) := by
    intro trade early
    have kept : decide (trade.receivedUtcNs ≤ instant) = true := decide_eq_true (early.trans by_)
    have same := aligned.past.trades
    constructor
    · intro member
      exact (List.mem_filter.mp (same ▸ List.mem_filter.mpr ⟨member, kept⟩)).1
    · intro member
      exact (List.mem_filter.mp (same.symm ▸ List.mem_filter.mpr ⟨member, kept⟩)).1
  refine List.Perm.eq_of_pairwise (fun _ _ _ _ => le_antisymm)
    ((decisionInstants_sorted ..).filter _) ((decisionInstants_sorted ..).filter _) ?_
  rw [List.perm_ext_iff_of_nodup ((decisionInstants_nodup ..).filter _)
    ((decisionInstants_nodup ..).filter _)]
  intro now
  simp only [List.mem_filter, decide_eq_true_eq]
  refine and_congr_left fun early => ?_
  rw [mem_decisionInstants aligned.past.ordered.1 aligned.past.tradesOrdered.1 ahead,
    mem_decisionInstants aligned.past.ordered.2 aligned.past.tradesOrdered.2 ahead, rows now early]
  have prints : (∃ trade ∈ left.tape.trades, trade.tokenIndex = tokenIndex ∧
        trade.receivedUtcNs = now) ↔
      ∃ trade ∈ right.tape.trades, trade.tokenIndex = tokenIndex ∧ trade.receivedUtcNs = now := by
    constructor
    · rintro ⟨trade, member, own, rfl⟩
      exact ⟨trade, (trades trade early).mp member, own, rfl⟩
    · rintro ⟨trade, member, own, rfl⟩
      exact ⟨trade, (trades trade early).mpr member, own, rfl⟩
  rw [prints]

/-! ## The prints a session observes -/

theorem advance_eq (tokenIndex : TokenIndex) (cursor : CausalVolumeCursor) {now : ℤ}
    (by_ : now ≤ instant) :
    cursor.advance left.tape.trades tokenIndex now =
      cursor.advance right.tape.trades tokenIndex now := by
  have same := (aligned.past.mono by_).trades
  have count : (tradeStamps left.tape.trades).bisectRightFrom cursor.position now =
      (tradeStamps right.tape.trades).bisectRightFrom cursor.position now := by
    have each : ∀ trades : List TradePrint, (tradeStamps trades).countP (fun stamp =>
        decide (stamp ≤ now)) = (trades.filter fun trade => decide (trade.receivedUtcNs ≤ now)).length := by
      intro trades
      rw [tradeStamps, List.countP_map, List.countP_eq_length_filter]
      rfl
    rw [List.bisectRightFrom_eq_max aligned.past.tradesOrdered.1,
      List.bisectRightFrom_eq_max aligned.past.tradesOrdered.2, each, each, same]
  have fresh : (left.tape.trades.take ((tradeStamps left.tape.trades).bisectRightFrom cursor.position
        now)).drop cursor.position =
      (right.tape.trades.take ((tradeStamps right.tape.trades).bisectRightFrom cursor.position
        now)).drop cursor.position := by
    have leftFresh := List.drop_take_bisectRightFrom TradePrint.receivedUtcNs
      aligned.past.tradesOrdered.1 now cursor.position
    have rightFresh := List.drop_take_bisectRightFrom TradePrint.receivedUtcNs
      aligned.past.tradesOrdered.2 now cursor.position
    exact leftFresh.trans ((congrArg (List.drop cursor.position) same).trans rightFresh.symm)
  simp only [CausalVolumeCursor.advance]
  rw [fresh, count]

/-- A session decides alike on either list of prints. -/
theorem decide_eq (session : SequentialExecutionSession) (parent : ParentOrder)
    (own : parent.trades = left.tape.trades) {now : ℤ} (by_ : now ≤ instant)
    (bids asks : List (ℤ × ℤ)) (minimum : ℤ) (reference : Option ℤ) :
    session.decide parent now bids asks minimum reference =
      session.decide { parent with trades := right.tape.trades } now bids asks minimum reference := by
  rw [SequentialExecutionSession.decide, SequentialExecutionSession.decide, own,
    aligned.advance_eq parent.tokenIndex session.volume by_]
  rfl

/-- The session of a parent that starts by the instant opens on the same prints. -/
theorem volume_init_eq {startUtcNs : ℤ} (by_ : startUtcNs ≤ instant)
    {leftVolume rightVolume : CausalVolumeCursor}
    (leftRan : CausalVolumeCursor.init left.tape.trades startUtcNs = .ok leftVolume)
    (rightRan : CausalVolumeCursor.init right.tape.trades startUtcNs = .ok rightVolume) :
    leftVolume = rightVolume := by
  have earlier : ∀ trades : List TradePrint, (tradeStamps trades).countP (fun stamp =>
      decide (stamp < startUtcNs)) = (trades.filter fun trade =>
        decide (trade.receivedUtcNs ≤ instant)).countP fun trade =>
          decide (trade.receivedUtcNs < startUtcNs) := by
    intro trades
    rw [tradeStamps, List.countP_map, List.countP_filter]
    refine List.countP_congr fun trade _ => ?_
    simp only [Function.comp_apply, decide_eq_true_eq, Bool.and_eq_true]
    omega
  obtain ⟨_, _, leftRan⟩ := Except.bind_eq_ok.mp leftRan
  obtain ⟨_, _, leftRan⟩ := Except.bind_eq_ok.mp leftRan
  obtain ⟨_, _, rightRan⟩ := Except.bind_eq_ok.mp rightRan
  obtain ⟨_, _, rightRan⟩ := Except.bind_eq_ok.mp rightRan
  rw [← Except.pure_eq_ok.mp leftRan, ← Except.pure_eq_ok.mp rightRan,
    List.bisectLeft_eq_countP aligned.past.tradesOrdered.1,
    List.bisectLeft_eq_countP aligned.past.tradesOrdered.2, earlier, earlier, aligned.past.trades]

/-! ## One parent in both replays -/

/-- The same parent over the prints of the other tape. -/
def mirror (right : Replay) (entry : ParentEntry) : ParentEntry :=
  { entry with parent := { entry.parent with trades := right.tape.trades } }

theorem workChild_eq (delayed : left.Delays delay) (entry : ParentEntry) (run : ParentRun) {now : ℤ}
    (arrives : now + delay ≤ instant) (action : ExecutionAction) :
    left.workChild entry run now action = right.workChild (mirror right entry) run now action := by
  have arrives' : (childRequest entry run.session run.externallySpent now action).decisionNs + delay ≤
      instant := arrives
  have sent := aligned.send_eq delayed arrives' run.context
  unfold workChild
  rw [sent]
  rfl

/-- A child decided early enough to arrive by the instant is decided alike. -/
theorem decideChild_eq (delayed : left.Delays delay) {entry : ParentEntry}
    (own : entry.parent.trades = left.tape.trades) (run : ParentRun) {now : ℤ} (by_ : now ≤ instant)
    (arrives : now + delay ≤ instant) :
    left.decideChild entry run now = right.decideChild (mirror right entry) run now := by
  have met : rowAt (right.rowsOf (mirror right entry).parent.tokenIndex) now =
      rowAt (tokenRows left.tape entry.parent.tokenIndex) now :=
    (aligned.past.rowAt_eq entry.parent.tokenIndex by_).symm
  simp only [decideChild]
  rw [met, rowsOf]
  cases found : rowAt (tokenRows left.tape entry.parent.tokenIndex) now with
  | none => rfl
  | some met =>
    obtain ⟨row, position⟩ := met
    dsimp only
    rw [aligned.past.tradable_eq _ _ by_, aligned.executor, aligned.past.reconcile_eq by_ found,
      aligned.past.market.minimumOrderSizeScaled, aligned.decide_eq run.session entry.parent own by_]
    change _ = if (right.executor.realism.requireValidBook &&
      !tradable right.tape entry.parent.tokenIndex row now) = true then _ else _
    split
    · rfl
    refine bind_congr fun decided => ?_
    obtain ⟨session, action⟩ := decided
    dsimp only
    split
    · rfl
    · exact aligned.workChild_eq delayed entry _ arrives action

/-- Both replays open a parent that starts by the instant on the same session. -/
theorem openParent_eq {tokenIndex : TokenIndex} {decisionNs reference entryToNs : ℤ}
    {maxSpend : Option ℤ} {cash : CashAvailability} (by_ : decisionNs ≤ instant)
    {leftEntry rightEntry : ParentEntry} {leftSession rightSession : SequentialExecutionSession}
    (leftRan : left.openParent tokenIndex decisionNs reference entryToNs maxSpend cash =
      .ok (leftEntry, leftSession))
    (rightRan : right.openParent tokenIndex decisionNs reference entryToNs maxSpend cash =
      .ok (rightEntry, rightSession)) :
    rightSession = leftSession ∧ rightEntry = mirror right leftEntry ∧
      leftEntry.parent.trades = left.tape.trades ∧
      leftEntry.parent.tokenIndex = tokenIndex ∧ decisionNs ≤ leftEntry.deadlineNs ∧
      leftEntry.deadlineNs = left.executionDeadlineNs decisionNs entryToNs := by
  have target : right.parentTarget maxSpend reference = left.parentTarget maxSpend reference := by
    simp only [parentTarget, aligned.params, aligned.executor]
  have deadline : right.executionDeadlineNs decisionNs entryToNs =
      left.executionDeadlineNs decisionNs entryToNs := by
    simp only [executionDeadlineNs, aligned.params, aligned.past.market.endUtcNs]
  have policy : right.childPolicy = left.childPolicy := by simp only [childPolicy, aligned.params]
  unfold openParent at leftRan rightRan
  rw [target, deadline, policy, ← aligned.params] at rightRan
  obtain ⟨shares, sharesRan, leftRan⟩ := Except.bind_eq_ok.mp leftRan
  obtain ⟨shares', sharesRan', rightRan⟩ := Except.bind_eq_ok.mp rightRan
  obtain rfl := Except.ok.inj (sharesRan.symm.trans sharesRan')
  dsimp only at leftRan rightRan
  obtain ⟨_, ahead, leftRan⟩ := Except.bind_eq_ok.mp leftRan
  obtain ⟨_, _, leftRan⟩ := Except.bind_eq_ok.mp leftRan
  obtain ⟨_, _, leftRan⟩ := Except.bind_eq_ok.mp leftRan
  obtain ⟨volume, volumeRan, leftRan⟩ := Except.bind_eq_ok.mp leftRan
  obtain ⟨opening, openingRan, leftRan⟩ := Except.bind_eq_ok.mp leftRan
  obtain ⟨session, sessionRan, leftRan⟩ := Except.bind_eq_ok.mp leftRan
  obtain ⟨_, _, rightRan⟩ := Except.bind_eq_ok.mp rightRan
  obtain ⟨_, _, rightRan⟩ := Except.bind_eq_ok.mp rightRan
  obtain ⟨_, _, rightRan⟩ := Except.bind_eq_ok.mp rightRan
  obtain ⟨volume', volumeRan', rightRan⟩ := Except.bind_eq_ok.mp rightRan
  obtain ⟨opening', openingRan', rightRan⟩ := Except.bind_eq_ok.mp rightRan
  obtain ⟨session', sessionRan', rightRan⟩ := Except.bind_eq_ok.mp rightRan
  obtain rfl := aligned.volume_init_eq by_ volumeRan volumeRan'
  obtain rfl := Except.ok.inj (openingRan.symm.trans openingRan')
  obtain rfl := Except.ok.inj (sessionRan.symm.trans sessionRan')
  obtain ⟨rfl, rfl⟩ := Prod.mk.inj (Except.pure_eq_ok.mp leftRan)
  obtain ⟨rfl, rfl⟩ := Prod.mk.inj (Except.pure_eq_ok.mp rightRan)
  exact ⟨rfl, rfl, rfl, rfl, (require_eq_ok.mp ahead).le, rfl⟩

/-- The children of a run that arrive by the instant. -/
def arrivedBy (instant : ℤ) (outcomes : List ExecutionOutcome) : List ExecutionOutcome :=
  outcomes.filter fun outcome => outcome.arrivalUtcNs ≤ instant

omit aligned in
/-- Nothing decided after the last instant that still arrives in time shows. -/
theorem late_children {replay : Replay} (delayed : replay.Delays delay) (entry : ParentEntry)
    {instants : List ℤ} (after : ∀ now ∈ instants, instant < now + delay) :
    Late (fun run : ParentRun => arrivedBy instant run.outcomes) (replay.decideChild entry) instants := by
  intro run now flow member ran
  have late := after now member
  rcases decideChild_sent delayed ran with same | ⟨outcome, same, _, arrival⟩
  · dsimp only
    rw [same]
  · have hidden : ¬ outcome.arrivalUtcNs ≤ instant := by omega
    dsimp only
    rw [same, arrivedBy, List.filter_append, List.filter_singleton]
    simp [hidden, arrivedBy]

/-- The loops over the children agree on what arrives by the instant, and altogether if the parent
ends early enough. -/
theorem children_arrived (delayed : left.Delays delay) (nonneg : 0 ≤ delay) {tokenIndex : TokenIndex}
    {decisionNs : ℤ} {entry : ParentEntry} (own : entry.parent.trades = left.tape.trades)
    (ahead : decisionNs ≤ entry.deadlineNs) {start leftRun rightRun : ParentRun}
    (leftLoop : forLoop (left.decideChild entry) start
      (left.decisionInstants tokenIndex decisionNs entry.deadlineNs) = .ok leftRun)
    (rightLoop : forLoop (right.decideChild (mirror right entry)) start
      (right.decisionInstants tokenIndex decisionNs entry.deadlineNs) = .ok rightRun) :
    arrivedBy instant leftRun.outcomes = arrivedBy instant rightRun.outcomes ∧
      (entry.deadlineNs + delay ≤ instant → leftRun = rightRun) := by
  have bodies : ∀ run : ParentRun, ∀ now ≤ instant - delay,
      left.decideChild entry run now = right.decideChild (mirror right entry) run now :=
    fun run now early => aligned.decideChild_eq delayed own run (by omega) (by omega)
  have common := aligned.decisionInstants_eq tokenIndex ahead (sub_le_self instant nonneg)
  constructor
  · obtain ⟨leftLater, leftSplit, leftLate⟩ :=
      decisionInstants_split tokenIndex decisionNs entry.deadlineNs left (instant - delay)
    obtain ⟨rightLater, rightSplit, rightLate⟩ :=
      decisionInstants_split tokenIndex decisionNs entry.deadlineNs right (instant - delay)
    rw [leftSplit] at leftLoop
    rw [rightSplit, ← common] at rightLoop
    -- no state is quiet, so the two loops stay in lockstep over all common instants
    have calm : ∀ body items, Calm (fun run : ParentRun => arrivedBy instant run.outcomes)
        (fun _ => False) (body : ParentRun → ℤ → Except PyError (Flow ParentRun)) items :=
      fun _ _ _ _ _ _ impossible => impossible.elim
    refine forLoop_two_runs ?_ (calm _ _) (calm _ _) (late_children delayed entry ?_)
      (late_children (aligned.delays delayed) (mirror right entry) ?_) leftLoop rightLoop
    · intro run now leftFlow rightFlow member leftRan rightRan
      rw [bodies run now (of_decide_eq_true (List.mem_filter.mp member).2), rightRan] at leftRan
      exact .inl (Except.ok.inj leftRan).symm
    · intro now member
      have := leftLate now member
      omega
    · intro now member
      have := rightLate now member
      omega
  · intro ends
    have leftAll : ∀ now ∈ left.decisionInstants tokenIndex decisionNs entry.deadlineNs,
        now ≤ instant - delay := fun now member =>
      (decisionInstants_le aligned.past.ordered.1 aligned.past.tradesOrdered.1 ahead now member).trans
        (by omega)
    have rightAll : ∀ now ∈ right.decisionInstants tokenIndex decisionNs entry.deadlineNs,
        now ≤ instant - delay := fun now member =>
      (decisionInstants_le aligned.past.ordered.2 aligned.past.tradesOrdered.2 ahead now member).trans
        (by omega)
    rw [List.filter_eq_self.mpr fun now member => decide_eq_true (leftAll now member),
      List.filter_eq_self.mpr fun now member => decide_eq_true (rightAll now member)] at common
    rw [← common, ← forLoop_congr fun run now member => bodies run now (leftAll now member), leftLoop]
      at rightLoop
    exact Except.ok.inj rightLoop

/-- A parent of both replays sends the same children by the instant, and is the same altogether if it
ends early enough. -/
theorem sequentialEntry_arrived (delayed : left.Delays delay) (nonneg : 0 ≤ delay)
    {tokenIndex : TokenIndex} {decisionNs reference entryToNs : ℤ} {maxSpend : Option ℤ}
    {cash : CashAvailability} (arrives : decisionNs + delay ≤ instant) {context : SimContext}
    {leftResult rightResult : List ExecutionOutcome × ExecutionObjectiveResult × SimContext}
    (leftRan : left.sequentialEntry tokenIndex decisionNs reference entryToNs maxSpend cash context =
      .ok leftResult)
    (rightRan : right.sequentialEntry tokenIndex decisionNs reference entryToNs maxSpend cash context =
      .ok rightResult) :
    arrivedBy instant leftResult.1 = arrivedBy instant rightResult.1 ∧
      (left.executionDeadlineNs decisionNs entryToNs + delay ≤ instant → leftResult = rightResult) := by
  obtain ⟨⟨leftEntry, leftSession⟩, leftOpened, leftRan⟩ := Except.bind_eq_ok.mp leftRan
  obtain ⟨⟨rightEntry, rightSession⟩, rightOpened, rightRan⟩ := Except.bind_eq_ok.mp rightRan
  obtain ⟨rfl, rfl, own, token, ahead, deadline⟩ :=
    aligned.openParent_eq (by omega) leftOpened rightOpened
  obtain ⟨leftRun, leftLoop, leftRan⟩ := Except.bind_eq_ok.mp leftRan
  obtain ⟨rightRun, rightLoop, rightRan⟩ := Except.bind_eq_ok.mp rightRan
  obtain ⟨leftObjective, leftScored, leftRan⟩ := Except.bind_eq_ok.mp leftRan
  obtain ⟨rightObjective, rightScored, rightRan⟩ := Except.bind_eq_ok.mp rightRan
  obtain rfl := Except.pure_eq_ok.mp leftRan
  obtain rfl := Except.pure_eq_ok.mp rightRan
  obtain ⟨observed, whole⟩ := aligned.children_arrived delayed nonneg own ahead leftLoop rightLoop
  refine ⟨observed, fun ends => ?_⟩
  rw [← deadline] at ends
  obtain rfl := whole ends
  have mark : right.deadlineMark (mirror right leftEntry) = left.deadlineMark leftEntry := by
    have reached : leftEntry.deadlineNs ≤ instant := by omega
    have met := aligned.past.rowAt_eq leftEntry.parent.tokenIndex reached
    unfold deadlineMark
    rw [rowsOf, rowsOf, met]
    rfl
  rw [mark] at rightScored
  obtain rfl := Except.ok.inj (leftScored.symm.trans rightScored)
  rfl

end Aligned

end Replay

end PolymarketBt
