import PolymarketBt.Proofs.FastSim.AlignedEntry
import PolymarketBt.Soundness.EpisodeLedger

/-! # No look-ahead in the tape simulator

Under a constant delay the orders that arrive by an instant depend on nothing received after it. The
two runs visit the same rows in the same states until a parent is worked past the last row whose
orders still arrive in time; what either run sends from there on arrives too late to be compared.
-/

namespace PolymarketBt

open Machine

namespace Replay

/-! ## The settled winner is carried along -/

/-- A state of a run over an episode that settled otherwise. -/
def withWinner (winner : Option String) (state : RunState) : RunState :=
  { state with result := { state.result with winnerOutcome := winner } }

variable {replay : Replay} {cash : CashAvailability} {winner : Option String}

theorem bookExit_withWinner (state : RunState) (sent : SentOrder) :
    bookExit (withWinner winner state) sent = withWinner winner (bookExit state sent) := by
  unfold bookExit
  dsimp only
  split <;> rfl

/-- The state in which a watched row is examined. -/
def watched (state : RunState) (row : TapeRow) : RunState :=
  { state with
    peakAdverse :=
      match row.bestBidScaled, state.peakAdverse with
      | none, peak => peak
      | some bid, none => some bid
      | some bid, some peak => some (min peak bid) }

/-- The state a sent exit leaves. -/
def exited (replay : Replay) (state : RunState) (row : TapeRow) (sent : SentOrder)
    (context : SimContext) : RunState :=
  replay.rearm (bookExit { watched state row with context := context, sent := state.sent ++ [sent] } sent)
    sent row.receivedUtcNs

/-- What a watched row leaves, once it is known what it sends. -/
def afterExit (replay : Replay) (state : RunState) (row : TapeRow) :
    Option SentOrder × SimContext → Flow RunState
  | (none, context) => .next { watched state row with context := context }
  | (some sent, context) =>
    if (replay.exited state row sent context).positionShares ≤ 0 then
      .stop (replay.exited state row sent context)
    else .next (replay.exited state row sent context)

theorem exited_withWinner (state : RunState) (row : TapeRow) (sent : SentOrder)
    (context : SimContext) :
    replay.exited (withWinner winner state) row sent context =
      withWinner winner (replay.exited state row sent context) := by
  have booked := @bookExit_withWinner winner
    { watched state row with context := context, sent := state.sent ++ [sent] } sent
  exact congrArg (fun after => replay.rearm after sent row.receivedUtcNs) booked

theorem exitStep_eq_map (state : RunState) (row : TapeRow) :
    replay.exitStep state row =
      (replay.maybeExit (watched state row) row).map (replay.afterExit state row) := by
  change (replay.maybeExit (watched state row) row >>= _) = _
  cases replay.maybeExit (watched state row) row with
  | error e => rfl
  | ok exit =>
    obtain ⟨order, context⟩ := exit
    cases order <;> rfl

theorem exitStep_withWinner (state : RunState) (row : TapeRow) :
    replay.exitStep (withWinner winner state) row =
      (replay.exitStep state row).map (Flow.map (withWinner winner)) := by
  rw [exitStep_eq_map, exitStep_eq_map]
  change (replay.maybeExit (watched state row) row).map _ = _
  cases replay.maybeExit (watched state row) row with
  | error e => rfl
  | ok exit =>
    obtain ⟨order, context⟩ := exit
    cases order with
    | none => rfl
    | some sent =>
      simp only [Except.map, afterExit, exited_withWinner]
      change Except.ok (if (replay.exited state row sent context).positionShares ≤ 0 then _ else _) = _
      split <;> rfl

theorem attemptEntry_withWinner (state : RunState) (row : TapeRow) (ask : ℤ) (spend : Option ℤ)
    (limited : Bool) :
    replay.attemptEntry cash (withWinner winner state) row ask spend limited =
      (replay.attemptEntry cash state row ask spend limited).map
        fun attempt => { attempt with state := withWinner winner attempt.state } := by
  unfold attemptEntry
  split
  · unfold immediateEntry
    cases replay.entrySize ask with
    | error e => rfl
    | ok shares =>
      simp only [Except.ok_bind]
      change (replay.send (replay.entryRequest cash state row ask spend shares) state.context >>= _) = _
      cases replay.send (replay.entryRequest cash state row ask spend shares) state.context with
      | error e => rfl
      | ok sent => rfl
  · unfold sequentialAttempt
    dsimp only
    change (replay.sequentialEntry row.tokenIndex row.receivedUtcNs ask replay.entryToNs spend
      (some (replay.walletAt cash state.entryCashDebited)) state.context >>= _) = _
    cases replay.sequentialEntry row.tokenIndex row.receivedUtcNs ask replay.entryToNs spend
      (some (replay.walletAt cash state.entryCashDebited)) state.context with
    | error e => rfl
    | ok entered => rfl

theorem openPosition_withWinner (attempt : EntryAttempt) (tokenIndex : TokenIndex) :
    replay.openPosition { attempt with state := withWinner winner attempt.state } tokenIndex =
      (replay.openPosition attempt tokenIndex).map (withWinner winner) := by
  unfold openPosition
  dsimp only
  cases replay.tape.episode.tokenOutcome (replay.tape.tokenIdOf tokenIndex) <;> rfl

theorem entryStep_withWinner (state : RunState) (row : TapeRow) :
    replay.entryStep cash (withWinner winner state) row =
      (replay.entryStep cash state row).map (Flow.map (withWinner winner)) := by
  have same : replay.entrySignal (withWinner winner state) row = replay.entrySignal state row := rfl
  unfold entryStep
  rw [same]
  cases replay.entrySignal state row with
  | none => rfl
  | some ask =>
    dsimp only
    change (replay.entrySpend cash state row.receivedUtcNs >>= _) = _
    cases replay.entrySpend cash state row.receivedUtcNs with
    | error e => rfl
    | ok spends =>
      obtain ⟨spend, limited⟩ := spends
      simp only [Except.ok_bind]
      split
      · rfl
      rw [attemptEntry_withWinner]
      cases replay.attemptEntry cash state row ask spend limited with
      | error e => rfl
      | ok attempt =>
        simp only [Except.map, Except.ok_bind]
        split
        · rw [openPosition_withWinner]
          cases replay.openPosition attempt row.tokenIndex <;> rfl
        · rfl

theorem step_withWinner (state : RunState) (row : TapeRow) :
    replay.step cash (withWinner winner state) row =
      (replay.step cash state row).map (Flow.map (withWinner winner)) := by
  unfold step
  split
  · rfl
  change (if watchesExit state row then _ else _) = _
  split
  · exact exitStep_withWinner state row
  · exact entryStep_withWinner state row

/-! ## Falling quiet -/

/-- No row up to the instant can make this state send anything. -/
def Quiet (latest : ℤ) (state : RunState) : Prop :=
  latest < state.nextEntryAllowedNs ∧ (0 < state.positionShares → latest < state.positionEffectiveNs)

/-- The orders of a run that arrive by an instant. -/
def ordersBy (instant : ℤ) (state : RunState) : List SentOrder :=
  state.sent.filter fun order => order.outcome.arrivalUtcNs ≤ instant

theorem step_quiet {latest : ℤ} {state : RunState} {row : TapeRow} {flow : Flow RunState}
    (quiet : Quiet latest state) (early : row.receivedUtcNs ≤ latest)
    (ran : replay.step cash state row = .ok flow) : flow.state = state := by
  unfold step at ran
  split at ran
  · cases ran
    rfl
  split at ran
  · next watches =>
    simp only [watchesExit, Bool.and_eq_true, decide_eq_true_eq] at watches
    have := quiet.2 watches.1.1
    omega
  · have none : replay.entrySignal state row = none := by
      have waits : row.receivedUtcNs < state.nextEntryAllowedNs := by have := quiet.1; omega
      simp [entrySignal, waits]
    rw [entryStep, none] at ran
    cases ran
    rfl

theorem ordersBy_adds {instant : ℤ} {state after : RunState} {arrivalNs : ℤ}
    (adds : Adds state after arrivalNs) (late : instant < arrivalNs) :
    ordersBy instant after = ordersBy instant state := by
  obtain ⟨fresh, same, arrivals⟩ := adds
  have none : fresh.filter (fun order => decide (order.outcome.arrivalUtcNs ≤ instant)) = [] := by
    rw [List.filter_eq_nil_iff]
    intro order member
    have := arrivals order member
    rw [decide_eq_true_eq]
    omega
  rw [ordersBy, same, List.filter_append, none, List.append_nil]
  rfl

/-- A parent that fills nothing blocks the next one past its deadline, and one that fills takes
effect there. -/
theorem sequentialAttempt_after {state : RunState} {row : TapeRow} {ask : ℤ} {spend : Option ℤ}
    {limited : Bool} {attempt : EntryAttempt}
    (ran : replay.sequentialAttempt cash state row ask spend limited = .ok attempt) :
    attempt.state.nextEntryAllowedNs =
        replay.executionDeadlineNs row.receivedUtcNs replay.entryToNs + replay.params.reentryCooldownNs ∧
      attempt.state.positionShares = state.positionShares ∧
      replay.executionDeadlineNs row.receivedUtcNs replay.entryToNs ≤ attempt.effectiveNs := by
  obtain ⟨⟨children, objective, context⟩, _, ran⟩ := Except.bind_eq_ok.mp ran
  obtain rfl := Except.pure_eq_ok.mp ran
  exact ⟨rfl, rfl, le_max_right _ _⟩

/-- Take over the position of an attempt that filled. -/
def finish (replay : Replay) (attempt : EntryAttempt) (row : TapeRow) :
    Except PyError (Flow RunState) :=
  if attempt.outcome.filled then do
    let opened ← replay.openPosition attempt row.tokenIndex
    return .next opened
  else return .next attempt.state

theorem finish_spec {attempt : EntryAttempt} {row : TapeRow} {flow : Flow RunState}
    (ran : replay.finish attempt row = .ok flow) :
    flow.state.sent = attempt.state.sent ∧
      flow.state.nextEntryAllowedNs = attempt.state.nextEntryAllowedNs ∧
      (flow.state.positionEffectiveNs = attempt.effectiveNs ∨
        flow.state.positionShares = attempt.state.positionShares) := by
  unfold finish at ran
  split at ran
  · obtain ⟨opened, openedRan, ran⟩ := Except.bind_eq_ok.mp ran
    obtain rfl := Except.pure_eq_ok.mp ran
    obtain ⟨_, _, openedRan⟩ := Except.bind_eq_ok.mp openedRan
    obtain rfl := Except.pure_eq_ok.mp openedRan
    exact ⟨rfl, rfl, .inl rfl⟩
  · obtain rfl := Except.pure_eq_ok.mp ran
    exact ⟨rfl, rfl, .inr rfl⟩

/-- A flat state is quiet after a parent worked past the instant. -/
theorem finish_quiet (inRange : replay.params.InRange) {state : RunState} {row : TapeRow} {ask : ℤ}
    {spend : Option ℤ} {limited : Bool} {attempt : EntryAttempt} {flow : Flow RunState} {latest : ℤ}
    (flat : state.positionShares ≤ 0)
    (worked : replay.sequentialAttempt cash state row ask spend limited = .ok attempt)
    (past : latest < replay.executionDeadlineNs row.receivedUtcNs replay.entryToNs)
    (ran : replay.finish attempt row = .ok flow) : Quiet latest flow.state := by
  obtain ⟨next, shares, effective⟩ := sequentialAttempt_after worked
  obtain ⟨_, blocked, position⟩ := finish_spec ran
  have := inRange.cooldown_nonneg
  refine ⟨by omega, fun held => ?_⟩
  rcases position with taken | none
  · omega
  · omega

/-! ## Both runs in lockstep -/

namespace Aligned

variable {instant delay : ℤ} {left right : Replay} (aligned : Aligned instant left right)

include aligned

theorem entryToNs_eq : left.entryToNs = right.entryToNs := by
  rw [entryToNs, entryToNs, aligned.params, aligned.past.market.startUtcNs]

theorem walletAt_eq (cash : CashAvailability) (debited : ℤ) :
    left.walletAt cash debited = right.walletAt cash debited := by
  funext timestampNs
  rw [walletAt, walletAt, aligned.params]

theorem executionDeadlineNs_eq (decisionNs entryToNs : ℤ) :
    left.executionDeadlineNs decisionNs entryToNs = right.executionDeadlineNs decisionNs entryToNs := by
  rw [executionDeadlineNs, executionDeadlineNs, aligned.params, aligned.past.market.endUtcNs]

theorem entrySignal_eq (state : RunState) (row : TapeRow) :
    left.entrySignal state row = right.entrySignal state row := by
  have allowed : left.allowed row.tokenIndex = right.allowed row.tokenIndex := by
    rw [allowed, allowed, aligned.params, aligned.past.market.upTokenId,
      aligned.past.market.downTokenId, aligned.past.tokenIndexOf, aligned.past.tokenIndexOf]
  rw [entrySignal, entrySignal, aligned.params, aligned.entryToNs_eq, allowed]

theorem entrySpend_eq (cash : CashAvailability) (state : RunState) (timestamp : ℤ) :
    left.entrySpend cash state timestamp = right.entrySpend cash state timestamp := by
  simp only [entrySpend, aligned.params, aligned.walletAt_eq]

theorem openPosition_eq (attempt : EntryAttempt) (tokenIndex : TokenIndex) :
    left.openPosition attempt tokenIndex = right.openPosition attempt tokenIndex := by
  have outcome : ∀ tokenId, left.tape.episode.tokenOutcome tokenId =
      right.tape.episode.tokenOutcome tokenId := by
    intro tokenId
    rw [Episode.tokenOutcome, Episode.tokenOutcome, aligned.past.market.upTokenId,
      aligned.past.market.downTokenId, aligned.past.market.conditionId]
  rw [openPosition, openPosition, aligned.past.tokenIdOf]
  dsimp only
  rw [outcome]

theorem immediateEntry_eq (delayed : left.Delays delay) (cash : CashAvailability) (state : RunState)
    {row : TapeRow} (arrives : row.receivedUtcNs + delay ≤ instant) (ask : ℤ) (spend : Option ℤ)
    (limited : Bool) :
    left.immediateEntry cash state row ask spend limited =
      right.immediateEntry cash state row ask spend limited := by
  have request : ∀ shares, left.entryRequest cash state row ask spend shares =
      right.entryRequest cash state row ask spend shares := by
    intro shares
    rw [entryRequest, entryRequest, aligned.params, aligned.walletAt_eq]
  have sent : ∀ shares, left.send (right.entryRequest cash state row ask spend shares) state.context =
      right.send (right.entryRequest cash state row ask spend shares) state.context :=
    fun shares => aligned.send_eq delayed arrives state.context
  simp only [immediateEntry, entrySize, aligned.params, request, sent]

theorem sequentialAttempt_arrived (delayed : left.Delays delay) (nonneg : 0 ≤ delay)
    {cash : CashAvailability} {state : RunState} {row : TapeRow}
    (arrives : row.receivedUtcNs + delay ≤ instant) {ask : ℤ} {spend : Option ℤ} {limited : Bool}
    {leftAttempt rightAttempt : EntryAttempt}
    (leftRan : left.sequentialAttempt cash state row ask spend limited = .ok leftAttempt)
    (rightRan : right.sequentialAttempt cash state row ask spend limited = .ok rightAttempt) :
    ordersBy instant leftAttempt.state = ordersBy instant rightAttempt.state ∧
      (left.executionDeadlineNs row.receivedUtcNs left.entryToNs + delay ≤ instant →
        leftAttempt = rightAttempt) := by
  unfold sequentialAttempt at leftRan rightRan
  dsimp only at leftRan rightRan
  rw [← aligned.entryToNs_eq, ← aligned.walletAt_eq, ← aligned.executionDeadlineNs_eq,
    ← aligned.params] at rightRan
  obtain ⟨leftEntered, leftEntry, leftRan⟩ := Except.bind_eq_ok.mp leftRan
  obtain ⟨rightEntered, rightEntry, rightRan⟩ := Except.bind_eq_ok.mp rightRan
  obtain ⟨observed, whole⟩ :=
    aligned.sequentialEntry_arrived delayed nonneg arrives leftEntry rightEntry
  constructor
  · obtain rfl := Except.pure_eq_ok.mp leftRan
    obtain rfl := Except.pure_eq_ok.mp rightRan
    simp only [ordersBy, List.filter_append, List.filter_map]
    exact congrArg (fun children => _ ++ List.map _ children) observed
  · intro ends
    obtain rfl := whole ends
    exact Except.ok.inj (leftRan.symm.trans rightRan)

/-- At a row whose orders still arrive in time both runs do the same, or both fall quiet having sent
the same by the instant. -/
theorem entryStep_lockstep (inRange : left.params.InRange) (delayed : left.Delays delay)
    (nonneg : 0 ≤ delay) {cash : CashAvailability} {state : RunState} {row : TapeRow}
    (early : row.receivedUtcNs ≤ instant - delay) {leftFlow rightFlow : Flow RunState}
    (leftRan : left.entryStep cash state row = .ok leftFlow)
    (rightRan : right.entryStep cash state row = .ok rightFlow) :
    leftFlow = rightFlow ∨ (Quiet (instant - delay) leftFlow.state ∧
      Quiet (instant - delay) rightFlow.state ∧
      ordersBy instant leftFlow.state = ordersBy instant rightFlow.state) := by
  unfold entryStep at leftRan rightRan
  rw [← aligned.entrySignal_eq] at rightRan
  cases signal : left.entrySignal state row with
  | none =>
    rw [signal] at leftRan rightRan
    exact .inl (Except.ok.inj (leftRan.symm.trans rightRan))
  | some ask =>
    rw [signal] at leftRan rightRan
    dsimp only at leftRan rightRan
    rw [← aligned.entrySpend_eq, ← aligned.params, ← aligned.executionDeadlineNs_eq,
      ← aligned.entryToNs_eq] at rightRan
    obtain ⟨⟨spend, limited⟩, spends, leftRan⟩ := Except.bind_eq_ok.mp leftRan
    obtain ⟨_, same, rightRan⟩ := Except.bind_eq_ok.mp rightRan
    obtain rfl := Except.ok.inj (spends.symm.trans same)
    dsimp only at leftRan rightRan
    split at leftRan
    · next expired =>
      rw [if_pos expired] at rightRan
      exact .inl (Except.ok.inj (leftRan.symm.trans rightRan))
    next legal =>
    rw [if_neg legal] at rightRan
    obtain ⟨leftAttempt, leftAttempted, leftRan⟩ := Except.bind_eq_ok.mp leftRan
    obtain ⟨rightAttempt, rightAttempted, rightRan⟩ := Except.bind_eq_ok.mp rightRan
    change left.finish leftAttempt row = .ok leftFlow at leftRan
    change right.finish rightAttempt row = .ok rightFlow at rightRan
    have finished : leftAttempt = rightAttempt → leftFlow = rightFlow := by
      rintro rfl
      rw [finish, ← aligned.openPosition_eq] at rightRan
      exact Except.ok.inj (leftRan.symm.trans rightRan)
    unfold attemptEntry at leftAttempted rightAttempted
    rw [← aligned.params] at rightAttempted
    split at leftAttempted
    · next immediate =>
      rw [if_pos immediate, ← aligned.immediateEntry_eq delayed cash state (by omega)] at rightAttempted
      exact .inl (finished (Except.ok.inj (leftAttempted.symm.trans rightAttempted)))
    · next sequential =>
      rw [if_neg sequential] at rightAttempted
      obtain ⟨observed, whole⟩ :=
        aligned.sequentialAttempt_arrived delayed nonneg (by omega) leftAttempted rightAttempted
      by_cases ends : left.executionDeadlineNs row.receivedUtcNs left.entryToNs + delay ≤ instant
      · exact .inl (finished (whole ends))
      · have flat := (entrySignal_eq_some signal).1
        have inRangeRight := inRange
        rw [aligned.params] at inRangeRight
        refine .inr ⟨finish_quiet inRange flat leftAttempted (by omega) leftRan,
          finish_quiet inRangeRight flat rightAttempted ?_ rightRan, ?_⟩
        · rw [← aligned.executionDeadlineNs_eq, ← aligned.entryToNs_eq]
          omega
        · rw [ordersBy, (finish_spec leftRan).1, ordersBy, (finish_spec rightRan).1]
          exact observed

theorem step_lockstep (inRange : left.params.InRange) (delayed : left.Delays delay)
    (nonneg : 0 ≤ delay) {cash : CashAvailability} {state : RunState} {row : TapeRow}
    (early : row.receivedUtcNs ≤ instant - delay) {leftFlow rightFlow : Flow RunState}
    (leftRan : left.step cash state row = .ok leftFlow)
    (rightRan : right.step cash state row = .ok rightFlow) :
    leftFlow = rightFlow ∨ (Quiet (instant - delay) leftFlow.state ∧
      Quiet (instant - delay) rightFlow.state ∧
      ordersBy instant leftFlow.state = ordersBy instant rightFlow.state) := by
  unfold step at leftRan rightRan
  rw [← aligned.past.market.endUtcNs] at rightRan
  split at leftRan
  · next closed =>
    rw [if_pos closed] at rightRan
    exact .inl (Except.ok.inj (leftRan.symm.trans rightRan))
  next still =>
  rw [if_neg still] at rightRan
  split at leftRan
  · next watches =>
    rw [if_pos watches, ← aligned.exitStep_eq delayed state (by omega)] at rightRan
    exact .inl (Except.ok.inj (leftRan.symm.trans rightRan))
  · next flat =>
    rw [if_neg flat] at rightRan
    exact aligned.entryStep_lockstep inRange delayed nonneg early leftRan rightRan

/-- Two completed runs over tapes with the same past sent the same orders by the instant. -/
theorem trace_ordersBy (inRange : left.params.InRange) (delayed : left.Delays delay)
    (nonneg : 0 ≤ delay) {cash : CashAvailability} {leftFinal rightFinal : RunState}
    (leftRan : left.trace cash = .ok leftFinal) (rightRan : right.trace cash = .ok rightFinal) :
    ordersBy instant leftFinal = ordersBy instant rightFinal := by
  -- The right run starts from the same state but for the winner it carries along.
  have start : right.initialState =
      withWinner right.tape.episode.winnerOutcome left.initialState := by
    simp only [initialState, withWinner, entryFromNs, aligned.params,
      aligned.past.market.startUtcNs, aligned.past.market.endUtcNs, aligned.past.market.conditionId,
      aligned.past.market.marketSlug]
  rw [trace, start, forLoop_map step_withWinner] at rightRan
  obtain ⟨carried, carriedRan, rfl⟩ := Except.map_eq_ok.mp rightRan
  change _ = ordersBy instant carried
  have past := aligned.past.mono (sub_le_self instant nonneg)
  obtain ⟨leftLater, leftSplit, leftLate⟩ :=
    EpisodeTape.rows_split past.ordered.1 (instant - delay)
  obtain ⟨rightLater, rightSplit, rightLate⟩ :=
    EpisodeTape.rows_split past.ordered.2 (instant - delay)
  rw [← past.rowsBy_eq] at rightSplit
  rw [trace, leftSplit] at leftRan
  rw [rightSplit] at carriedRan
  have early : ∀ row ∈ left.tape.rowsBy (instant - delay), row.receivedUtcNs ≤ instant - delay :=
    fun row member => of_decide_eq_true (List.mem_filter.mp member).2
  have calm : ∀ replay : Replay, Calm (ordersBy instant) (Quiet (instant - delay))
      (replay.step cash) (left.tape.rowsBy (instant - delay)) := by
    intro replay state row flow member quiet ran
    have same := step_quiet quiet (early row member) ran
    rw [same]
    exact ⟨quiet, rfl⟩
  have late : ∀ (replay : Replay), replay.Delays delay → ∀ later : List TapeRow,
      (∀ row ∈ later, instant - delay < row.receivedUtcNs) →
        Late (ordersBy instant) (replay.step cash) later := by
    intro replay delays later after state row flow member ran
    have := after row member
    exact ordersBy_adds (step_adds delays ran) (by omega)
  exact forLoop_two_runs
    (fun state row leftFlow rightFlow member leftStep rightStep =>
      aligned.step_lockstep inRange delayed nonneg (early row member) leftStep rightStep)
    (calm left) (calm right) (late left delayed _ leftLate)
    (late right (aligned.delays delayed) _ rightLate) leftRan carriedRan

end Aligned

end Replay

namespace ThresholdHoldSimulator

variable {simulator : ThresholdHoldSimulator} {left right : EpisodeTape} {cash : CashAvailability}
  {instant : ℤ} {leftResult rightResult : EpisodeResult}

theorem replayOf_aligned (past : left.SamePast instant right) {leftReplay rightReplay : Replay}
    (leftReplayed : simulator.replayOf left = .ok leftReplay)
    (rightReplayed : simulator.replayOf right = .ok rightReplay) :
    Replay.Aligned instant leftReplay rightReplay := by
  have realism : simulator.episodeRealism left.episode = simulator.episodeRealism right.episode := by
    simp only [episodeRealism, past.market.feeRate, past.market.feeExponent]
  unfold replayOf at leftReplayed rightReplayed
  dsimp only at leftReplayed rightReplayed
  rw [← realism, ← past.market.conditionId, ← past.market.takerOrderDelayMs] at rightReplayed
  obtain ⟨feeModel, feeRan, leftReplayed⟩ := Except.bind_eq_ok.mp leftReplayed
  obtain ⟨feeModel', feeRan', rightReplayed⟩ := Except.bind_eq_ok.mp rightReplayed
  obtain rfl := Except.ok.inj (feeRan.symm.trans feeRan')
  obtain rfl := Except.pure_eq_ok.mp leftReplayed
  obtain rfl := Except.pure_eq_ok.mp rightReplayed
  exact ⟨rfl, rfl, rfl, past⟩

/-- The reported orders that arrive by an instant are those sent that do. -/
theorem settle_orders_filter (replay : Replay) (state : RunState) (instant : ℤ) :
    (replay.settle state).orders.filter (fun order => order.arrivalUtcNs ≤ instant) =
      (Replay.ordersBy instant state).map (SentOrder.toOrder replay.tape.episode) := by
  rw [Replay.settle_orders, List.filter_map, Replay.ordersBy]
  rfl

/-- The orders that arrive by an instant do not depend on what is received after it. -/
theorem run_no_lookahead (valid : simulator.params.Valid)
    (deterministic : Replay.Deterministic simulator.realism.latency)
    (past : left.SamePast instant right) (leftEligible : left.episode.eligible = true)
    (rightEligible : right.episode.eligible = true) (leftRan : simulator.run left cash = .ok leftResult)
    (rightRan : simulator.run right cash = .ok rightResult) :
    leftResult.orders.filter (fun order => order.arrivalUtcNs ≤ instant) =
      rightResult.orders.filter fun order => order.arrivalUtcNs ≤ instant := by
  obtain ⟨leftReplay, leftState, leftReplayed, leftTraced, rfl⟩ := run_eq_ok leftEligible leftRan
  obtain ⟨rightReplay, rightState, rightReplayed, rightTraced, rfl⟩ := run_eq_ok rightEligible rightRan
  have aligned := replayOf_aligned past leftReplayed rightReplayed
  obtain ⟨params, tape, venue⟩ := replayOf_fields leftReplayed
  have latency : leftReplay.executor.realism.latency = simulator.realism.latency := by
    obtain ⟨_, _, built⟩ := Except.bind_eq_ok.mp leftReplayed
    obtain rfl := Except.pure_eq_ok.mp built
    rfl
  rw [← latency] at deterministic
  obtain ⟨delay, delayed, nonneg⟩ := Replay.delays_of_deterministic venue deterministic
  have inRange := valid.inRange
  rw [← params] at inRange
  have same := aligned.trace_ordersBy inRange delayed nonneg leftTraced rightTraced
  rw [settle_orders_filter, settle_orders_filter, same]
  refine List.map_congr_left fun order _ => ?_
  rw [SentOrder.toOrder, SentOrder.toOrder, SimulatedOrder.fromOutcome, SimulatedOrder.fromOutcome,
    aligned.past.market.startUtcNs]

/-- The example market settles for the other side, and its book falls while the parent is worked. -/
def earlyFallTape : EpisodeTape :=
  { exampleTape with
    episode :=
      { TapeBuilder.exampleEpisode with
        winnerTokenId := some "down"
        winnerOutcome := some "DOWN" }
    rows := [TapeBuilder.exampleRow none 780000 800000, { fallenRow with receivedUtcNs := 700000000 }] }

theorem exampleTape_samePast : exampleTape.SamePast 600000000 earlyFallTape where
  market := ⟨rfl, rfl, rfl, rfl, rfl, rfl, rfl, rfl, rfl, rfl, rfl⟩
  ordered := by unfold EpisodeTape.Ordered; decide
  tradesOrdered := by unfold EpisodeTape.TradesOrdered; decide
  rows := by decide
  trades := rfl
  uncertain := fun _ _ _ => rfl

/-- Both markets see the two children decided before the books part. -/
theorem run_no_lookahead_early_fall :
    ∃ leftResult rightResult, (exampleSimulator .twap).run exampleTape none = .ok leftResult ∧
      (exampleSimulator .twap).run earlyFallTape none = .ok rightResult ∧
      leftResult.orders.filter (fun order => order.arrivalUtcNs ≤ 600000000) =
        rightResult.orders.filter (fun order => order.arrivalUtcNs ≤ 600000000) ∧
      leftResult.orders ≠ rightResult.orders := by
  have apart : ((exampleSimulator .twap).run exampleTape none).toOption.map EpisodeResult.orders ≠
      ((exampleSimulator .twap).run earlyFallTape none).toOption.map EpisodeResult.orders ∧
      ((exampleSimulator .twap).run exampleTape none).toOption.isSome ∧
      ((exampleSimulator .twap).run earlyFallTape none).toOption.isSome := by decide +kernel
  cases leftRan : (exampleSimulator .twap).run exampleTape none with
  | error e =>
    rw [leftRan] at apart
    cases apart.2.1
  | ok leftResult =>
    cases rightRan : (exampleSimulator .twap).run earlyFallTape none with
    | error e =>
      rw [rightRan] at apart
      cases apart.2.2
    | ok rightResult =>
      rw [leftRan, rightRan] at apart
      refine ⟨leftResult, rightResult, rfl, rfl, ?_, fun same => apart.1 (congrArg some same)⟩
      exact run_no_lookahead (exampleParams_valid .twap) (.inl rfl)
        exampleTape_samePast (by decide) (by decide) leftRan rightRan

end ThresholdHoldSimulator

end PolymarketBt
