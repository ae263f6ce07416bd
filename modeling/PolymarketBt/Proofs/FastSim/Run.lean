import PolymarketBt.Model.FastSim.Run
import PolymarketBt.Proofs.FastSim.SequentialEntry

/-! # What one iteration of the main loop can do

An entry attempt sends the orders of one parent and nothing else of the state that money depends on
moves; a filled attempt opens the position. An exit sends one sell of at most the position. The
invariants of a run are assembled from these two lemmas.
-/

namespace PolymarketBt

open Machine

namespace Replay

variable {replay : Replay} {cash : CashAvailability}

/-! ## Entry attempts -/

/-- Everything an attempt that fills nothing leaves as it was. -/
structure Untouched (before after : RunState) : Prop where
  entryCashDebited : after.entryCashDebited = before.entryCashDebited
  positionShares : after.positionShares = before.positionShares
  positionCost : after.positionCost = before.positionCost
  positionToken : after.positionToken = before.positionToken
  exitShares : after.exitShares = before.exitShares
  exitNotional : after.exitNotional = before.exitNotional
  entered : after.result.entered = before.result.entered
  outcomeToken : after.result.outcomeToken = before.result.outcomeToken
  fees : after.result.feesScaled = before.result.feesScaled
  entry : after.result.entrySharesScaled = before.result.entrySharesScaled ∧
    after.result.entryNotionalScaled = before.result.entryNotionalScaled
  exit : after.result.exitSharesScaled = before.result.exitSharesScaled ∧
    after.result.exitNotionalScaled = before.result.exitNotionalScaled
  settlement : after.result.settledSharesScaled = before.result.settledSharesScaled ∧
    after.result.settlementPayoutScaled = before.result.settlementPayoutScaled
  net : after.result.netPnlScaled = before.result.netPnlScaled

/-- An order of a parent entry that was signalled at the given instant. -/
structure EntryOrder (replay : Replay) (signalNs : ℤ) (outcome : ExecutionOutcome) : Prop where
  balanced : outcome.Balanced replay.executor
  side : outcome.side = .buy
  inside : ∀ slice ∈ outcome.slices, slice.priceScaled ≤ replay.params.entryLimitPriceScaled
  decided : signalNs ≤ outcome.decisionUtcNs ∧ outcome.decisionUtcNs ≤ replay.entryToNs
  open_market : outcome.filled = true → outcome.arrivalUtcNs < replay.tape.episode.endUtcNs

/-- The orders of one parent entry, and the bounds its parameters put on them. -/
structure Parent (replay : Replay) (cash : CashAvailability) (tokenIndex : TokenIndex)
    (signalNs ask : ℤ) (parent : List SentOrder) : Prop where
  marks : ∀ sent ∈ parent, sent.kind = .entry ∧ sent.tokenIndex = tokenIndex ∧
    sent.signalNs = signalNs ∧ sent.triggerPriceScaled = some ask
  orders : ∀ sent ∈ parent, replay.EntryOrder signalNs sent.outcome
  deadline : replay.params.entryExecutionPolicy ≠ .immediate →
    ∀ sent ∈ parent, sent.outcome.filled = true →
      sent.outcome.arrivalUtcNs ≤ replay.executionDeadlineNs signalNs replay.entryToNs
  budget : ∀ notional ∈ replay.params.orderNotionalScaled,
    totalCost (parent.map SentOrder.outcome) ≤ notional
  affordable : Affordable cash (parent.map SentOrder.outcome)
  full : replay.params.entryExecutionPolicy = .immediate → replay.params.allowPartialEntry = false →
    ∀ sent ∈ parent, sent.outcome.filled = true →
      sent.outcome.filledSharesScaled = sent.outcome.requestedSharesScaled ∨
        ∃ notional ∈ replay.params.orderNotionalScaled, ∃ spend, spend ≤ notional ∧
          sent.outcome.bindingConstraint = some .cashBudget ∧
          replay.executor.CutBySpend (max 0 spend) sent.outcome.slices

/-- What one attempt adds to the run, and what it reports for its parent. -/
structure Attempts (replay : Replay) (cash : CashAvailability) (state : RunState) (row : TapeRow)
    (ask : ℤ) (attempt : EntryAttempt) (parent : List SentOrder) : Prop where
  sent : attempt.state.sent = state.sent ++ parent
  untouched : Untouched state attempt.state
  entriesFrom : replay.entryFromNs ≤ row.receivedUtcNs → replay.entryFromNs ≤
    state.nextEntryAllowedNs → replay.entryFromNs ≤ attempt.state.nextEntryAllowedNs
  balanced : attempt.outcome.Balanced replay.executor
  shares : attempt.outcome.filledSharesScaled = totalShares (parent.map SentOrder.outcome)
  notional : attempt.outcome.notionalScaled = totalNotional (parent.map SentOrder.outcome)
  fees : attempt.outcome.feesScaled = totalFees (parent.map SentOrder.outcome)
  parent : replay.Parent cash row.tokenIndex row.receivedUtcNs ask parent

theorem cashAt_nonneg {timestampNs balance : ℤ} {available : Option ℤ}
    (ran : cashAt cash timestampNs = .ok available) (same : available = some balance) :
    0 ≤ balance := by
  unfold cashAt at ran
  split at ran
  · cases ran
    cases same
  · obtain ⟨value, _, rest⟩ := Except.bind_eq_ok.mp ran
    rw [same] at rest
    obtain rfl := Option.some.inj (Except.pure_eq_ok.mp rest)
    exact le_max_left _ _

/-- Cash seen through the wallet of a run without fills is cash of the run's source. -/
theorem walletAt_available {arrivalNs cost : ℤ} {seen : Option ℤ}
    (ran : cashAt (some (replay.walletAt cash 0)) arrivalNs = .ok seen)
    (fits : ∀ balance ∈ seen, cost ≤ balance) :
    ∃ available, cashAt cash arrivalNs = .ok available ∧ ∀ balance ∈ available, cost ≤ balance := by
  obtain ⟨value, walletRan, rest⟩ := Except.bind_eq_ok.mp ran
  obtain rfl := Except.pure_eq_ok.mp rest
  obtain ⟨external, externalRan, rest⟩ := Except.bind_eq_ok.mp walletRan
  obtain rfl := Except.pure_eq_ok.mp rest
  refine ⟨external, externalRan, ?_⟩
  rintro balance rfl
  have nonneg := cashAt_nonneg externalRan rfl
  have within := fits _ rfl
  rw [Option.getD_some] at within
  omega

/-- The spend of a parent never exceeds the configured notional. -/
theorem entrySpend_le {state : RunState} {timestamp : ℤ} {spend : Option ℤ} {limited : Bool}
    (ran : replay.entrySpend cash state timestamp = .ok (spend, limited)) :
    (∀ amount ∈ spend, ∃ notional ∈ replay.params.orderNotionalScaled, amount ≤ notional) ∧
      ∀ notional ∈ replay.params.orderNotionalScaled, ∃ amount ∈ spend, amount ≤ notional := by
  unfold entrySpend at ran
  split at ran
  · next notional source configured =>
    obtain ⟨now, _, ran⟩ := Except.bind_eq_ok.mp ran
    obtain ⟨rfl, _⟩ := Prod.mk.inj (Except.pure_eq_ok.mp ran)
    have bound : (if 0 < now then min notional now else notional) ≤ notional := by
      split
      · exact min_le_left _ _
      · exact le_rfl
    rw [configured]
    constructor
    · intro amount same
      obtain rfl := Option.some.inj same
      exact ⟨notional, rfl, bound⟩
    · intro other same
      obtain rfl := Option.some.inj same
      exact ⟨_, rfl, bound⟩
  · obtain ⟨rfl, _⟩ := Prod.mk.inj (Except.ok.inj ran)
    exact ⟨fun amount same => ⟨amount, same, le_rfl⟩, fun amount same => ⟨amount, same, le_rfl⟩⟩

theorem executionDeadlineNs_le (signalNs entryToNs : ℤ) :
    replay.executionDeadlineNs signalNs entryToNs ≤ entryToNs :=
  (min_le_left _ _).trans (min_le_left _ _)

theorem immediateEntry_spec (inRange : replay.params.InRange) {state : RunState} {row : TapeRow}
    {ask : ℤ} {spend : Option ℤ} {limited : Bool} {attempt : EntryAttempt}
    (immediate : replay.params.entryExecutionPolicy = .immediate)
    (window : row.receivedUtcNs ≤ replay.entryToNs) (flat : state.entryCashDebited = 0)
    (spends : replay.entrySpend cash state row.receivedUtcNs = .ok (spend, limited))
    (ran : replay.immediateEntry cash state row ask spend limited = .ok attempt) :
    ∃ parent, replay.Attempts cash state row ask attempt parent := by
  obtain ⟨shares, _, ran⟩ := Except.bind_eq_ok.mp ran
  obtain ⟨⟨outcome, context⟩, sent, ran⟩ := Except.bind_eq_ok.mp ran
  obtain rfl := Except.pure_eq_ok.mp ran
  have sends := send_spec sent
  obtain ⟨upper, lower⟩ := replay.entrySpend_le spends
  have single : ∀ {P : SentOrder → Prop}, P ⟨.entry, row.tokenIndex, row.receivedUtcNs, some ask,
      outcome⟩ → ∀ sent ∈ [SentOrder.mk .entry row.tokenIndex row.receivedUtcNs (some ask) outcome],
      P sent := by
    intro P holds sent member
    obtain rfl := List.mem_singleton.mp member
    exact holds
  have costs : totalCost [outcome] = outcome.cost := by simp
  refine ⟨[⟨.entry, row.tokenIndex, row.receivedUtcNs, some ask, outcome⟩], rfl,
    ⟨rfl, rfl, rfl, rfl, rfl, rfl, rfl, rfl, rfl, ⟨rfl, rfl⟩, ⟨rfl, rfl⟩, ⟨rfl, rfl⟩, rfl⟩, ?_,
    sends.balanced, ?_, ?_, ?_, ⟨single ⟨rfl, rfl, rfl, rfl⟩, single ?_, ?_, ?_, ?_, ?_⟩⟩
  · intro signal earlier
    have := inRange.cooldown_nonneg
    dsimp only
    split <;> omega
  · simp [totalShares]
  · simp [totalNotional]
  · simp [totalFees]
  · refine ⟨sends.balanced, sends.side, fun slice member => ?_, ?_, sends.open_market⟩
    · simpa [entryRequest, Side.beyond] using sends.inside slice member
    · rw [sends.decided]
      exact ⟨le_rfl, window⟩
  · exact fun sequential => absurd immediate sequential
  · intro notional configured
    change totalCost [outcome] ≤ notional
    rw [costs]
    have positive := inRange.notional_pos notional configured
    cases filled : outcome.filled with
    | false =>
      obtain ⟨_, _, noNotional, noFees⟩ := sends.balanced.of_unfilled filled
      rw [ExecutionOutcome.cost, noNotional, noFees]
      omega
    | true =>
      obtain ⟨amount, same, below⟩ := lower notional configured
      exact (sends.spend rfl filled amount same).trans (max_le positive.le below)
  · intro past other future split filled
    obtain ⟨rfl, same⟩ : past = [] ∧ outcome = other := by
      cases past with
      | nil => exact ⟨rfl, (List.cons.inj split).1⟩
      | cons _ _ => simp at split
    subst same
    obtain ⟨seen, seenRan, fits⟩ := sends.cash rfl filled
    change cashAt (some (replay.walletAt cash state.entryCashDebited)) _ = _ at seenRan
    rw [flat] at seenRan
    obtain ⟨available, availableRan, room⟩ :=
      walletAt_available seenRan fun balance same => (fits balance same).2
    exact ⟨available, availableRan, by simpa using room⟩
  · intro _ whole
    refine single fun filled => ?_
    have demanded : (replay.entryRequest cash state row ask spend shares).requireFullFill = true := by
      simp [entryRequest, whole]
    refine (sends.full demanded filled).imp id ?_
    rintro ⟨amount, _, same, binding, cut⟩
    obtain ⟨notional, configured, below⟩ := upper amount same
    exact ⟨notional, configured, amount, below, binding, cut⟩

theorem sequentialAttempt_spec (inRange : replay.params.InRange) {state : RunState} {row : TapeRow}
    {ask : ℤ} {spend : Option ℤ} {limited : Bool} {attempt : EntryAttempt}
    (sequential : replay.params.entryExecutionPolicy ≠ .immediate) (flat : state.entryCashDebited = 0)
    (horizon : row.receivedUtcNs < replay.executionDeadlineNs row.receivedUtcNs replay.entryToNs)
    (spends : replay.entrySpend cash state row.receivedUtcNs = .ok (spend, limited))
    (ran : replay.sequentialAttempt cash state row ask spend limited = .ok attempt) :
    ∃ parent, replay.Attempts cash state row ask attempt parent := by
  obtain ⟨⟨children, objective, context⟩, entryRan, ran⟩ := Except.bind_eq_ok.mp ran
  obtain rfl := Except.pure_eq_ok.mp ran
  have parented := sequentialEntry_spec entryRan
  obtain ⟨_, lower⟩ := replay.entrySpend_le spends
  have outcomes : (children.map fun child => SentOrder.mk .entry row.tokenIndex row.receivedUtcNs
      (some ask) child).map SentOrder.outcome = children := by
    rw [List.map_map]
    exact List.map_id _
  have each : ∀ {P : SentOrder → Prop}, (∀ child ∈ children, P ⟨.entry, row.tokenIndex,
      row.receivedUtcNs, some ask, child⟩) → ∀ sent ∈ children.map fun child =>
        SentOrder.mk .entry row.tokenIndex row.receivedUtcNs (some ask) child, P sent := by
    intro P holds sent member
    obtain ⟨child, inChildren, rfl⟩ := List.mem_map.mp member
    exact holds child inChildren
  obtain ⟨balanced, shares, notional, fees⟩ := aggregateEntryOutcomes_balanced
    (objective.filledSharesScaled + objective.unfilledSharesScaled) row.receivedUtcNs ask
    fun child member => (parented.children child member).balanced
  refine ⟨children.map fun child => ⟨.entry, row.tokenIndex, row.receivedUtcNs, some ask, child⟩,
    rfl, ⟨rfl, rfl, rfl, rfl, rfl, rfl, rfl, rfl, rfl, ⟨rfl, rfl⟩, ⟨rfl, rfl⟩, ⟨rfl, rfl⟩, rfl⟩, ?_,
    balanced, ?_, ?_, ?_, ⟨each fun _ _ => ⟨rfl, rfl, rfl, rfl⟩, each fun child member => ?_, ?_, ?_, ?_,
    fun immediate => absurd immediate sequential⟩⟩
  · intro signal earlier
    have := inRange.cooldown_nonneg
    dsimp only
    omega
  · rw [outcomes]
    exact shares
  · rw [outcomes]
    exact notional
  · rw [outcomes]
    exact fees
  · have child := parented.children child member
    exact ⟨child.balanced, child.side, child.inside,
      ⟨child.decided.1, child.decided.2.trans (executionDeadlineNs_le _ _)⟩, child.open_market⟩
  · exact fun _ => each fun child member => (parented.children child member).deadline
  · intro notional configured
    obtain ⟨amount, same, below⟩ := lower notional configured
    rw [outcomes]
    exact (parented.budget amount same).trans below
  · rw [outcomes]
    intro past child future split filled
    obtain ⟨seen, seenRan, fits⟩ := parented.affordable past child future split filled
    rw [flat] at seenRan
    exact walletAt_available seenRan fits

theorem attemptEntry_spec (inRange : replay.params.InRange) {state : RunState} {row : TapeRow}
    {ask : ℤ} {spend : Option ℤ} {limited : Bool} {attempt : EntryAttempt}
    (window : row.receivedUtcNs ≤ replay.entryToNs) (flat : state.entryCashDebited = 0)
    (legal : ¬ (replay.params.entryExecutionPolicy ≠ .immediate ∧
      replay.executionDeadlineNs row.receivedUtcNs replay.entryToNs ≤ row.receivedUtcNs))
    (spends : replay.entrySpend cash state row.receivedUtcNs = .ok (spend, limited))
    (ran : replay.attemptEntry cash state row ask spend limited = .ok attempt) :
    ∃ parent, replay.Attempts cash state row ask attempt parent := by
  unfold attemptEntry at ran
  split at ran
  · next immediate => exact immediateEntry_spec inRange immediate window flat spends ran
  · next sequential =>
    have horizon := not_le.mp fun late => legal ⟨sequential, late⟩
    exact sequentialAttempt_spec inRange sequential flat horizon spends ran

/-- The signal of an entry: a flat strategy in its window, an allowed token, an ask in its band. -/
theorem entrySignal_eq_some {state : RunState} {row : TapeRow} {ask : ℤ}
    (signal : replay.entrySignal state row = some ask) :
    state.positionShares ≤ 0 ∧ state.nextEntryAllowedNs ≤ row.receivedUtcNs ∧
      row.receivedUtcNs ≤ replay.entryToNs ∧ replay.allowed row.tokenIndex = true ∧
      row.bestAskScaled = some ask ∧ replay.params.entryTriggerPriceScaled ≤ ask ∧
      ask ≤ replay.params.entryLimitPriceScaled := by
  unfold entrySignal at signal
  dsimp only at signal
  split at signal
  · cases signal
  next flat =>
  split at signal
  · cases signal
  next window =>
  split at signal
  · next allowed =>
    obtain ⟨quoted, band⟩ := Option.filter_eq_some_iff.mp signal
    simp only [Bool.and_eq_true, decide_eq_true_eq] at band
    exact ⟨by omega, by omega, by omega, allowed, quoted, band⟩
  · cases signal

/-! ## Exits -/

/-- One sell of at most the position, booked. -/
structure Exits (replay : Replay) (state after : RunState) (row : TapeRow) (exit : SentOrder) :
    Prop where
  sent : after.sent = state.sent ++ [exit]
  kind : exit.kind ≠ .entry
  token : exit.tokenIndex = row.tokenIndex
  side : exit.outcome.side = .sell
  balanced : exit.outcome.Balanced replay.executor
  within : exit.outcome.filledSharesScaled ≤ state.positionShares
  positionShares : after.positionShares = state.positionShares - exit.outcome.filledSharesScaled
  exitShares : after.exitShares = state.exitShares + exit.outcome.filledSharesScaled
  exitNotional : after.exitNotional = state.exitNotional + exit.outcome.notionalScaled
  fees : after.result.feesScaled = state.result.feesScaled + exit.outcome.feesScaled
  entryCashDebited : after.entryCashDebited = state.entryCashDebited
  positionCost : after.positionCost = state.positionCost
  positionToken : after.positionToken = state.positionToken
  entered : after.result.entered = state.result.entered
  outcomeToken : after.result.outcomeToken = state.result.outcomeToken
  entry : after.result.entrySharesScaled = state.result.entrySharesScaled ∧
    after.result.entryNotionalScaled = state.result.entryNotionalScaled

theorem exitSignal_target (inRange : replay.params.InRange) {state : RunState} {row : TapeRow}
    {kind : OrderKind} {target : ℤ} (held : 0 ≤ state.positionShares)
    (signal : replay.exitSignal state row = some (kind, target)) :
    kind ≠ .entry ∧ target ≤ state.positionShares := by
  have fraction : ∀ ppmFraction : ℤ, 0 < ppmFraction → ppmFraction ≤ ppm →
      state.positionShares * ppmFraction / 1000000 ≤ state.positionShares := by
    intro ppmFraction _ most
    have scaled : state.positionShares * ppmFraction ≤ state.positionShares * 1000000 :=
      Int.mul_le_mul_of_nonneg_left most held
    exact (Int.ediv_le_ediv (by norm_num) scaled).trans_eq (Int.mul_ediv_cancel _ (by norm_num))
  have stop := fraction _ inRange.stopFraction_range.1 inRange.stopFraction_range.2
  have profit := fraction _ inRange.takeProfitFraction_range.1 inRange.takeProfitFraction_range.2
  unfold exitSignal at signal
  dsimp only at signal
  split at signal
  · split at signal
    · cases signal
      exact ⟨by decide, le_rfl⟩
    split at signal
    · cases signal
      exact ⟨by decide, le_rfl⟩
    · cases signal
  split at signal
  · cases signal
    exact ⟨by decide, stop⟩
  split at signal
  · cases signal
    exact ⟨by decide, profit⟩
  split at signal
  · cases signal
    exact ⟨by decide, le_rfl⟩
  · cases signal

/-- Booking an exit moves the position and the exit totals by what it filled. -/
theorem bookExit_exits {state : RunState} {row : TapeRow} {exit : SentOrder} (context : SimContext)
    (peak : Option ℤ) (kind : exit.kind ≠ .entry) (token : exit.tokenIndex = row.tokenIndex)
    (side : exit.outcome.side = .sell) (balanced : exit.outcome.Balanced replay.executor)
    (within : exit.outcome.filledSharesScaled ≤ state.positionShares) :
    replay.Exits state
      (bookExit { state with context := context, peakAdverse := peak, sent := state.sent ++ [exit] }
        exit) row exit := by
  unfold bookExit
  dsimp only
  split
  · next none =>
    have unfilled : exit.outcome.filled = false := by simp [ExecutionOutcome.filled, none]
    obtain ⟨_, _, notional, fees⟩ := balanced.of_unfilled unfilled
    refine ⟨rfl, kind, token, side, balanced, within, ?_, ?_, ?_, ?_, rfl, rfl, rfl, rfl, rfl, rfl, rfl⟩
    · rw [none, sub_zero]
    · rw [none, add_zero]
    · rw [notional, add_zero]
    · rw [fees, add_zero]
  · exact ⟨rfl, kind, token, side, balanced, within, rfl, rfl, rfl, rfl, rfl, rfl, rfl, rfl, rfl, rfl,
      rfl⟩

theorem Exits.rearm {state booked : RunState} {row : TapeRow} {exit : SentOrder}
    (exits : replay.Exits state booked row exit) (timestamp : ℤ) :
    replay.Exits state (replay.rearm booked exit timestamp) row exit :=
  ⟨exits.sent, exits.kind, exits.token, exits.side, exits.balanced, exits.within,
    exits.positionShares, exits.exitShares, exits.exitNotional, exits.fees, exits.entryCashDebited,
    exits.positionCost, exits.positionToken, exits.entered, exits.outcomeToken, exits.entry⟩

/-- The loop goes on exactly while something is held. -/
theorem stops_flat {after : RunState} {flow : Flow RunState}
    (ended : (if after.positionShares ≤ 0 then Flow.stop after else Flow.next after) = flow) :
    flow.state = after ∧ ∀ next, flow = .next next → 0 < next.positionShares := by
  subst ended
  split
  · exact ⟨rfl, fun next running => by cases running⟩
  · next left =>
    refine ⟨rfl, fun next running => ?_⟩
    cases running
    exact not_le.mp left

/-- A watched row sends nothing and keeps the position, or sends one exit; it ends the loop exactly
when nothing is held any more. -/
theorem exitStep_spec (inRange : replay.params.InRange) {state : RunState} {row : TapeRow}
    {flow : Flow RunState} (held : 0 < state.positionShares)
    (ran : replay.exitStep state row = .ok flow) :
    (∃ context peak, flow = .next { state with context := context, peakAdverse := peak }) ∨
      ∃ exit, replay.Exits state flow.state row exit ∧
        ∀ after, flow = .next after → 0 < after.positionShares := by
  obtain ⟨⟨order, context⟩, exitRan, ran⟩ := Except.bind_eq_ok.mp ran
  dsimp only at ran exitRan
  cases order with
  | none =>
    obtain rfl := Except.pure_eq_ok.mp ran
    exact .inl ⟨context, _, rfl⟩
  | some sent =>
    right
    unfold maybeExit at exitRan
    split at exitRan
    · cases exitRan
    next kind target signal =>
    split at exitRan
    · cases exitRan
    next positive =>
    obtain ⟨⟨outcome, reached⟩, sendRan, exitRan⟩ := Except.bind_eq_ok.mp exitRan
    obtain ⟨same, rfl⟩ := Prod.mk.inj (Except.pure_eq_ok.mp exitRan)
    obtain rfl := Option.some.inj same
    have sends := send_spec sendRan
    obtain ⟨notEntry, most⟩ := exitSignal_target inRange held.le signal
    have within : outcome.filledSharesScaled ≤ state.positionShares := by
      have bound := sends.within
      have sold : outcome.requestedSharesScaled = target := sends.sold rfl
      rw [sold] at bound
      change target ≤ state.positionShares at most
      omega
    obtain ⟨stateIs, runs⟩ := stops_flat (Except.pure_eq_ok.mp ran)
    refine ⟨⟨kind, row.tokenIndex, row.receivedUtcNs, row.bestBidScaled, outcome⟩, ?_, runs⟩
    rw [stateIs]
    exact (bookExit_exits _ _ notEntry rfl sends.side sends.balanced within).rearm _

/-- The reported orders of a replay are the ones its loop sent. -/
theorem settle_orders (replay : Replay) (state : RunState) :
    (replay.settle state).orders = state.sent.map (SentOrder.toOrder replay.tape.episode) := by
  unfold settle
  dsimp only
  split <;> rfl

end Replay

end PolymarketBt
