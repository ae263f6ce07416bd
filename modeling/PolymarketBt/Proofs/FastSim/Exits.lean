import PolymarketBt.Proofs.FastSim.Delay
import PolymarketBt.Proofs.FastSim.Phases

/-! # The exits of a position

The flags of the main loop say which exits were sent: whether a take-profit or a flatten was tried,
whether a stop was, how often, and when it may be sent again. An exit is decided from these flags and
the row alone, so what one row can send after given exits bounds the exits of a whole run.
-/

namespace PolymarketBt

open Machine

namespace Replay

variable {replay : Replay} {cash : CashAvailability}

/-- When the position of a filled entry order exists: on its arrival, and for an order of a parent
that is worked in children at the deadline of that parent. -/
def effectiveNs (replay : Replay) (entry : SentOrder) : ℤ :=
  if replay.params.entryExecutionPolicy = .immediate then entry.outcome.arrivalUtcNs
  else replay.executionDeadlineNs entry.signalNs replay.entryToNs

def isStop (order : SentOrder) : Bool := order.kind = .stopLoss
def isTakeProfit (order : SentOrder) : Bool := order.kind = .takeProfit
def isFlatten (order : SentOrder) : Bool := order.kind = .flatten

/-- The shares held after some exits. -/
def heldAfterExits (opening exits : List SentOrder) : ℤ :=
  totalShares (outcomesOf opening) - totalShares (outcomesOf exits)

theorem heldAfterExits_concat (opening exits : List SentOrder) (exit : SentOrder) :
    heldAfterExits opening (exits ++ [exit]) =
      heldAfterExits opening exits - exit.outcome.filledSharesScaled := by
  simp only [heldAfterExits, outcomesOf_append, totalShares_append]
  simp [outcomesOf, totalShares]
  ring

/-- The stop is armed, and a row of the token quotes no bid or one at or below the stop price. -/
def TriggersStop (replay : Replay) (order : SentOrder) : Prop :=
  (∀ armed ∈ replay.stopArmedNs, armed ≤ order.outcome.decisionUtcNs) ∧
    ∃ row ∈ replay.tape.rows, row.tokenIndex = order.tokenIndex ∧
      row.receivedUtcNs = order.outcome.decisionUtcNs ∧
      ∃ stop ∈ replay.params.stopLossPriceScaled, ∀ bid ∈ row.bestBidScaled, bid ≤ stop

/-- The bounds on the exits that follow the opening orders of a run. -/
structure ExitSchedule (replay : Replay) (opening exits : List SentOrder) : Prop where
  opens : ∀ order ∈ opening, order.kind = .entry
  sells : ∀ order ∈ exits, order.kind ≠ .entry
  stops : exits.countP isStop ≤ 1 + replay.params.stopRetryLimit
  takeProfits : exits.countP isTakeProfit ≤ 1
  flattens : exits.countP isFlatten ≤ 1
  afterEntry : ∀ entry ∈ opening, entry.outcome.filled = true → ∀ exit ∈ exits,
    replay.effectiveNs entry ≤ exit.outcome.decisionUtcNs
  afterExit : exits.Pairwise fun earlier later =>
    earlier.outcome.arrivalUtcNs ≤ later.outcome.decisionUtcNs
  firstStop : ∀ first ∈ (exits.filter isStop).head?, replay.TriggersStop first
  laterStops : (exits.filter isStop).IsChain fun previous next =>
    previous.outcome.arrivalUtcNs + replay.params.stopRetryIntervalMs * 1000000 ≤
      next.outcome.decisionUtcNs
  noProfitAfterStop : exits.Pairwise fun earlier later =>
    earlier.kind = .stopLoss → later.kind ≠ .takeProfit
  within : ∀ past exit future, exits = past ++ exit :: future →
    exit.outcome.requestedSharesScaled ≤ heldAfterExits opening past
  closes : ∀ past exit future, exits = past ++ exit :: future →
    heldAfterExits opening (past ++ [exit]) = 0 → future = []

theorem ExitSchedule.nil {opening : List SentOrder} (opens : ∀ order ∈ opening, order.kind = .entry) :
    replay.ExitSchedule opening [] where
  opens := opens
  sells := by simp
  stops := by simp
  takeProfits := by simp
  flattens := by simp
  afterEntry := by simp
  afterExit := .nil
  firstStop := by simp
  laterStops := .nil
  noProfitAfterStop := .nil
  within past exit future split := by simp at split
  closes past exit future split := by simp at split

/-- The exits that are configured sell everything: no fraction leaves a part of the position. -/
def WholeExits (params : ThresholdHoldParams) : Prop :=
  (params.stopLossPriceScaled.isSome → params.stopLossFractionPpm = 1000000) ∧
    (params.takeProfitPriceScaled.isSome → params.takeProfitFractionPpm = 1000000)

/-- What the orders tell of a state that may have ended the loop. -/
structure Exited (replay : Replay) (opening exits : List SentOrder) (state : RunState) : Prop where
  schedule : replay.ExitSchedule opening exits
  sent : state.sent = opening ++ exits
  position : state.positionShares = heldAfterExits opening exits
  nonneg : 0 ≤ state.positionShares
  filled : ∀ exit ∈ exits, exit.outcome.filledSharesScaled ≤ exit.outcome.requestedSharesScaled
  asks : WholeExits replay.params → ∀ past exit future, exits = past ++ exit :: future →
    exit.outcome.requestedSharesScaled = heldAfterExits opening past
  reason : ∀ last ∈ exits.getLast?, state.exitReason = exitReasonOf last.kind
  deliberate : exits = [] → state.exitReason = .settlement ∨ state.exitReason = .noEntry
  unreported : state.result.unfilledExitSharesScaled = 0

/-- The flags of a running loop tell the exits it has sent. -/
structure Watched (replay : Replay) (opening exits : List SentOrder) (state : RunState) : Prop
    extends Exited replay opening exits state where
  takeProfit : state.takeProfitAttempted = false → exits.countP isTakeProfit = 0
  flatten : state.flattenAttempted = false → exits.countP isFlatten = 0
  stop : state.stopActive = true ↔ exits.filter isStop ≠ []
  deadline : ∀ deadline ∈ state.stopDeadlineNs,
    exits.countP isStop ≤ replay.params.stopRetryLimit ∧
      ∀ last ∈ (exits.filter isStop).getLast?,
        last.outcome.arrivalUtcNs + replay.params.stopRetryIntervalMs * 1000000 ≤ deadline
  attempts : state.stopAttempts = exits.countP isStop
  since : ∀ entry ∈ opening, entry.outcome.filled = true →
    replay.effectiveNs entry ≤ state.positionEffectiveNs
  waits : ∀ exit ∈ exits, exit.outcome.arrivalUtcNs ≤ state.positionEffectiveNs

/-! ## One exit -/

/-- What calls for an exit, by the kind of the exit. -/
theorem exitSignal_cases {state : RunState} {row : TapeRow} {kind : OrderKind} {target : ℤ}
    (signal : replay.exitSignal state row = some (kind, target)) :
    (kind = .stopLoss ∧ target = state.positionShares ∧ state.stopActive = true ∧
      ∃ deadline ∈ state.stopDeadlineNs, deadline ≤ row.receivedUtcNs) ∨
    (kind = .stopLoss ∧
      target = state.positionShares * replay.params.stopLossFractionPpm / 1000000 ∧
      state.stopActive = false ∧ (∀ armed ∈ replay.stopArmedNs, armed ≤ row.receivedUtcNs) ∧
      ∃ stop ∈ replay.params.stopLossPriceScaled, ∀ bid ∈ row.bestBidScaled, bid ≤ stop) ∨
    (kind = .takeProfit ∧
      target = state.positionShares * replay.params.takeProfitFractionPpm / 1000000 ∧
      state.stopActive = false ∧ state.takeProfitAttempted = false ∧
      replay.params.takeProfitPriceScaled.isSome) ∨
    (kind = .flatten ∧ target = state.positionShares ∧ state.flattenAttempted = false) := by
  unfold exitSignal at signal
  dsimp only at signal
  split at signal
  · next active =>
    split at signal
    · next due =>
      cases signal
      simp only [Option.any_eq_true, decide_eq_true_eq] at due
      exact .inl ⟨rfl, rfl, active, due⟩
    split at signal
    · next due =>
      cases signal
      simp only [Bool.and_eq_true, Bool.not_eq_true'] at due
      exact .inr (.inr (.inr ⟨rfl, rfl, due.1⟩))
    · cases signal
  next inactive =>
  rw [Bool.not_eq_true] at inactive
  split at signal
  · next fallen =>
    cases signal
    simp only [Bool.and_eq_true, Option.any_eq_true, Option.all_eq_true, decide_eq_true_eq] at fallen
    obtain ⟨⟨stop, configured, below⟩, armed⟩ := fallen
    exact .inr (.inl ⟨rfl, rfl, inactive, armed, stop, configured, below⟩)
  split at signal
  · next risen =>
    cases signal
    simp only [Bool.and_eq_true, Bool.not_eq_true', Option.any_eq_true] at risen
    obtain ⟨⟨profit, configured, _⟩, fresh⟩ := risen
    exact .inr (.inr (.inl ⟨rfl, rfl, inactive, fresh, Option.isSome_of_mem configured⟩))
  split at signal
  · next due =>
    cases signal
    simp only [Bool.and_eq_true, Bool.not_eq_true'] at due
    exact .inr (.inr (.inr ⟨rfl, rfl, due.1⟩))
  · cases signal

/-- The exit answers the signal of a watched row. -/
structure AnswersRow (replay : Replay) (state : RunState) (row : TapeRow) (exit : SentOrder) : Prop where
  signal : replay.exitSignal state row = some (exit.kind, exit.outcome.requestedSharesScaled)
  held : 0 < state.positionShares
  effective : state.positionEffectiveNs ≤ row.receivedUtcNs
  within : exit.outcome.filledSharesScaled ≤ exit.outcome.requestedSharesScaled
  token : exit.tokenIndex = row.tokenIndex
  decided : exit.outcome.decisionUtcNs = row.receivedUtcNs

/-- What a watched row does: nothing, or one exit in answer to its signal. -/
theorem exitStep_answers {state : RunState} {row : TapeRow} {flow : Flow RunState}
    (watched : watchesExit state row = true) (ran : replay.exitStep state row = .ok flow) :
    (∃ context peak, flow = .next { state with context := context, peakAdverse := peak }) ∨
      ∃ context peak exit, replay.AnswersRow state row exit ∧
        flow.state = replay.rearm (bookExit { state with
          context := context, peakAdverse := peak, sent := state.sent ++ [exit] } exit) exit
            row.receivedUtcNs ∧
        ∀ after, flow = .next after → 0 < after.positionShares := by
  simp only [watchesExit, Bool.and_eq_true, decide_eq_true_eq] at watched
  obtain ⟨⟨order, context⟩, exitRan, ran⟩ := Except.bind_eq_ok.mp ran
  dsimp only at ran exitRan
  cases order with
  | none =>
    obtain rfl := Except.pure_eq_ok.mp ran
    exact .inl ⟨context, _, rfl⟩
  | some sent =>
    right
    unfold maybeExit at exitRan
    split at exitRan
    · cases exitRan
    next kind target signal =>
    split at exitRan
    · cases exitRan
    next positive =>
    obtain ⟨⟨outcome, reached⟩, sendRan, exitRan⟩ := Except.bind_eq_ok.mp exitRan
    obtain ⟨same, rfl⟩ := Prod.mk.inj (Except.pure_eq_ok.mp exitRan)
    obtain rfl := Option.some.inj same
    have sends := send_spec sendRan
    have sold : outcome.requestedSharesScaled = target := sends.sold rfl
    have bound := sends.within
    obtain ⟨stateIs, runs⟩ := stops_flat (Except.pure_eq_ok.mp ran)
    refine ⟨_, _, ⟨kind, row.tokenIndex, row.receivedUtcNs, row.bestBidScaled, outcome⟩,
      ⟨?_, watched.1.1, watched.2, ?_, rfl, sends.decided⟩, stateIs, runs⟩
    · dsimp only
      rw [sold]
      exact signal
    · rw [sold] at bound
      dsimp only
      omega

section Concat

variable {opening exits : List SentOrder} {state : RunState} {row : TapeRow} {exit : SentOrder}

/-- An inactive stop has not been sent. -/
theorem Watched.no_stop (watched : replay.Watched opening exits state)
    (inactive : state.stopActive = false) : exits.filter isStop = [] := by
  by_contra some
  rw [watched.stop.mpr some] at inactive
  cases inactive

theorem Watched.stops_concat (watched : replay.Watched opening exits state)
    (answers : replay.AnswersRow state row exit) :
    (exits ++ [exit]).countP isStop ≤ 1 + replay.params.stopRetryLimit := by
  have schedule := watched.schedule.stops
  rw [List.countP_append, List.countP_singleton]
  rcases exitSignal_cases answers.signal with
    ⟨_, _, _, deadline, armed, _⟩ | ⟨_, _, inactive, _⟩ | ⟨kind, _⟩ | ⟨kind, _⟩
  · have := (watched.deadline deadline armed).1
    split <;> omega
  · rw [List.countP_eq_length_filter, watched.no_stop inactive]
    split <;> simp
  · simpa [isStop, kind] using schedule
  · simpa [isStop, kind] using schedule

theorem Watched.takeProfits_concat (watched : replay.Watched opening exits state)
    (answers : replay.AnswersRow state row exit) : (exits ++ [exit]).countP isTakeProfit ≤ 1 := by
  have schedule := watched.schedule.takeProfits
  rw [List.countP_append, List.countP_singleton]
  rcases exitSignal_cases answers.signal with
    ⟨kind, _⟩ | ⟨kind, _⟩ | ⟨_, _, _, fresh, _⟩ | ⟨kind, _⟩
  · simpa [isTakeProfit, kind] using schedule
  · simpa [isTakeProfit, kind] using schedule
  · rw [watched.takeProfit fresh]
    split <;> simp
  · simpa [isTakeProfit, kind] using schedule

theorem Watched.flattens_concat (watched : replay.Watched opening exits state)
    (answers : replay.AnswersRow state row exit) : (exits ++ [exit]).countP isFlatten ≤ 1 := by
  have schedule := watched.schedule.flattens
  rw [List.countP_append, List.countP_singleton]
  rcases exitSignal_cases answers.signal with ⟨kind, _⟩ | ⟨kind, _⟩ | ⟨kind, _⟩ | ⟨_, _, fresh⟩
  · simpa [isFlatten, kind] using schedule
  · simpa [isFlatten, kind] using schedule
  · simpa [isFlatten, kind] using schedule
  · rw [watched.flatten fresh]
    split <;> simp

theorem Watched.firstStop_concat (watched : replay.Watched opening exits state)
    (member : row ∈ replay.tape.rows) (answers : replay.AnswersRow state row exit) :
    ∀ first ∈ ((exits ++ [exit]).filter isStop).head?, replay.TriggersStop first := by
  intro first isFirst
  rw [List.filter_append] at isFirst
  cases stops : exits.filter isStop with
  | cons stop later =>
    rw [stops] at isFirst
    refine watched.schedule.firstStop first ?_
    rw [stops]
    exact isFirst
  | nil =>
    rw [stops, List.nil_append] at isFirst
    obtain ⟨last, stopped⟩ := List.mem_filter.mp (List.mem_of_mem_head? isFirst)
    obtain rfl := List.mem_singleton.mp last
    have kind : first.kind = .stopLoss := of_decide_eq_true stopped
    rcases exitSignal_cases answers.signal with
      ⟨_, _, active, _⟩ | ⟨_, _, _, armed, fallen⟩ | ⟨other, _⟩ | ⟨other, _⟩
    · exact absurd stops (watched.stop.mp active)
    · rw [TriggersStop, answers.decided]
      exact ⟨armed, row, member, answers.token.symm, rfl, fallen⟩
    · rw [other] at kind
      cases kind
    · rw [other] at kind
      cases kind

theorem Watched.laterStops_concat (watched : replay.Watched opening exits state)
    (answers : replay.AnswersRow state row exit) :
    ((exits ++ [exit]).filter isStop).IsChain fun previous next =>
      previous.outcome.arrivalUtcNs + replay.params.stopRetryIntervalMs * 1000000 ≤
        next.outcome.decisionUtcNs := by
  rw [List.filter_append]
  refine List.isChain_append.mpr ⟨watched.schedule.laterStops, ?_, ?_⟩
  · rw [List.filter_singleton]
    cases isStop exit with
    | false => exact .nil
    | true => exact List.isChain_singleton _
  · intro previous isPrevious next isNext
    obtain ⟨last, stopped⟩ := List.mem_filter.mp (List.mem_of_mem_head? isNext)
    obtain rfl := List.mem_singleton.mp last
    have kind : next.kind = .stopLoss := of_decide_eq_true stopped
    rcases exitSignal_cases answers.signal with
      ⟨_, _, _, deadline, armed, late⟩ | ⟨_, _, inactive, _⟩ | ⟨other, _⟩ | ⟨other, _⟩
    · rw [answers.decided]
      exact ((watched.deadline deadline armed).2 previous isPrevious).trans late
    · rw [watched.no_stop inactive] at isPrevious
      cases isPrevious
    · rw [other] at kind
      cases kind
    · rw [other] at kind
      cases kind

theorem Watched.no_profit_concat (watched : replay.Watched opening exits state)
    (answers : replay.AnswersRow state row exit) : ∀ earlier ∈ exits, earlier.kind = .stopLoss →
      exit.kind ≠ .takeProfit := by
  intro earlier inside stopped
  rcases exitSignal_cases answers.signal with
    ⟨kind, _⟩ | ⟨kind, _⟩ | ⟨_, _, inactive, _⟩ | ⟨kind, _⟩
  · simp [kind]
  · simp [kind]
  · have among : earlier ∈ exits.filter isStop :=
      List.mem_filter.mpr ⟨inside, decide_eq_true stopped⟩
    rw [watched.no_stop inactive] at among
    cases among
  · simp [kind]

/-- The exit that a watched row sends keeps the bounds. -/
theorem Watched.schedule_concat (inRange : replay.params.InRange)
    (watched : replay.Watched opening exits state) (member : row ∈ replay.tape.rows)
    (answers : replay.AnswersRow state row exit) : replay.ExitSchedule opening (exits ++ [exit]) := by
  obtain ⟨notEntry, most⟩ := exitSignal_target inRange answers.held.le answers.signal
  have schedule := watched.schedule
  have last : ∀ order ∈ exits ++ [exit], order ∈ exits ∨ order = exit := by
    intro order inside
    simpa using inside
  refine ⟨schedule.opens, fun order inside => ?_, watched.stops_concat answers,
    watched.takeProfits_concat answers, watched.flattens_concat answers,
    fun entry opened filled order inside => ?_, ?_, watched.firstStop_concat member answers,
    watched.laterStops_concat answers, ?_, fun past other future split => ?_,
    fun past other future split closed => ?_⟩
  · rcases last order inside with earlier | rfl
    · exact schedule.sells order earlier
    · exact notEntry
  · rcases last order inside with earlier | rfl
    · exact schedule.afterEntry entry opened filled order earlier
    · rw [answers.decided]
      exact (watched.since entry opened filled).trans answers.effective
  · refine List.pairwise_append.mpr ⟨schedule.afterExit, List.pairwise_singleton _ _, ?_⟩
    intro earlier inside order isLast
    obtain rfl := List.mem_singleton.mp isLast
    rw [answers.decided]
    exact (watched.waits earlier inside).trans answers.effective
  · refine List.pairwise_append.mpr ⟨schedule.noProfitAfterStop, List.pairwise_singleton _ _, ?_⟩
    intro earlier inside order isLast
    obtain rfl := List.mem_singleton.mp isLast
    exact watched.no_profit_concat answers earlier inside
  · rcases List.concat_eq_append_cons_iff.mp split with ⟨_, rfl, rfl⟩ | ⟨front, _, earlier⟩
    · rw [← watched.position]
      exact most
    · exact schedule.within past other front earlier
  · rcases List.concat_eq_append_cons_iff.mp split with ⟨done, _, _⟩ | ⟨front, _, earlier⟩
    · exact done
    · -- an exit that had closed the position would have left nothing for this one
      obtain rfl := schedule.closes past other front earlier closed
      have held := answers.held
      rw [watched.position, earlier, closed] at held
      exact absurd held (lt_irrefl _)

/-- Where no fraction leaves a part, every exit asks for the whole position. -/
theorem AnswersRow.whole (answers : replay.AnswersRow state row exit)
    (whole : WholeExits replay.params) :
    exit.outcome.requestedSharesScaled = state.positionShares := by
  rcases exitSignal_cases answers.signal with
    ⟨_, target, _⟩ | ⟨_, target, _, _, stop, configured, _⟩ | ⟨_, target, _, _, configured⟩ |
    ⟨_, target, _⟩
  · exact target
  · rw [target, whole.1 (Option.isSome_of_mem configured)]
    exact Int.mul_ediv_cancel _ (by norm_num)
  · rw [target, whole.2 configured]
    exact Int.mul_ediv_cancel _ (by norm_num)
  · exact target

theorem bookExit_positionShares (state : RunState) (exit : SentOrder) :
    (bookExit state exit).positionShares =
      state.positionShares - exit.outcome.filledSharesScaled := by
  unfold bookExit
  dsimp only
  split
  · next none => rw [none, sub_zero]
  · rfl

/-- Booking an exit moves none of the flags. -/
theorem bookExit_flags (state : RunState) (exit : SentOrder) :
    (bookExit state exit).takeProfitAttempted = state.takeProfitAttempted ∧
      (bookExit state exit).flattenAttempted = state.flattenAttempted ∧
      (bookExit state exit).stopActive = state.stopActive ∧
      (bookExit state exit).stopAttempts = state.stopAttempts ∧
      (bookExit state exit).positionEffectiveNs = state.positionEffectiveNs ∧
      (bookExit state exit).sent = state.sent ∧
      (bookExit state exit).result.unfilledExitSharesScaled =
        state.result.unfilledExitSharesScaled := by
  unfold bookExit
  dsimp only
  split <;> exact ⟨rfl, rfl, rfl, rfl, rfl, rfl, rfl⟩

/-- The state that an exit leaves. -/
def exitState (replay : Replay) (state : RunState) (row : TapeRow) (exit : SentOrder)
    (context : SimContext) (peak : Option ℤ) : RunState :=
  replay.rearm (bookExit { state with
    context := context, peakAdverse := peak, sent := state.sent ++ [exit] } exit) exit
      row.receivedUtcNs

theorem Watched.exited (inRange : replay.params.InRange)
    (watched : replay.Watched opening exits state) (member : row ∈ replay.tape.rows)
    (answers : replay.AnswersRow state row exit) (context : SimContext) (peak : Option ℤ) :
    replay.Exited opening (exits ++ [exit]) (replay.exitState state row exit context peak) := by
  have schedule := watched.schedule_concat inRange member answers
  obtain ⟨_, _, _, _, _, sent, unreported⟩ := bookExit_flags { state with
    context := context, peakAdverse := peak, sent := state.sent ++ [exit] } exit
  have position := bookExit_positionShares { state with
    context := context, peakAdverse := peak, sent := state.sent ++ [exit] } exit
  have most := (exitSignal_target inRange answers.held.le answers.signal).2
  have within := answers.within
  refine ⟨schedule, ?_, ?_, ?_, fun order inside => ?_, fun whole past other future split => ?_, ?_,
    fun none => by simp at none, unreported.trans watched.unreported⟩
  · change (bookExit _ exit).sent = _
    rw [sent, watched.sent, List.append_assoc]
  · change (bookExit _ exit).positionShares = _
    rw [position, heldAfterExits_concat, ← watched.position]
  · change 0 ≤ (bookExit _ exit).positionShares
    rw [position]
    dsimp only
    omega
  · rcases List.mem_append.mp inside with earlier | last
    · exact watched.filled order earlier
    · obtain rfl := List.mem_singleton.mp last
      exact within
  · rcases List.concat_eq_append_cons_iff.mp split with ⟨_, rfl, rfl⟩ | ⟨front, _, earlier⟩
    · rw [← watched.position]
      exact answers.whole whole
    · exact watched.asks whole past other front earlier
  · intro last isLast
    rw [List.getLast?_concat] at isLast
    obtain rfl := Option.some.inj isLast
    rfl

@[simp] theorem exitReasonOf_eq_stopLoss {kind : OrderKind} :
    exitReasonOf kind = .stopLoss ↔ kind = .stopLoss := by
  cases kind <;> simp [exitReasonOf]

@[simp] theorem exitReasonOf_eq_takeProfit {kind : OrderKind} :
    exitReasonOf kind = .takeProfit ↔ kind = .takeProfit := by
  cases kind <;> simp [exitReasonOf]

theorem exitReasonOf_flatten {kind : OrderKind} (flattens : kind = .flatten) :
    exitReasonOf kind = .flattenBeforeEnd := by
  rw [flattens]
  rfl

/-- The flags after an exit that leaves something to sell. -/
theorem exitState_flags {context : SimContext} {peak : Option ℤ}
    (held : 0 < (replay.exitState state row exit context peak).positionShares) :
    let after := replay.exitState state row exit context peak
    after.takeProfitAttempted = (state.takeProfitAttempted || isTakeProfit exit) ∧
      (after.flattenAttempted = false → state.flattenAttempted = false ∧ isFlatten exit = false) ∧
      after.stopActive = (state.stopActive || isStop exit) ∧
      after.stopAttempts = state.stopAttempts + (if isStop exit = true then 1 else 0) ∧
      after.positionEffectiveNs = max state.positionEffectiveNs exit.outcome.arrivalUtcNs ∧
      ∀ deadline ∈ after.stopDeadlineNs, isStop exit = true ∧
        after.stopAttempts ≤ replay.params.stopRetryLimit ∧
        exit.outcome.arrivalUtcNs + replay.params.stopRetryIntervalMs * 1000000 ≤ deadline := by
  obtain ⟨takeProfit, flatten, active, attempts, effective, _, _⟩ := bookExit_flags { state with
    context := context, peakAdverse := peak, sent := state.sent ++ [exit] } exit
  unfold exitState rearm at held ⊢
  generalize bookExit _ exit = booked at takeProfit flatten active attempts effective held ⊢
  have stopped : (0 < booked.positionShares ∧ exitReasonOf exit.kind = .stopLoss) ↔
      isStop exit = true := by
    simp [show 0 < booked.positionShares from held, isStop]
  dsimp only at takeProfit flatten active attempts effective ⊢
  simp only [stopped]
  refine ⟨?_, fun off => ?_, ?_, ?_, ?_, fun deadline armed => ?_⟩
  · rw [takeProfit]
    simp [isTakeProfit]
  · rw [flatten] at off
    obtain ⟨wasOff, other⟩ := Bool.or_eq_false_iff.mp off
    refine ⟨wasOff, decide_eq_false fun own => of_decide_eq_false other ?_⟩
    exact exitReasonOf_flatten own
  · rw [active]
    simp
  · rw [attempts]
    by_cases own : isStop exit = true <;> simp [own]
  · rw [effective]
  · rw [Option.mem_def, Option.ite_none_right_eq_some] at armed
    obtain ⟨⟨own, few⟩, same⟩ := armed
    obtain rfl := Option.some.inj same
    rw [if_pos own] at few ⊢
    exact ⟨own, by omega, by omega⟩

/-- The flags go on to tell the exits while something is held. -/
theorem Watched.goes_on (inRange : replay.params.InRange)
    (watched : replay.Watched opening exits state) (member : row ∈ replay.tape.rows)
    (answers : replay.AnswersRow state row exit) {context : SimContext} {peak : Option ℤ}
    (held : 0 < (replay.exitState state row exit context peak).positionShares) :
    replay.Watched opening (exits ++ [exit]) (replay.exitState state row exit context peak) := by
  obtain ⟨takeProfit, flatten, active, attempts, effective, deadlines⟩ := exitState_flags held
  have counted : (exits ++ [exit]).countP isStop =
      exits.countP isStop + if isStop exit = true then 1 else 0 := by
    rw [List.countP_append, List.countP_singleton]
  refine ⟨watched.exited inRange member answers context peak, fun off => ?_, fun off => ?_, ?_,
    fun deadline armed => ?_, ?_, fun entry opened filled => ?_, fun order inside => ?_⟩
  · rw [takeProfit] at off
    obtain ⟨wasOff, other⟩ := Bool.or_eq_false_iff.mp off
    rw [List.countP_append, List.countP_singleton, watched.takeProfit wasOff, other]
    rfl
  · obtain ⟨wasOff, other⟩ := flatten off
    rw [List.countP_append, List.countP_singleton, watched.flatten wasOff, other]
    rfl
  · rw [active, Bool.or_eq_true, watched.stop, List.filter_append]
    cases own : isStop exit <;> simp [own]
  · obtain ⟨own, few, late⟩ := deadlines deadline armed
    refine ⟨?_, fun last isLast => ?_⟩
    · rw [attempts, watched.attempts] at few
      rw [counted]
      exact few
    · rw [List.filter_append, List.filter_singleton, own] at isLast
      change last ∈ (_ ++ [exit]).getLast? at isLast
      rw [List.getLast?_concat] at isLast
      obtain rfl := Option.some.inj isLast
      exact late
  · rw [attempts, watched.attempts, counted]
  · rw [effective]
    exact (watched.since entry opened filled).trans (le_max_left _ _)
  · rw [effective]
    rcases List.mem_append.mp inside with earlier | last
    · exact (watched.waits order earlier).trans (le_max_left _ _)
    · obtain rfl := List.mem_singleton.mp last
      exact le_max_right _ _

end Concat

/-! ## Entries -/

/-- An attempt moves none of the flags, and its orders take effect by the instant it states. -/
theorem attemptEntry_flags {state : RunState} {row : TapeRow} {ask : ℤ} {spend : Option ℤ}
    {limited : Bool} {attempt : EntryAttempt} {parent : List SentOrder}
    (ran : replay.attemptEntry cash state row ask spend limited = .ok attempt)
    (sent : attempt.state.sent = state.sent ++ parent) :
    attempt.state.stopActive = state.stopActive ∧
      attempt.state.stopAttempts = state.stopAttempts ∧
      attempt.state.exitReason = state.exitReason ∧
      attempt.state.result.unfilledExitSharesScaled = state.result.unfilledExitSharesScaled ∧
      ∀ entry ∈ parent, replay.effectiveNs entry ≤ attempt.effectiveNs := by
  unfold attemptEntry at ran
  split at ran
  · next immediate =>
    obtain ⟨shares, _, ran⟩ := Except.bind_eq_ok.mp ran
    obtain ⟨⟨outcome, context⟩, _, ran⟩ := Except.bind_eq_ok.mp ran
    obtain rfl := Except.pure_eq_ok.mp ran
    obtain rfl := List.append_cancel_left sent
    refine ⟨rfl, rfl, rfl, rfl, fun entry member => ?_⟩
    obtain rfl := List.mem_singleton.mp member
    rw [effectiveNs, if_pos immediate]
  · next sequential =>
    obtain ⟨⟨children, objective, context⟩, _, ran⟩ := Except.bind_eq_ok.mp ran
    obtain rfl := Except.pure_eq_ok.mp ran
    obtain rfl := List.append_cancel_left sent
    refine ⟨rfl, rfl, rfl, rfl, fun entry member => ?_⟩
    obtain ⟨child, _, rfl⟩ := List.mem_map.mp member
    rw [effectiveNs, if_neg sequential]
    exact le_max_right _ _

/-- Nothing has been sold, and no flag says otherwise. -/
structure Unsold (state : RunState) : Prop where
  inactive : state.stopActive = false
  attempts : state.stopAttempts = 0
  reason : state.exitReason = .settlement ∨ state.exitReason = .noEntry
  unreported : state.result.unfilledExitSharesScaled = 0

/-- Orders that only opened a position leave nothing for the flags to tell. -/
theorem Unsold.watched {state : RunState} {opening : List SentOrder} (unsold : Unsold state)
    (sent : state.sent = opening) (opens : ∀ order ∈ opening, order.kind = .entry)
    (position : state.positionShares = totalShares (outcomesOf opening))
    (nonneg : 0 ≤ state.positionShares)
    (since : ∀ entry ∈ opening, entry.outcome.filled = true →
      replay.effectiveNs entry ≤ state.positionEffectiveNs) :
    replay.Watched opening [] state where
  schedule := .nil opens
  sent := by rw [sent, List.append_nil]
  position := by simp [position, heldAfterExits, outcomesOf, totalShares]
  nonneg := nonneg
  filled exit member := by cases member
  asks _ past exit future split := by simp at split
  reason last isLast := by cases isLast
  deliberate _ := unsold.reason
  unreported := unsold.unreported
  takeProfit _ := rfl
  flatten _ := rfl
  stop := by simp [unsold.inactive]
  deadline _ _ := ⟨Nat.zero_le _, fun last isLast => by cases isLast⟩
  attempts := unsold.attempts
  since := since
  waits exit member := by cases member

theorem Flat.watched {state : RunState} (flat : replay.Flat state) (unsold : Unsold state) :
    replay.Watched state.sent [] state := by
  refine unsold.watched rfl (fun order member => (flat.idle order member).kind) ?_
    flat.positionShares.ge fun entry member filled => ?_
  · rw [flat.positionShares, (Idle.totals flat.idle).1]
  · rw [(flat.idle entry member).unfilled] at filled
    cases filled

/-- A loop that holds nothing has sold nothing. -/
theorem Flat.unsold {state : RunState} {opening exits : List SentOrder} (flat : replay.Flat state)
    (watched : replay.Watched opening exits state) : exits = [] ∧ Unsold state := by
  have none : exits = [] := by
    refine List.eq_nil_iff_forall_not_mem.mpr fun exit member => ?_
    refine watched.schedule.sells exit member (flat.idle exit ?_).kind
    rw [watched.sent]
    exact List.mem_append_right _ member
  subst none
  refine ⟨rfl, ?_, watched.attempts, watched.deliberate rfl, watched.unreported⟩
  rw [← Bool.not_eq_true, watched.stop]
  simp

/-! ## Whole runs -/

/-- A running loop whose flags tell the exits it has sent. -/
structure Tracked (replay : Replay) (cash : CashAvailability) (state : RunState) : Prop where
  running : replay.Running cash state
  watched : ∃ opening exits, replay.Watched opening exits state

theorem Tracked.initialState (replay : Replay) (cash : CashAvailability) :
    replay.Tracked cash replay.initialState where
  running := .inl (.initialState replay)
  watched := ⟨_, _, (Flat.initialState replay).watched ⟨rfl, rfl, .inr rfl, rfl⟩⟩

/-- A row met while no exit is watched keeps the flags true. -/
theorem entryStep_watched (inRange : replay.params.InRange) {state : RunState} {row : TapeRow}
    {flow : Flow RunState} (tracked : replay.Tracked cash state)
    (ran : replay.entryStep cash state row = .ok flow) :
    ∃ opening exits, replay.Watched opening exits flow.state := by
  obtain ⟨opening, exits, watched⟩ := tracked.watched
  unfold entryStep at ran
  split at ran
  · cases ran
    exact ⟨_, _, watched⟩
  next ask signal =>
  obtain ⟨empty, from_, window, _⟩ := entrySignal_eq_some signal
  have flat : replay.Flat state := tracked.running.resolve_right fun held => by omega
  obtain ⟨_, unsold⟩ := flat.unsold watched
  obtain ⟨⟨spend, limited⟩, spends, ran⟩ := Except.bind_eq_ok.mp ran
  dsimp only at ran
  split at ran
  · obtain rfl := Except.pure_eq_ok.mp ran
    exact ⟨_, _, watched⟩
  next legal =>
  obtain ⟨attempt, attemptRan, ran⟩ := Except.bind_eq_ok.mp ran
  obtain ⟨parent, attempts⟩ :=
    attemptEntry_spec inRange window flat.entryCashDebited legal spends attemptRan
  obtain ⟨active, count, reason, unreported, effective⟩ :=
    attemptEntry_flags attemptRan attempts.sent
  split at ran
  · next filled =>
    obtain ⟨opened, openedRan, ran⟩ := Except.bind_eq_ok.mp ran
    obtain rfl := Except.pure_eq_ok.mp ran
    have sent := openPosition_sent openedRan
    obtain ⟨side, _, openedRan⟩ := Except.bind_eq_ok.mp openedRan
    obtain rfl := Except.pure_eq_ok.mp openedRan
    have still : Unsold { attempt.state with exitReason := .settlement } :=
      ⟨active.trans unsold.inactive, count.trans unsold.attempts, .inl rfl,
        unreported.trans unsold.unreported⟩
    refine ⟨state.sent ++ parent, [], Unsold.watched
      ⟨still.inactive, still.attempts, still.reason, still.unreported⟩ (sent.trans attempts.sent) ?_ ?_ ?_ ?_⟩
    · intro order member
      rcases List.mem_append.mp member with idle | own
      · exact (flat.idle order idle).kind
      · exact (attempts.parent.marks order own).1
    · rw [outcomesOf_append, totalShares_append, (Idle.totals flat.idle).1, zero_add]
      exact attempts.shares
    · exact (of_decide_eq_true filled : 0 < attempt.outcome.filledSharesScaled).le
    · intro entry member isFilled
      rcases List.mem_append.mp member with idle | own
      · rw [(flat.idle entry idle).unfilled] at isFilled
        cases isFilled
      · exact effective entry own
  · next unfilled =>
    obtain rfl := Except.pure_eq_ok.mp ran
    refine ⟨_, _, (flat.attempt attempts from_ (by simpa using unfilled)).watched
      ⟨active.trans unsold.inactive, count.trans unsold.attempts, ?_,
        unreported.trans unsold.unreported⟩⟩
    rw [reason]
    exact unsold.reason

/-- A watched row keeps the bounds, and the flags while something is held. -/
theorem exitStep_watched (inRange : replay.params.InRange) {state : RunState} {row : TapeRow}
    {flow : Flow RunState} (member : row ∈ replay.tape.rows)
    (tracked : replay.Tracked cash state) (watches : watchesExit state row = true)
    (ran : replay.exitStep state row = .ok flow) :
    (∃ opening exits, replay.Exited opening exits flow.state) ∧
      ∀ after, flow = .next after → ∃ opening exits, replay.Watched opening exits after := by
  obtain ⟨opening, exits, watched⟩ := tracked.watched
  rcases exitStep_answers watches ran with
    ⟨context, peak, rfl⟩ | ⟨context, peak, exit, answers, stateIs, runs⟩
  · have kept : replay.Watched opening exits
        { state with context := context, peakAdverse := peak } :=
      ⟨⟨watched.schedule, watched.sent, watched.position, watched.nonneg, watched.filled,
        watched.asks, watched.reason, watched.deliberate, watched.unreported⟩, watched.takeProfit, watched.flatten, watched.stop,
        watched.deadline, watched.attempts, watched.since, watched.waits⟩
    refine ⟨⟨_, _, kept.toExited⟩, fun after running => ?_⟩
    cases running
    exact ⟨_, _, kept⟩
  · change flow.state = replay.exitState state row exit context peak at stateIs
    refine ⟨⟨opening, exits ++ [exit], ?_⟩, ?_⟩
    · rw [stateIs]
      exact watched.exited inRange member answers context peak
    · rintro after rfl
      change after = _ at stateIs
      subst stateIs
      exact ⟨_, _, watched.goes_on inRange member answers (runs _ rfl)⟩

/-- The orders of a completed replay: those that opened a position, and its exits in their bounds. -/
theorem trace_exited (inRange : replay.params.InRange) {final : RunState}
    (ran : replay.trace cash = .ok final) :
    ∃ opening exits, replay.Exited opening exits final := by
  have kept : ∀ {state : RunState}, replay.Tracked cash state →
      ∃ opening exits, replay.Exited opening exits state := by
    intro state tracked
    obtain ⟨opening, exits, watched⟩ := tracked.watched
    exact ⟨opening, exits, watched.toExited⟩
  refine forLoop_ends (replay.Tracked cash)
    (fun state => ∃ opening exits, replay.Exited opening exits state)
    (.initialState replay cash) ?_ ?_ (fun _ tracked => kept tracked) ran
  · intro state row after member tracked stepped
    refine ⟨step_running inRange member tracked.running stepped, ?_⟩
    unfold step at stepped
    split at stepped
    · cases stepped
    split at stepped
    · next watches => exact (exitStep_watched inRange member tracked watches stepped).2 after rfl
    · exact entryStep_watched inRange tracked stepped
  · intro state row after member tracked stepped
    unfold step at stepped
    split at stepped
    · cases stepped
      exact kept tracked
    split at stepped
    · next watches => exact (exitStep_watched inRange member tracked watches stepped).1
    · obtain ⟨next, same, _⟩ := entryStep_spec inRange member tracked.running stepped
      cases same

end Replay

end PolymarketBt
