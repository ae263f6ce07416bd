import PolymarketBt.Proofs.FastSim.ParentReturns

/-! # Executing a parent on a well-formed tape

On a tape in order, whose books and prints are well formed and whose numbers can be priced, every
decision of a parent returns and keeps its session settled. Opening the parent is then the only
thing that can fail, and it fails exactly where the target of its plan is not positive.
-/

namespace PolymarketBt

open Machine

namespace SequentialExecutionSession

variable {parent : ParentOrder} {session : SequentialExecutionSession} {lastNs nowUtcNs : ℤ}

theorem Settled.later (settled : Settled parent lastNs session) (later : lastNs ≤ nowUtcNs) :
    Settled parent nowUtcNs session :=
  ⟨settled.idle, settled.filled, settled.inventory, settled.cash, settled.volume,
    settled.watched.trans later, fun stamp member => (settled.decided stamp member).trans later,
    fun stamp member => (settled.acted stamp member).trans later, settled.fills, settled.timely⟩

theorem fill_le_total {fills : List ExecutionFill}
    (nonneg : ∀ fill ∈ fills, 0 ≤ fill.sharesScaled) :
    ∀ fill ∈ fills, fill.sharesScaled ≤ (fills.map ExecutionFill.sharesScaled).sum := by
  intro fill member
  refine List.single_le_sum (fun size inSizes => ?_) _ (List.mem_map_of_mem member)
  obtain ⟨other, inFills, rfl⟩ := List.mem_map.mp inSizes
  exact nonneg other inFills

/-- A settled buy of a bounded target is scored at its deadline. -/
theorem Settled.evaluate_returns (settled : Settled parent lastNs session)
    (buys : parent.plan.side = .buy) (small : parent.plan.targetSharesScaled ≤ quotable)
    (benchmark : Tradable parent.plan.benchmarkPriceScaled) {mark : ℤ} (marked : 0 < mark) :
    (session.evaluate parent parent.plan.deadlineUtcNs (some mark)).Returns := by
  have sizes := fill_le_total fun fill member => (settled.timely fill member).2.1
  rw [settled.fills] at sizes
  have scored (price : ExecutionFill → ℤ) (inRange : ∀ fill ∈ session.fills, 0 ≤ price fill ∧
      price fill ≤ polymarketPriceScale) :
      (session.fills.mapM fun fill => notionalScaled fill.sharesScaled (price fill)).Returns := by
    refine Except.mapM_returns fun fill member => ?_
    obtain ⟨_, nonneg, _⟩ := settled.timely fill member
    obtain ⟨notional, ran, _⟩ := notionalScaled_exists nonneg
      ((sizes fill member).trans (settled.filled.2.trans small)) (inRange fill member)
    exact ⟨notional, ran⟩
  obtain ⟨notionals, notionalsRan⟩ := scored ExecutionFill.priceScaled fun fill member =>
    ⟨(settled.timely fill member).2.2.1.le, (settled.timely fill member).2.2.2⟩
  obtain ⟨adverse, adverseRan⟩ := scored (fun fill => max 0 (fill.priceScaled - mark))
    fun fill member => by
      obtain ⟨_, _, priced⟩ := settled.timely fill member
      exact ⟨le_max_left _ _, max_le (by decide) (by have := priced.2; omega)⟩
  obtain ⟨lower, upper⟩ := settled.filled
  obtain ⟨filled, filledRan, _⟩ := notionalScaled_exists lower (upper.trans small)
    ⟨benchmark.1.le, benchmark.2⟩
  obtain ⟨unfilled, unfilledRan, _⟩ := notionalScaled_exists
    (by omega : 0 ≤ parent.plan.targetSharesScaled - session.filledSharesScaled) (by omega)
    ⟨benchmark.1.le, benchmark.2⟩
  unfold evaluate evaluateExecutionObjective
  have idle : session.pending.isNone = true := by rw [settled.idle]; rfl
  rw [require_ok idle, Except.ok_bind, require_ok le_rfl, Except.ok_bind,
    require_ok (.inr (by simpa using marked)), Except.ok_bind,
    require_ok fun fill member => (settled.timely fill member).1, Except.ok_bind]
  dsimp only
  rw [settled.fills, require_ok upper, Except.ok_bind, filledRan, Except.ok_bind, notionalsRan,
    Except.ok_bind, unfilledRan, Except.ok_bind, buys]
  unfold adverseMarkout
  dsimp only
  rw [adverseRan, Except.ok_bind]
  exact ⟨_, rfl⟩

end SequentialExecutionSession

namespace Replay

variable {replay : Replay}

/-- A replay that serves orders of a bounded size, on a tape in order whose books and prints are
well formed. -/
structure Replayable (replay : Replay) : Prop extends replay.Serves where
  valid : replay.params.Valid
  shares_small : ∀ shares ∈ replay.params.orderSharesScaled, shares ≤ quotable
  notional_small : ∀ notional ∈ replay.params.orderNotionalScaled, notional ≤ 2 ^ 63
  venue : 0 ≤ replay.takerDelayNs
  ordered : replay.tape.Ordered
  trades : replay.tape.TradesOrdered
  sizes : ∀ trade ∈ replay.tape.trades, 0 ≤ trade.sizeScaled
  strict : ∀ row ∈ replay.tape.rows, ∀ side, StrictLadder side (row.ladder side)
  asks : ∀ row ∈ replay.tape.rows, ∀ ask ∈ row.bestAskScaled, 0 < ask
  minimum : 0 ≤ replay.tape.episode.minimumOrderSizeScaled

/-- A parent that buys a bounded quantity of a token within the limits of the replay. -/
structure Buys (replay : Replay) (entry : ParentEntry) (decisionNs limit : ℤ) : Prop extends
    Plans entry decisionNs entry.parent.plan.deadlineUtcNs limit where
  small : entry.parent.plan.targetSharesScaled ≤ quotable
  benchmark : Tradable entry.parent.plan.benchmarkPriceScaled
  reference : entry.referencePriceScaled = entry.parent.plan.benchmarkPriceScaled
  prints : entry.parent.trades = replay.tape.trades
  cash : ∀ timestampNs, (cashAt entry.cash timestampNs).Returns

/-- A settled session that holds what its children filled. -/
structure Accounted (entry : ParentEntry) (lastNs : ℤ) (run : ParentRun) : Prop where
  settled : run.session.Settled entry.parent lastNs
  filled : totalShares run.outcomes = run.session.filledSharesScaled

/-- The answer to a child that is sent. -/
theorem answered_of_sends (serves : replay.Serves) (venue : 0 ≤ replay.takerDelayNs)
    {entry : ParentEntry} {decisionNs limit : ℤ} (buys : replay.Buys entry decisionNs limit)
    {session : SequentialExecutionSession} {spent nowNs : ℤ} {action : ExecutionAction}
    (positive : 0 < action.requestedSharesScaled) {outcome : ExecutionOutcome}
    (solvent : 0 ≤ session.cashScaled)
    (sends : replay.Sends (childRequest entry session spent nowNs action) outcome)
    (answers : Answers (childRequest entry session spent nowNs action) outcome) :
    SequentialExecutionSession.Answered entry.parent session nowNs action outcome := by
  have requested : outcome.requestedSharesScaled = action.requestedSharesScaled :=
    answers.requested rfl
  have within := sends.within
  rw [requested, max_eq_right positive.le] at within
  have sizes : ∀ slice ∈ outcome.slices, 0 < slice.sizeScaled :=
    fun slice member => (sends.balanced.priced slice member).size_pos
  refine ⟨requested, sends.decided, sends.arrived venue, fun filled => ?_, sends.balanced.shares,
    sends.balanced.notional, sends.balanced.fees, fun slice member => ?_, within, ?_⟩
  · exact sends.deadline filled _ (congrArg some buys.horizon)
  · have priced := answers.priced slice member
    have most := size_le_sliceShares sizes slice member
    rw [← sends.balanced.shares] at most
    obtain ⟨fee, feeRan, nonneg⟩ := FeeModel.calculate_exists serves.chargeable
      (sizes slice member).le (most.trans (within.trans (requested ▸ answers.small)))
      ⟨priced.1.le, priced.2⟩
    have same := Except.ok.inj (feeRan.symm.trans (sends.balanced.priced slice member).fee)
    exact ⟨sizes slice member, priced, same ▸ nonneg⟩
  · cases filled : outcome.filled with
    | false =>
      obtain ⟨_, _, notional, fees⟩ := sends.balanced.of_unfilled filled
      rwa [ExecutionOutcome.cost, notional, fees]
    | true =>
      obtain ⟨seen, seenRan, fits⟩ := sends.cash rfl filled
      obtain ⟨value, childRan, rest⟩ := Except.bind_eq_ok.mp seenRan
      obtain rfl := Except.pure_eq_ok.mp rest
      obtain ⟨external, _, rest⟩ := Except.bind_eq_ok.mp childRan
      obtain rfl := Except.pure_eq_ok.mp rest
      have affordable := (fits _ rfl).2
      omega

theorem childCash_returns {entry : ParentEntry} (cash : ∀ timestampNs,
    (cashAt entry.cash timestampNs).Returns) (session : SequentialExecutionSession) (spent : ℤ)
    (timestampNs : ℤ) : (cashAt (some (childCash entry session spent)) timestampNs).Returns := by
  obtain ⟨external, ran⟩ := cash timestampNs
  refine ⟨_, Except.bind_eq_ok.mpr ⟨_, Except.bind_eq_ok.mpr ⟨external, ran, rfl⟩, rfl⟩⟩

/-- A child is sent and accounted for. -/
theorem workChild_exists (replayable : replay.Replayable) {entry : ParentEntry}
    {decisionNs limit : ℤ} (buys : replay.Buys entry decisionNs limit) {run : ParentRun}
    {nowNs : ℤ} {action : ExecutionAction} (waits : run.session.Waits entry.parent nowNs action)
    (filled : totalShares run.outcomes = run.session.filledSharesScaled) :
    ∃ flow, replay.workChild entry run nowNs action = .ok flow ∧
      Accounted entry nowNs flow.state := by
  have askable : Askable (childRequest entry run.session run.externallySpent nowNs action) := by
    refine ⟨?_, by rintro _ ⟨⟩, childCash_returns buys.cash _ _⟩
    have remaining := waits.sized.2
    have nonneg := waits.settled.filled.1
    have small := buys.small
    unfold SequentialExecutionSession.remainingSharesScaled at remaining
    dsimp only at nonneg
    exact remaining.trans (by omega)
  obtain ⟨outcome, context, sent, answers⟩ :=
    send_exists replayable.toServes askable run.context
  have solvent : 0 ≤ run.session.cashScaled := waits.settled.cash
  have answered := answered_of_sends replayable.toServes replayable.venue buys waits.sized.1
    solvent (send_spec sent) answers
  obtain ⟨session, recorded, settled, more⟩ :=
    SequentialExecutionSession.recordOutcome_exists waits buys.side answered
  have total : totalShares (run.outcomes ++ [outcome]) = session.filledSharesScaled := by
    rw [more, ← filled]
    simp [totalShares]
  refine ⟨_, Except.bind_eq_ok.mpr ⟨_, sent, Except.bind_eq_ok.mpr ⟨session, recorded, rfl⟩⟩, ?_⟩
  split <;> exact ⟨settled, total⟩

/-- One decision of a parent returns, whatever the instant shows. -/
theorem decideChild_exists (replayable : replay.Replayable) {entry : ParentEntry}
    {decisionNs limit : ℤ} (buys : replay.Buys entry decisionNs limit) {run : ParentRun}
    {lastNs nowNs : ℤ} (accounted : Accounted entry lastNs run) (later : lastNs ≤ nowNs) :
    ∃ flow, replay.decideChild entry run nowNs = .ok flow ∧ Accounted entry nowNs flow.state := by
  have waited : Accounted entry nowNs run := ⟨accounted.settled.later later, accounted.filled⟩
  unfold decideChild
  dsimp only
  cases met : rowAt (replay.rowsOf entry.parent.tokenIndex) nowNs with
  | none => exact ⟨_, rfl, waited⟩
  | some found =>
  obtain ⟨row, position⟩ := found
  dsimp only
  split
  · exact ⟨_, rfl, waited⟩
  have member : row ∈ replay.tape.rows := mem_rows_of_rowAt met
  have shown (side : Side) (context : SimContext) :
      (∀ level ∈ seenLadder entry.parent.tokenIndex row context side, 0 < level.1 ∧ 0 < level.2) ∧
        StrictLadder side (seenLadder entry.parent.tokenIndex row context side) :=
    ⟨fun level inLadder => ⟨(seenLadder_priced _ context (replayable.priced row member side) level
      inLadder).1, seenLadder_positive _ row context side level inLadder⟩,
      seenLadder_strict _ context (replayable.strict row member side)⟩
  obtain ⟨session, action, decided, waits, sends⟩ :=
    SequentialExecutionSession.decide_exists accounted.settled later
      (buys.prints ▸ replayable.sizes)
      (shown .buy (reconcileSelfImpact (replay.rowsOf entry.parent.tokenIndex)
        entry.parent.tokenIndex position run.context)).1
      (shown .sell _).1 (shown .buy _).2 (shown .sell _).2 replayable.minimum
      (replayable.asks row member)
  obtain ⟨_, same, _⟩ := SequentialExecutionSession.decide_spec decided
  have filled := accounted.filled.trans same.symm
  rw [decided, Except.ok_bind]
  dsimp only
  split
  · next kind => exact ⟨_, rfl, waits kind, filled⟩
  · next kind => exact workChild_exists replayable buys (sends kind) filled

theorem decisionInstants_ge (replayable : replay.Replayable) {tokenIndex : TokenIndex}
    {decisionNs deadlineNs : ℤ} (ahead : decisionNs ≤ deadlineNs) :
    ∀ now ∈ replay.decisionInstants tokenIndex decisionNs deadlineNs, decisionNs ≤ now := by
  intro now member
  rcases (mem_decisionInstants replayable.ordered replayable.trades ahead).mp member with
    rfl | rfl | tick | ⟨_, started, _⟩
  · exact le_rfl
  · exact ahead
  · obtain ⟨position, _, rfl⟩ := List.mem_map.mp tick
    have := mul_nonneg (by decide : (0 : ℤ) ≤ decisionIntervalNs)
      (by positivity : (0 : ℤ) ≤ position + 1)
    omega
  · exact started

/-- The decisions of a parent all return, and leave its session settled by the deadline. -/
theorem children_exist (replayable : replay.Replayable) {entry : ParentEntry}
    {decisionNs limit : ℤ} (buys : replay.Buys entry decisionNs limit)
    (ahead : decisionNs ≤ entry.deadlineNs) {session : SequentialExecutionSession}
    (opened : session.Settled entry.parent (decisionNs - 1)) (none : session.filledSharesScaled = 0)
    (context : SimContext) :
    ∃ run lastNs, forLoop (replay.decideChild entry) ⟨session, context, [], 0⟩
        (replay.decisionInstants entry.parent.tokenIndex decisionNs entry.deadlineNs) = .ok run ∧
      Accounted entry lastNs run := by
  have ordered : (replay.decisionInstants entry.parent.tokenIndex decisionNs
      entry.deadlineNs).Pairwise (· ≤ ·) := decisionInstants_sorted _ _ _
  have started : ∀ now ∈ replay.decisionInstants entry.parent.tokenIndex decisionNs
      entry.deadlineNs, decisionNs ≤ now := decisionInstants_ge replayable ahead
  let inv (past : List ℤ) (run : ParentRun) : Prop :=
    Accounted entry (past.getLast?.getD (decisionNs - 1)) run
  have start : inv [] ⟨session, context, [], 0⟩ := ⟨opened, none.symm⟩
  have step : ∀ past item future state, replay.decisionInstants entry.parent.tokenIndex decisionNs
      entry.deadlineNs = past ++ item :: future → inv past state →
      ∃ flow, replay.decideChild entry state item = .ok flow ∧ inv (past ++ [item]) flow.state := by
    intro past item future state split accounted
    have stamped : (past ++ [item]).getLast?.getD (decisionNs - 1) = item := by
      rw [List.getLast?_concat, Option.getD_some]
    change ∃ flow, replay.decideChild entry state item = .ok flow ∧
      Accounted entry ((past ++ [item]).getLast?.getD (decisionNs - 1)) flow.state
    rw [stamped]
    refine decideChild_exists replayable buys accounted ?_
    cases last : past.getLast? with
    | none =>
      have := started item (by rw [split]; simp)
      rw [Option.getD_none]
      omega
    | some earlier =>
      rw [split] at ordered
      exact (List.pairwise_append.mp ordered).2.2 earlier (List.mem_of_getLast? last) item
        List.mem_cons_self
  obtain ⟨run, looped⟩ := forLoop_returns inv start step
  obtain ⟨past, _, _, accounted⟩ := forLoop_history inv start
    (fun past item future state flow split before ran => by
      obtain ⟨_, again, kept⟩ := step past item future state split before
      exact Except.ok.inj (again.symm.trans ran) ▸ kept) looped
  exact ⟨run, _, looped, accounted⟩

/-! ## Opening a parent -/

theorem childPolicy_check (valid : replay.params.InRange) : replay.childPolicy.check = .ok () := by
  unfold childPolicy
  dsimp only
  split
  · exact require_ok (lt_of_lt_of_le one_pos valid.slices_range.1) _
  · refine Except.bind_eq_ok.mpr ⟨(), require_ok valid.participation_range _, ?_⟩
    rfl

theorem sessionCash_exists {maxSpend : Option ℤ} {cash : CashAvailability} {deadlineNs : ℤ}
    (spends : ∀ spend ∈ maxSpend, 0 ≤ spend) (returns : (cashAt cash deadlineNs).Returns) :
    ∃ opening, sessionCash maxSpend cash deadlineNs = .ok opening ∧ 0 ≤ opening := by
  cases maxSpend with
  | some spend => exact ⟨spend, rfl, spends spend rfl⟩
  | none =>
    obtain ⟨external, ran⟩ := returns
    refine ⟨_, Except.bind_eq_ok.mpr ⟨external, ran, rfl⟩, ?_⟩
    cases external with
    | none => norm_num
    | some balance => exact cashAt_nonneg ran rfl

/-- The plan a parent of this size gets. -/
def parentPlan (replay : Replay) (decisionNs reference entryToNs target : ℤ) : ExecutionPlan where
  side := .buy
  targetSharesScaled := target
  startUtcNs := decisionNs
  deadlineUtcNs := replay.executionDeadlineNs decisionNs entryToNs
  benchmarkPriceScaled := reference
  limitPriceScaled := some replay.params.entryLimitPriceScaled

/-- What a parent is opened with. -/
structure Opens (replay : Replay) (decisionNs reference entryToNs : ℤ) (maxSpend : Option ℤ)
    (cash : CashAvailability) : Prop where
  ahead : decisionNs < replay.executionDeadlineNs decisionNs entryToNs
  priced : Tradable reference
  spends : ∀ spend ∈ maxSpend, 0 < spend ∧ spend ≤ 2 ^ 63
  sized : replay.params.orderSharesScaled = none → maxSpend.isSome
  cash : ∀ timestampNs, (cashAt cash timestampNs).Returns

section Parent

variable (tokenIndex : TokenIndex) {decisionNs reference entryToNs target : ℤ}
  {maxSpend : Option ℤ} {cash : CashAvailability}

theorem Opens.parentTarget_exists (replayable : replay.Replayable)
    (opens : replay.Opens decisionNs reference entryToNs maxSpend cash) :
    ∃ target, replay.parentTarget maxSpend reference = .ok target ∧ target ≤ quotable := by
  unfold parentTarget
  cases shares : replay.params.orderSharesScaled with
  | some size => exact ⟨size, rfl, replayable.shares_small size shares⟩
  | none =>
    obtain ⟨spend, rfl⟩ := Option.isSome_iff_exists.mp (opens.sized shares)
    obtain ⟨size, ran, _, small⟩ := TakerExecutor.maxAffordableShares_exists replayable.chargeable
      spend none opens.priced (by simp) fun _ => (opens.spends spend rfl).2
    exact ⟨size, ran, small⟩

theorem Opens.check (opens : replay.Opens decisionNs reference entryToNs maxSpend cash)
    (valid : replay.params.InRange) (positive : 0 < target) :
    (replay.parentPlan decisionNs reference entryToNs target).check = .ok () := by
  refine Except.bind_eq_ok.mpr ⟨(), require_ok positive _, ?_⟩
  refine Except.bind_eq_ok.mpr ⟨(), require_ok opens.ahead _, ?_⟩
  refine Except.bind_eq_ok.mpr ⟨(), require_ok opens.priced.1 _, ?_⟩
  exact require_ok (decide_eq_true valid.limit_range.1) _

/-- A parent with a positive target opens on a settled session. -/
theorem Opens.openParent_exists (replayable : replay.Replayable)
    (opens : replay.Opens decisionNs reference entryToNs maxSpend cash)
    (targeted : replay.parentTarget maxSpend reference = .ok target) (positive : 0 < target)
    (small : target ≤ quotable) :
    ∃ entry session, replay.openParent tokenIndex decisionNs reference entryToNs maxSpend cash =
        .ok (entry, session) ∧
      replay.Buys entry decisionNs replay.params.entryLimitPriceScaled ∧
      entry.parent.tokenIndex = tokenIndex ∧ decisionNs < entry.deadlineNs ∧
      session.Settled entry.parent (decisionNs - 1) ∧ session.filledSharesScaled = 0 := by
  have valid := replayable.valid.inRange
  obtain ⟨opening, openingRan, nonneg⟩ := sessionCash_exists
    (fun spend limited => (opens.spends spend limited).1.le)
    (opens.cash (replay.executionDeadlineNs decisionNs entryToNs))
  have chained : (tradeStamps replay.tape.trades).IsChain (· ≤ ·) :=
    List.isChain_iff_pairwise.mpr replayable.trades
  have opened : replay.openParent tokenIndex decisionNs reference entryToNs maxSpend cash =
      .ok (⟨⟨replay.parentPlan decisionNs reference entryToNs target, replay.childPolicy,
          replay.tape.trades, tokenIndex⟩, maxSpend, cash, reference,
          replay.executionDeadlineNs decisionNs entryToNs⟩,
        ⟨⟨(tradeStamps replay.tape.trades).bisectLeft decisionNs, decisionNs - 1, 0⟩, opening, 0, 0,
          [], none, none, decisionNs, none⟩) := by
    refine Except.bind_eq_ok.mpr ⟨target, targeted, ?_⟩
    refine Except.bind_eq_ok.mpr ⟨(), require_ok opens.ahead _, ?_⟩
    refine Except.bind_eq_ok.mpr ⟨(), opens.check valid positive, ?_⟩
    refine Except.bind_eq_ok.mpr ⟨(), childPolicy_check valid, ?_⟩
    refine Except.bind_eq_ok.mpr ⟨_, Except.bind_eq_ok.mpr ⟨(), require_ok chained _,
      Except.bind_eq_ok.mpr ⟨(), require_ok replayable.sizes _, rfl⟩⟩, ?_⟩
    refine Except.bind_eq_ok.mpr ⟨opening, openingRan, ?_⟩
    refine Except.bind_eq_ok.mpr ⟨_, Except.bind_eq_ok.mpr ⟨(), require_ok nonneg _,
      Except.bind_eq_ok.mpr ⟨(), require_ok le_rfl _,
        Except.bind_eq_ok.mpr ⟨(), require_ok (by simp) _, rfl⟩⟩⟩, rfl⟩
  refine ⟨_, _, opened, ⟨⟨rfl, rfl, rfl, rfl, rfl⟩, small, opens.priced, rfl, rfl, opens.cash⟩, rfl,
    opens.ahead, ?_, rfl⟩
  exact ⟨rfl, ⟨le_rfl, positive.le⟩, le_rfl, nonneg, le_rfl, le_rfl, nofun, nofun, rfl, nofun⟩

theorem deadlineMark_pos (replayable : replay.Replayable) {entry : ParentEntry}
    (priced : 0 < entry.referencePriceScaled) : 0 < replay.deadlineMark entry := by
  unfold deadlineMark
  split
  · exact priced
  · next row position met =>
    have asks := replayable.asks row (mem_rows_of_rowAt met)
    cases ask : row.bestAskScaled with
    | none => exact priced
    | some price => exact asks price ask

theorem Opens.sequentialEntry_exists (replayable : replay.Replayable)
    (opens : replay.Opens decisionNs reference entryToNs maxSpend cash)
    (targeted : replay.parentTarget maxSpend reference = .ok target) (positive : 0 < target)
    (context : SimContext) :
    ∃ outcomes objective after, replay.sequentialEntry tokenIndex decisionNs reference entryToNs
        maxSpend cash context = .ok (outcomes, objective, after) ∧
      totalShares outcomes ≤ quotable := by
  obtain ⟨_, same, small⟩ := opens.parentTarget_exists replayable
  obtain rfl := Except.ok.inj (same.symm.trans targeted)
  obtain ⟨entry, session, opened, buys, rfl, ahead, settled, none⟩ :=
    opens.openParent_exists tokenIndex replayable targeted positive small
  obtain ⟨run, lastNs, looped, accounted⟩ :=
    children_exist replayable buys ahead.le settled none context
  have marked := deadlineMark_pos replayable (buys.reference ▸ buys.benchmark.1)
  obtain ⟨objective, scored⟩ :=
    accounted.settled.evaluate_returns buys.side buys.small buys.benchmark marked
  refine ⟨run.outcomes, objective, run.context, ?_, ?_⟩
  · refine Except.bind_eq_ok.mpr ⟨_, opened, Except.bind_eq_ok.mpr ⟨run, looped, ?_⟩⟩
    refine Except.bind_eq_ok.mpr ⟨objective, ?_, rfl⟩
    rw [buys.horizon]
    exact scored
  · rw [accounted.filled]
    exact accounted.settled.filled.2.trans buys.small

/-- Executing a parent fails exactly where its target is not positive. -/
theorem Opens.sequentialEntry_returns_iff (replayable : replay.Replayable)
    (opens : replay.Opens decisionNs reference entryToNs maxSpend cash)
    (targeted : replay.parentTarget maxSpend reference = .ok target) (context : SimContext) :
    (replay.sequentialEntry tokenIndex decisionNs reference entryToNs maxSpend cash
      context).Returns ↔ 0 < target := by
  constructor
  · rintro ⟨_, ran⟩
    obtain ⟨_, ran, _⟩ := Except.bind_eq_ok.mp ran
    obtain ⟨_, again, ran⟩ := Except.bind_eq_ok.mp ran
    obtain rfl := Except.ok.inj (targeted.symm.trans again)
    dsimp only at ran
    obtain ⟨_, _, ran⟩ := Except.bind_eq_ok.mp ran
    obtain ⟨_, checked, _⟩ := Except.bind_eq_ok.mp ran
    exact require_eq_ok.mp (Except.bind_eq_ok.mp checked).choose_spec.1
  · intro positive
    obtain ⟨_, _, _, ran, _⟩ :=
      opens.sequentialEntry_exists tokenIndex replayable targeted positive context
    exact ⟨_, ran⟩

end Parent

end Replay

end PolymarketBt
