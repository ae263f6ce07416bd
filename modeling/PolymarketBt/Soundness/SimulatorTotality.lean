import PolymarketBt.Proofs.FastSim.EntryReturns
import PolymarketBt.Soundness.EpisodeLedger

/-! # Failing to trade is a result

On a well-formed tape a row that exits, a row that enters with one order and a row that works a parent
sized in shares always return. A sequential parent sized by its spend is planned before it is known to
buy anything, and a plan of no shares is refused: a spend that does not pay for one unit at the ask
ends the run in an error.
-/

namespace PolymarketBt

open Machine

namespace Replay

variable {replay : Replay} {cash : CashAvailability} {state : RunState} {row : TapeRow}

/-! ## Exits -/

theorem exitStep_exists (replayable : replay.Replayable) (held : 0 < state.positionShares)
    (small : state.positionShares ≤ quotable) :
    ∃ flow, replay.exitStep state row = .ok flow ∧ flow.state.positionShares ≤ quotable := by
  have returned : (replay.exitStep state row).Returns := by
    refine Except.Returns.bind ?_ fun order _ => ?_
    · unfold maybeExit
      split
      · exact ⟨_, rfl⟩
      next kind target signal =>
      split
      · exact ⟨_, rfl⟩
      have most : target ≤ state.positionShares :=
        (exitSignal_target replayable.valid.inRange held.le signal).2
      have askable : Askable (replay.exitRequest row.tokenIndex row kind target) :=
        ⟨most.trans small, nofun, fun _ => ⟨none, rfl⟩⟩
      obtain ⟨outcome, context, sent, _⟩ :=
        send_exists replayable.toServes askable state.context
      exact ⟨_, Except.bind_eq_ok.mpr ⟨(outcome, context), sent, rfl⟩⟩
    · obtain ⟨order, context⟩ := order
      cases order <;> exact ⟨_, rfl⟩
  obtain ⟨flow, ran⟩ := returned
  refine ⟨flow, ran, ?_⟩
  rcases exitStep_spec replayable.valid.inRange held ran with
    ⟨context, peak, rfl⟩ | ⟨exit, exits, _⟩
  · exact small
  · have nonneg := exits.balanced.filled_nonneg
    rw [exits.positionShares]
    omega

/-! ## Entries -/

theorem walletAt_returns (returns : ∀ timestampNs, (cashAt cash timestampNs).Returns)
    (entryCashDebited timestampNs : ℤ) :
    (cashAt (some (replay.walletAt cash entryCashDebited)) timestampNs).Returns := by
  obtain ⟨external, ran⟩ := returns timestampNs
  exact ⟨_, Except.bind_eq_ok.mpr ⟨_, Except.bind_eq_ok.mpr ⟨external, ran, rfl⟩, rfl⟩⟩

theorem entrySignal_tradable (inRange : replay.params.InRange) {ask : ℤ}
    (signal : replay.entrySignal state row = some ask) : Tradable ask := by
  obtain ⟨_, _, _, _, _, above, below⟩ := entrySignal_eq_some signal
  exact ⟨inRange.trigger_range.1.trans_le above, below.trans inRange.limit_range.2⟩

/-- The spend of a parent is positive, and is there whenever the parent is not sized in shares. -/
theorem entrySpend_exists (replayable : replay.Replayable)
    (returns : ∀ timestampNs, (cashAt cash timestampNs).Returns) (state : RunState)
    (timestamp : ℤ) :
    ∃ spend limited, replay.entrySpend cash state timestamp = .ok (spend, limited) ∧
      (∀ amount ∈ spend, 0 < amount ∧ amount ≤ 2 ^ 63) ∧
      (replay.params.orderSharesScaled = none → spend.isSome) := by
  have sized := replayable.valid.checked.sizing
  unfold entrySpend
  split
  · next notional source configured =>
    have positive := replayable.valid.inRange.notional_pos notional configured
    have small := replayable.notional_small notional configured
    obtain ⟨seen, ran⟩ : (cashAt (some (replay.walletAt (some source) state.entryCashDebited))
      timestamp).Returns := walletAt_returns returns _ _
    obtain ⟨now, ran, _⟩ := Except.bind_eq_ok.mp ran
    refine ⟨_, _, Except.bind_eq_ok.mpr ⟨now, ran, rfl⟩, ?_, fun _ => rfl⟩
    rintro _ ⟨⟩
    split <;> omega
  · refine ⟨_, _, rfl, fun amount same => ?_, fun none => ?_⟩
    · exact ⟨replayable.valid.inRange.notional_pos amount same,
        replayable.notional_small amount same⟩
    · rw [none] at sized
      exact Option.isSome_iff_ne_none.mpr (by simpa using sized)

theorem entrySize_exists (replayable : replay.Replayable) (ask : ℤ) :
    ∃ shares, replay.entrySize ask = .ok shares ∧ shares ≤ quotable := by
  have sized := replayable.valid.checked.sizing
  unfold entrySize
  split
  · next shares configured => exact ⟨shares, rfl, replayable.shares_small shares configured⟩
  · next notional _ configured =>
    refine ⟨_, rfl, ?_⟩
    have positive := replayable.valid.inRange.notional_pos notional configured
    have small := replayable.notional_small notional configured
    have numerator : 0 ≤ notional * polymarketPriceScale :=
      mul_nonneg positive.le (by norm_num [polymarketPriceScale])
    refine (Int.ediv_le_self _ numerator).trans ?_
    simp only [quotable, polymarketPriceScale]
    omega
  · next none none' => simp [none, none'] at sized

/-- An attempt leaves the position to whoever books it, and fills a quantity that can be priced. -/
structure Attempted (state : RunState) (attempt : EntryAttempt) : Prop where
  filled : attempt.outcome.filledSharesScaled ≤ quotable
  positionShares : attempt.state.positionShares = state.positionShares

theorem immediateEntry_exists (replayable : replay.Replayable)
    (returns : ∀ timestampNs, (cashAt cash timestampNs).Returns) (ask : ℤ) {spend : Option ℤ}
    (spends : ∀ amount ∈ spend, 0 < amount ∧ amount ≤ 2 ^ 63) (limited : Bool) :
    ∃ attempt, replay.immediateEntry cash state row ask spend limited = .ok attempt ∧
      Attempted state attempt := by
  obtain ⟨shares, sizeRan, small⟩ := entrySize_exists replayable ask
  have askable : Askable (replay.entryRequest cash state row ask spend shares) :=
    ⟨small, fun amount same => (spends amount same).2, walletAt_returns returns _⟩
  obtain ⟨outcome, context, sent, answers⟩ := send_exists replayable.toServes askable state.context
  refine ⟨_, Except.bind_eq_ok.mpr ⟨shares, sizeRan,
    Except.bind_eq_ok.mpr ⟨(outcome, context), sent, rfl⟩⟩, ?_, rfl⟩
  exact (send_spec sent).within.trans (max_le (by norm_num [quotable]) answers.small)

theorem sequentialAttempt_exists (replayable : replay.Replayable) {ask target : ℤ}
    {spend : Option ℤ} (opens : replay.Opens row.receivedUtcNs ask replay.entryToNs spend
      (some (replay.walletAt cash state.entryCashDebited)))
    (targeted : replay.parentTarget spend ask = .ok target) (positive : 0 < target)
    (limited : Bool) :
    ∃ attempt, replay.sequentialAttempt cash state row ask spend limited = .ok attempt ∧
      Attempted state attempt := by
  obtain ⟨children, objective, context, ran, small⟩ :=
    opens.sequentialEntry_exists row.tokenIndex replayable targeted positive state.context
  refine ⟨_, Except.bind_eq_ok.mpr ⟨(children, objective, context), ran, rfl⟩, ?_, rfl⟩
  have balanced : ∀ child ∈ children, child.Balanced replay.executor :=
    fun child member => ((sequentialEntry_spec ran).children child member).balanced
  rw [(aggregateEntryOutcomes_balanced _ _ _ balanced).2.1]
  exact small

theorem openPosition_exists (attempt : EntryAttempt) (tokenIndex : TokenIndex) :
    ∃ opened, replay.openPosition attempt tokenIndex = .ok opened ∧
      opened.positionShares = attempt.outcome.filledSharesScaled := by
  have outcome : ∃ side, replay.tape.episode.tokenOutcome (replay.tape.tokenIdOf tokenIndex) =
      .ok side := by
    unfold Episode.tokenOutcome
    split
    · exact ⟨_, rfl⟩
    next apart =>
    refine ⟨_, if_pos ?_⟩
    cases tokenIndex with
    | up => exact absurd rfl apart
    | down => rfl
  obtain ⟨side, ran⟩ := outcome
  exact ⟨_, Except.bind_eq_ok.mpr ⟨side, ran, rfl⟩, rfl⟩

/-! ## Which rows return -/

/-- The row opens a sequential parent sized by this spend at this ask. -/
structure OpensNotional (replay : Replay) (cash : CashAvailability) (state : RunState) (row : TapeRow)
    (ask spend : ℤ) : Prop where
  open_market : row.receivedUtcNs ≤ replay.tape.episode.endUtcNs
  signal : replay.entrySignal state row = some ask
  sequential : replay.params.entryExecutionPolicy ≠ .immediate
  ahead : row.receivedUtcNs < replay.executionDeadlineNs row.receivedUtcNs replay.entryToNs
  sized : replay.params.orderSharesScaled = none
  spend : ∃ limited, replay.entrySpend cash state row.receivedUtcNs = .ok (some spend, limited)

/-- One unit at the price fits the spend, its fee included. -/
def PaysForUnit (replay : Replay) (priceScaled spendScaled : ℤ) : Prop :=
  ∃ cost, replay.executor.costOf priceScaled 1 = .ok cost ∧ cost ≤ spendScaled

/-- A spend buys something exactly when it pays for one unit. -/
theorem paysForUnit_iff (replayable : replay.Replayable) {ask spend target : ℤ}
    (priced : Tradable ask) (spends : 0 < spend ∧ spend ≤ 2 ^ 63)
    (ran : replay.executor.maxAffordableShares spend ask none = .ok target) :
    replay.PaysForUnit ask spend ↔ 0 < target := by
  obtain ⟨cost, one⟩ := TakerExecutor.costOf_exists replayable.chargeable priced
    (by norm_num : (0 : ℤ) ≤ 1) (by norm_num [quotable])
  rw [TakerExecutor.maxAffordableShares_pos_iff replayable.chargeable priced spends.1 spends.2 one ran]
  constructor
  · rintro ⟨_, same, fits⟩
    obtain rfl := Except.ok.inj (one.symm.trans same)
    exact fits
  · exact fun fits => ⟨cost, one, fits⟩

section Step

variable (replayable : replay.Replayable)
  (returns : ∀ timestampNs, (cashAt cash timestampNs).Returns)

include replayable returns

/-- A row that signals an entry in time is attempted, unless its parent has nothing to buy. -/
theorem attemptEntry_exists {ask : ℤ} {spend : Option ℤ} {limited : Bool}
    (open_market : row.receivedUtcNs ≤ replay.tape.episode.endUtcNs)
    (signal : replay.entrySignal state row = some ask)
    (spent : replay.entrySpend cash state row.receivedUtcNs = .ok (spend, limited))
    (legal : ¬(replay.params.entryExecutionPolicy ≠ .immediate ∧
      replay.executionDeadlineNs row.receivedUtcNs replay.entryToNs ≤ row.receivedUtcNs))
    (pays : ∀ amount, replay.OpensNotional cash state row ask amount →
      replay.PaysForUnit ask amount) :
    ∃ attempt, replay.attemptEntry cash state row ask spend limited = .ok attempt ∧
      Attempted state attempt := by
  obtain ⟨_, _, same, spends, sized⟩ :=
    entrySpend_exists replayable returns state row.receivedUtcNs
  obtain ⟨rfl, rfl⟩ := Prod.mk.inj (Except.ok.inj (same.symm.trans spent))
  unfold attemptEntry
  split
  · exact immediateEntry_exists replayable returns ask spends _
  next sequential =>
  have ahead := not_le.mp fun late => legal ⟨sequential, late⟩
  have priced := entrySignal_tradable replayable.valid.inRange signal
  have opens : replay.Opens row.receivedUtcNs ask replay.entryToNs _
      (some (replay.walletAt cash state.entryCashDebited)) :=
    ⟨ahead, priced, spends, sized, walletAt_returns returns _⟩
  obtain ⟨target, targeted, _⟩ := opens.parentTarget_exists replayable
  refine sequentialAttempt_exists replayable opens targeted ?_ _
  unfold parentTarget at targeted
  cases shares : replay.params.orderSharesScaled with
  | some size =>
    rw [shares] at targeted
    obtain rfl := Except.ok.inj targeted
    exact replayable.valid.inRange.shares_pos _ shares
  | none =>
    obtain ⟨amount, rfl⟩ := Option.isSome_iff_exists.mp (sized shares)
    rw [shares] at targeted
    exact (paysForUnit_iff replayable priced (spends amount rfl) targeted).mp
      (pays amount ⟨open_market, signal, sequential, ahead, shares, _, spent⟩)

theorem entryStep_exists (open_market : row.receivedUtcNs ≤ replay.tape.episode.endUtcNs)
    (small : state.positionShares ≤ quotable)
    (pays : ∀ ask amount, replay.OpensNotional cash state row ask amount →
      replay.PaysForUnit ask amount) :
    ∃ flow, replay.entryStep cash state row = .ok flow ∧ flow.state.positionShares ≤ quotable := by
  unfold entryStep
  split
  · exact ⟨_, rfl, small⟩
  next ask signal =>
  obtain ⟨spend, limited, spent, _⟩ :=
    entrySpend_exists replayable returns state row.receivedUtcNs
  rw [spent, Except.ok_bind]
  dsimp only
  split
  · exact ⟨_, rfl, small⟩
  next legal =>
  obtain ⟨attempt, ran, attempted⟩ :=
    attemptEntry_exists replayable returns open_market signal spent legal (pays ask)
  rw [ran, Except.ok_bind]
  split
  · obtain ⟨opened, openedRan, held⟩ := openPosition_exists attempt row.tokenIndex
    rw [openedRan]
    exact ⟨_, rfl, held.trans_le attempted.filled⟩
  · exact ⟨_, rfl, attempted.positionShares.trans_le small⟩

theorem pays_of_entryStep {ask amount : ℤ} (returned : (replay.entryStep cash state row).Returns)
    (opens : replay.OpensNotional cash state row ask amount) : replay.PaysForUnit ask amount := by
  obtain ⟨limited, spent⟩ := opens.spend
  obtain ⟨_, _, same, spends, sized⟩ :=
    entrySpend_exists replayable returns state row.receivedUtcNs
  obtain ⟨rfl, _⟩ := Prod.mk.inj (Except.ok.inj (same.symm.trans spent))
  have priced := entrySignal_tradable replayable.valid.inRange opens.signal
  have parent : replay.Opens row.receivedUtcNs ask replay.entryToNs (some amount)
      (some (replay.walletAt cash state.entryCashDebited)) :=
    ⟨opens.ahead, priced, spends, sized, walletAt_returns returns _⟩
  obtain ⟨target, targeted, _⟩ := parent.parentTarget_exists replayable
  have attempted : (replay.attemptEntry cash state row ask (some amount) limited).Returns := by
    obtain ⟨flow, ran⟩ := returned
    rw [entryStep, opens.signal] at ran
    dsimp only at ran
    rw [spent, Except.ok_bind, if_neg fun late => not_lt.mpr late.2 opens.ahead] at ran
    obtain ⟨attempt, ran, _⟩ := Except.bind_eq_ok.mp ran
    exact ⟨attempt, ran⟩
  rw [attemptEntry, if_neg opens.sequential] at attempted
  obtain ⟨result, ran, _⟩ := Except.bind_returns.mp attempted
  have positive := (parent.sequentialEntry_returns_iff row.tokenIndex replayable targeted
    state.context).mp ⟨result, ran⟩
  unfold parentTarget at targeted
  rw [opens.sized] at targeted
  exact (paysForUnit_iff replayable priced (spends amount rfl) targeted).mpr positive

/-- A row returns exactly when the spend of every parent it opens pays for a unit, and leaves a
position that can be priced. -/
theorem step_returns_iff (small : state.positionShares ≤ quotable) :
    ((replay.step cash state row).Returns ↔ ∀ ask amount,
      replay.OpensNotional cash state row ask amount → replay.PaysForUnit ask amount) ∧
    ∀ flow, replay.step cash state row = .ok flow → flow.state.positionShares ≤ quotable := by
  by_cases late : replay.tape.episode.endUtcNs < row.receivedUtcNs
  · rw [step, if_pos late]
    refine ⟨iff_of_true ⟨_, rfl⟩ fun ask amount opens => absurd late opens.open_market.not_gt, ?_⟩
    rintro _ ⟨⟩
    exact small
  by_cases watched : watchesExit state row = true
  · have held : 0 < state.positionShares := by
      simp only [watchesExit, Bool.and_eq_true, decide_eq_true_eq] at watched
      exact watched.1.1
    obtain ⟨flow, ran, kept⟩ : ∃ flow, replay.exitStep state row = .ok flow ∧
        flow.state.positionShares ≤ quotable := exitStep_exists replayable held small
    rw [step, if_neg late, if_pos watched, ran]
    refine ⟨iff_of_true ⟨_, rfl⟩ fun ask amount opens => ?_, ?_⟩
    · exact absurd held (entrySignal_eq_some opens.signal).1.not_gt
    · rintro _ ⟨⟩
      exact kept
  · rw [step, if_neg late, if_neg watched]
    have entered := entryStep_exists replayable returns (not_lt.mp late) small
    refine ⟨⟨fun returned ask amount => pays_of_entryStep replayable returns returned,
      fun pays => ?_⟩, fun flow ran => ?_⟩
    · obtain ⟨flow, ran, _⟩ := entered pays
      exact ⟨flow, ran⟩
    · obtain ⟨_, same, kept⟩ := entered fun ask amount =>
        pays_of_entryStep replayable returns ⟨flow, ran⟩
      obtain rfl := Except.ok.inj (same.symm.trans ran)
      exact kept

/-- A trace returns exactly when the spend of every parent it opens pays for a unit. -/
theorem trace_returns_iff : (replay.trace cash).Returns ↔
    ∀ past row future state, replay.tape.rows = past ++ row :: future →
      Reaches (replay.step cash) replay.initialState past state →
      ∀ ask amount, replay.OpensNotional cash state row ask amount →
        replay.PaysForUnit ask amount := by
  have reached {past : List TapeRow} {state : RunState}
      (reaches : Reaches (replay.step cash) replay.initialState past state) :
      state.positionShares ≤ quotable := by
    refine reaches.invariant (fun state => state.positionShares ≤ quotable)
      (by norm_num [initialState, quotable]) ?_
    exact fun state row after _ small ran => (step_returns_iff replayable returns small).2 _ ran
  unfold trace
  rw [forLoop_returns_iff]
  constructor
  · intro each past row future state split reaches
    exact (step_returns_iff replayable returns (reached reaches)).1.mp
      (each past row future state split reaches)
  · intro pays past row future state split reaches
    exact (step_returns_iff replayable returns (reached reaches)).1.mpr
      (pays past row future state split reaches)

end Step

end Replay

namespace ThresholdHoldSimulator

variable {simulator : ThresholdHoldSimulator} {tape : EpisodeTape} {cash : CashAvailability}

/-- Valid parameters, a fee schedule and a latency that can be evaluated, quantities within reach of
the decimal context, and a tape in order whose books and prints are well formed. -/
structure Simulates (simulator : ThresholdHoldSimulator) (tape : EpisodeTape) : Prop where
  valid : simulator.params.Valid
  chargeable : (simulator.episodeRealism tape.episode).fee.Chargeable
  sampled : simulator.realism.latency ≠ .empirical []
  shares_small : ∀ shares ∈ simulator.params.orderSharesScaled, shares ≤ quotable
  notional_small : ∀ notional ∈ simulator.params.orderNotionalScaled, notional ≤ 2 ^ 63
  ordered : tape.Ordered
  trades : tape.TradesOrdered
  sizes : ∀ trade ∈ tape.trades, 0 ≤ trade.sizeScaled
  priced : ∀ row ∈ tape.rows, ∀ side, PricedLadder (row.ladder side)
  strict : ∀ row ∈ tape.rows, ∀ side, StrictLadder side (row.ladder side)
  asks : ∀ row ∈ tape.rows, ∀ ask ∈ row.bestAskScaled, 0 < ask
  minimum : 0 ≤ tape.episode.minimumOrderSizeScaled

theorem Simulates.replayOf_exists (simulates : simulator.Simulates tape) :
    ∃ replay, simulator.replayOf tape = .ok replay ∧ replay.tape = tape ∧ replay.Replayable := by
  obtain ⟨model, made⟩ := FeeModel.init_returns simulates.chargeable
  have config : model.config = (simulator.episodeRealism tape.episode).fee := by
    obtain ⟨_, _, ran⟩ := Except.bind_eq_ok.mp made
    obtain rfl := Except.pure_eq_ok.mp ran
    rfl
  refine ⟨_, Except.bind_eq_ok.mpr ⟨model, made, rfl⟩, rfl, ⟨⟨?_, simulates.sampled, simulates.priced⟩,
    simulates.valid, simulates.shares_small, simulates.notional_small, by positivity,
    simulates.ordered, simulates.trades, simulates.sizes, simulates.strict, simulates.asks,
    simulates.minimum⟩⟩
  rw [config]
  exact simulates.chargeable

/-- The ladders of the example hold one level each. -/
theorem exampleTape_ladders : ∀ row ∈ exampleTape.rows, ∀ side, ∃ price size,
    row.ladder side = [(price, size)] ∧ Tradable price := by
  intro row member side
  rcases List.mem_pair.mp member with rfl | rfl <;> cases side
  · exact ⟨780000, 5000000, by decide, by norm_num [Tradable, polymarketPriceScale]⟩
  · exact ⟨800000, 7000000, by decide, by norm_num [Tradable, polymarketPriceScale]⟩
  · exact ⟨690000, 1500000, by decide, by norm_num [Tradable, polymarketPriceScale]⟩
  · exact ⟨720000, 7000000, by decide, by norm_num [Tradable, polymarketPriceScale]⟩

theorem Simulates.exampleTape (valid : simulator.params.Valid)
    (chargeable : simulator.realism.fee.Chargeable)
    (sampled : simulator.realism.latency ≠ .empirical [])
    (shares : ∀ shares ∈ simulator.params.orderSharesScaled, shares ≤ quotable)
    (notional : ∀ notional ∈ simulator.params.orderNotionalScaled, notional ≤ 2 ^ 63) :
    simulator.Simulates exampleTape := by
  refine ⟨valid, chargeable, sampled, shares, notional, ?_, ?_, ?_, ?_, ?_, ?_, ?_⟩
  · simp [EpisodeTape.Ordered, ThresholdHoldSimulator.exampleTape, TapeBuilder.exampleRow, fallenRow]
  · simp [EpisodeTape.TradesOrdered, ThresholdHoldSimulator.exampleTape, tradeStamps]
  · simp [ThresholdHoldSimulator.exampleTape]
  · intro row member side
    obtain ⟨price, size, ladder, priced⟩ := exampleTape_ladders row member side
    simpa [PricedLadder, ladder] using priced
  · intro row member side
    obtain ⟨price, size, ladder, _⟩ := exampleTape_ladders row member side
    simp [StrictLadder, ladder]
  · decide
  · decide

/-- A sequential parent sized by one micro-unit, with the smallest fee of the default schedule. -/
def dustSimulator : ThresholdHoldSimulator :=
  ⟨{ exampleParams .twap with orderSharesScaled := none, orderNotionalScaled := some 1 },
    { exampleRealism with fee := { exampleRealism.fee with minimumFee := 1 / 1000000 } },
    fun _ => ⟨fun _ => 0, fun _ => 0⟩⟩

end ThresholdHoldSimulator

end PolymarketBt
