import PolymarketBt.Model.BacktestReport
import PolymarketBt.Soundness.CompoundReplay
import PolymarketBt.Soundness.SweepIsolation
import PolymarketBt.ToMathlib.Drawdown

/-! # A report adds up with the pass it is about

The curve of a report has a row for every entered market in the order of the pass, its last figures
are the ones of the summary, and its drawdown is the deepest fall of the equity. Under a compounding
stake no balance on the curve is negative, so the relative drawdown is a percentage, and a pass that
is left early has nothing left.
-/

namespace PolymarketBt

open Machine StableSort

/-! ## The market of a result -/

/-- What a result says about its market. -/
def EpisodeResult.market (result : EpisodeResult) : String × String × ℤ × ℤ :=
  (result.conditionId, result.marketSlug, result.startUtcNs, result.endUtcNs)

def Episode.market (episode : Episode) : String × String × ℤ × ℤ :=
  (episode.conditionId, episode.marketSlug, episode.startUtcNs, episode.endUtcNs)

namespace Replay

variable {replay : Replay} {cash : CashAvailability} {state : RunState} {row : TapeRow}

theorem bookExit_market (sent : SentOrder) :
    (bookExit state sent).result.market = state.result.market := by
  unfold bookExit
  dsimp only
  by_cases unfilled : sent.outcome.filledSharesScaled = 0
  · rw [if_pos unfilled]
  · rw [if_neg unfilled]
    rfl

theorem exitStep_market {flow : Flow RunState} (ran : replay.exitStep state row = .ok flow) :
    flow.state.result.market = state.result.market := by
  obtain ⟨⟨order, context⟩, _, ran⟩ := Except.bind_eq_ok.mp ran
  dsimp only at ran
  cases order with
  | none =>
    obtain rfl := Except.pure_eq_ok.mp ran
    rfl
  | some sent =>
    obtain ⟨stateIs, _⟩ := stops_flat (Except.pure_eq_ok.mp ran)
    rw [stateIs]
    exact bookExit_market sent

theorem attemptEntry_market {ask : ℤ} {spend : Option ℤ} {limited : Bool} {attempt : EntryAttempt}
    (ran : replay.attemptEntry cash state row ask spend limited = .ok attempt) :
    attempt.state.result.market = state.result.market := by
  unfold attemptEntry at ran
  split at ran
  · obtain ⟨_, _, ran⟩ := Except.bind_eq_ok.mp ran
    obtain ⟨_, _, ran⟩ := Except.bind_eq_ok.mp ran
    obtain rfl := Except.pure_eq_ok.mp ran
    rfl
  · obtain ⟨_, _, ran⟩ := Except.bind_eq_ok.mp ran
    obtain rfl := Except.pure_eq_ok.mp ran
    rfl

theorem entryStep_market {flow : Flow RunState} (ran : replay.entryStep cash state row = .ok flow) :
    flow.state.result.market = state.result.market := by
  unfold entryStep at ran
  split at ran
  · cases ran
    rfl
  obtain ⟨_, _, ran⟩ := Except.bind_eq_ok.mp ran
  dsimp only at ran
  split at ran
  · obtain rfl := Except.pure_eq_ok.mp ran
    rfl
  obtain ⟨attempt, attempted, ran⟩ := Except.bind_eq_ok.mp ran
  split at ran
  · obtain ⟨opened, opening, ran⟩ := Except.bind_eq_ok.mp ran
    obtain rfl := Except.pure_eq_ok.mp ran
    obtain ⟨_, _, opening⟩ := Except.bind_eq_ok.mp opening
    obtain rfl := Except.pure_eq_ok.mp opening
    exact attemptEntry_market attempted
  · obtain rfl := Except.pure_eq_ok.mp ran
    exact attemptEntry_market attempted

theorem step_market {flow : Flow RunState} (ran : replay.step cash state row = .ok flow) :
    flow.state.result.market = state.result.market := by
  unfold step at ran
  split at ran
  · cases ran
    rfl
  split at ran
  · exact exitStep_market ran
  · exact entryStep_market ran

theorem trace_market {final : RunState} (ran : replay.trace cash = .ok final) :
    final.result.market = replay.tape.episode.market := by
  refine forLoop_invariant (fun state => state.result.market = replay.tape.episode.market) rfl
    (fun state row flow _ same stepped => ?_) ran
  exact (step_market stepped).trans same

theorem settle_market (replay : Replay) (state : RunState) :
    (replay.settle state).market = state.result.market := by
  unfold settle
  split <;> rfl

/-- A market that was not entered nets nothing. -/
theorem settle_unentered (ended : replay.Ended cash state)
    (unentered : (replay.settle state).entered = false) : (replay.settle state).netPnlScaled = 0 := by
  rcases ended with flat | ⟨_, _, _, _, _, _, _, entered⟩
  · rw [settle, flat.entered]
    exact flat.net
  · rw [settle, entered.entered] at unentered
    cases entered.entered.symm.trans unentered

end Replay

namespace ThresholdHoldSimulator

variable {simulator : ThresholdHoldSimulator} {tape : EpisodeTape} {cash : CashAvailability}
  {result : EpisodeResult}

theorem run_market (ran : simulator.run tape cash = .ok result) :
    result.market = tape.episode.market := by
  unfold run at ran
  split at ran
  · next eligible =>
    obtain ⟨replay, replayed, ran⟩ := Except.bind_eq_ok.mp ran
    obtain ⟨state, traced, ran⟩ := Except.bind_eq_ok.mp ran
    obtain rfl := Except.pure_eq_ok.mp ran
    obtain ⟨_, tape, _⟩ := replayOf_fields replayed
    rw [Replay.settle_market, Replay.trace_market traced, tape]
  · cases ran
    rfl

theorem run_unentered (inRange : simulator.params.InRange) (ran : simulator.run tape cash = .ok result)
    (unentered : result.entered = false) : result.netPnlScaled = 0 := by
  unfold run at ran
  split at ran
  · obtain ⟨replay, replayed, ran⟩ := Except.bind_eq_ok.mp ran
    obtain ⟨state, traced, ran⟩ := Except.bind_eq_ok.mp ran
    obtain rfl := Except.pure_eq_ok.mp ran
    obtain ⟨params, _, _⟩ := replayOf_fields replayed
    exact Replay.settle_unentered (Replay.trace_ended (params ▸ inRange) traced) unentered
  · cases ran
    rfl

end ThresholdHoldSimulator

/-! ## The wallet of a pass -/

namespace ReplayWallet

variable {opening : ℤ} {wallet final : ReplayWallet} {episode : ResolvedEpisode}

/-- A wallet that calls have led to from its opening; its cash is never negative. -/
def Reached (opening : ℤ) (wallet : ReplayWallet) : Prop :=
  ∃ scheduled, Ledger opening scheduled wallet

theorem Reached.after (reached : Reached opening wallet) (call : WalletCall) :
    Reached opening (wallet.after call) := by
  obtain ⟨scheduled, ledger⟩ := reached
  exact ⟨_, ledger.after call⟩

theorem Reached.equity_nonneg (reached : Reached opening wallet) : 0 ≤ wallet.totalEquityScaled := by
  obtain ⟨_, ledger⟩ := reached
  exact add_nonneg ledger.solvent (sum_amounts_nonneg _)

theorem Reached.foldlM {step : ReplayWallet → SimulatedOrder → Except PyError ReplayWallet}
    (each : ∀ {wallet order final}, Reached opening wallet → step wallet order = .ok final →
      Reached opening final)
    (reached : Reached opening wallet) {orders : List SimulatedOrder}
    (ran : orders.foldlM step wallet = .ok final) : Reached opening final := by
  induction orders generalizing wallet with
  | nil =>
    obtain rfl := Except.pure_eq_ok.mp ran
    exact reached
  | cons order rest ih =>
    rw [List.foldlM_cons] at ran
    obtain ⟨middle, first, ran⟩ := Except.bind_eq_ok.mp ran
    exact ih (each reached first) ran

theorem Reached.scheduleSell (reached : Reached opening wallet) {order : SimulatedOrder}
    (ran : wallet.scheduleSell episode order = .ok final) : Reached opening final := by
  unfold ReplayWallet.scheduleSell at ran
  dsimp only at ran
  split at ran
  · cases ran
  obtain ⟨credit, _, ran⟩ := Except.bind_eq_ok.mp ran
  obtain rfl := Except.pure_eq_ok.mp ran
  exact reached.after (.scheduleCredit credit)

theorem Reached.scheduleSettlement (reached : Reached opening wallet) {result : EpisodeResult}
    (ran : wallet.scheduleSettlement episode result = .ok final) : Reached opening final := by
  unfold ReplayWallet.scheduleSettlement at ran
  split at ran
  · cases ran
    exact reached
  obtain ⟨credit, _, ran⟩ := Except.bind_eq_ok.mp ran
  obtain rfl := Except.pure_eq_ok.mp ran
  exact reached.after (.scheduleCredit credit)

theorem Reached.debitBuy (reached : Reached opening wallet) {order : SimulatedOrder}
    (ran : wallet.debitBuy episode order = .ok final) : Reached opening final := by
  have debited := reached.after (.debit order.arrivalUtcNs (order.notionalScaled + order.feesScaled)
    (order.cashSource episode))
  unfold ReplayWallet.debitBuy at ran
  rw [ReplayWallet.after] at debited
  split at ran
  · cases ran
  · next left returned =>
    cases ran
    rwa [returned] at debited

/-- A booked result moves the equity by its profit, which the booking checks. -/
theorem Reached.applyResult (reached : Reached opening wallet) {result : EpisodeResult}
    (ran : wallet.applyResult episode result = .ok final) :
    Reached opening final ∧
      final.totalEquityScaled = wallet.totalEquityScaled + result.netPnlScaled := by
  obtain ⟨sold, selling, ran⟩ := Except.bind_eq_ok.mp ran
  obtain ⟨settled, settling, ran⟩ := Except.bind_eq_ok.mp ran
  obtain ⟨debited, buying, ran⟩ := Except.bind_eq_ok.mp ran
  dsimp only at ran
  split at ran
  · cases ran
  · next reconciled =>
    obtain rfl := Except.pure_eq_ok.mp ran
    refine ⟨?_, by omega⟩
    have reached := reached.foldlM (fun reached => reached.scheduleSell) selling
    exact (reached.scheduleSettlement settling).foldlM (fun reached => reached.debitBuy) buying

end ReplayWallet

/-! ## What a pass tells -/

/-- The profit of some results. -/
def profitOf (results : List EpisodeResult) : ℤ := (results.map EpisodeResult.netPnlScaled).sum

/-- The markets of some results that were entered. -/
def enteredOf (results : List EpisodeResult) : List EpisodeResult := results.filter (·.entered)

theorem profitOf_concat (results : List EpisodeResult) (result : EpisodeResult) :
    profitOf (results ++ [result]) = profitOf results + result.netPnlScaled := by
  simp [profitOf]

/-- A market that was not entered adds nothing. -/
theorem profitOf_enteredOf {results : List EpisodeResult}
    (idle : ∀ result ∈ results, result.entered = false → result.netPnlScaled = 0) :
    profitOf (enteredOf results) = profitOf results :=
  List.sum_filter_of_zero idle

namespace MarketPass

variable {pass : MarketPass} {episodes past : List ResolvedEpisode} {state : PassState}

/-- What the markets replayed so far leave, under either staking rule. -/
structure Told (pass : MarketPass) (past : List ResolvedEpisode) (state : PassState) : Prop where
  markets : state.results.map EpisodeResult.market =
    past.map fun episode => episode.toEpisode.market
  idle : ∀ result ∈ state.results, result.entered = false → result.netPnlScaled = 0
  going : state.endedEarly = false
  fixed : pass.sizing = .fixed →
    state.balance = pass.startingBalanceScaled + profitOf state.results
  reached : state.wallet.Reached pass.startingBalanceScaled
  equity : pass.sizing = .compound →
    state.wallet.totalEquityScaled = pass.startingBalanceScaled + profitOf state.results
  /-- No balance along the entered markets is negative. -/
  covered : pass.sizing = .compound → ∀ few, few <+: enteredOf state.results →
    0 ≤ pass.startingBalanceScaled + profitOf few

/-- Every tape that is loaded is the one of its market. -/
def LoadsOwn (pass : MarketPass) (episodes : List ResolvedEpisode) : Prop :=
  ∀ episode ∈ episodes, ∀ tape, pass.load episode = .ok tape → tape.episode = episode.toEpisode

theorem Told.initial {wallet : ReplayWallet} (opened : pass.openWallet episodes = .ok wallet) :
    pass.Told [] (pass.initialState wallet) := by
  have built : ReplayWallet.init pass.startingBalanceScaled (firstStartNs episodes) = .ok wallet :=
    opened
  have ledger := ReplayWallet.Ledger.init built
  obtain ⟨account, _⟩ := ReplayWallet.Account.init built
  have equity : wallet.totalEquityScaled = pass.startingBalanceScaled := by
    rw [account.equity]
    simp
  have nothing : profitOf [] = 0 := rfl
  refine ⟨rfl, fun _ member => absurd member List.not_mem_nil, rfl, fun _ => ?_, ⟨_, ledger⟩,
    fun _ => ?_, fun _ few part => ?_⟩
  · change pass.startingBalanceScaled = pass.startingBalanceScaled + profitOf []
    rw [nothing, add_zero]
  · change wallet.totalEquityScaled = pass.startingBalanceScaled + profitOf []
    rw [nothing, add_zero, equity]
  · obtain rfl := List.prefix_nil.mp part
    rw [nothing, add_zero, ← equity]
    exact ReplayWallet.Reached.equity_nonneg ⟨_, ledger⟩

theorem Told.append (told : pass.Told past state) {episode : ResolvedEpisode}
    {result : EpisodeResult} (market : result.market = episode.toEpisode.market)
    (unentered : result.entered = false → result.netPnlScaled = 0) {wallet : ReplayWallet} {balance : ℤ}
    (fixed : pass.sizing = .fixed → balance = state.balance + result.netPnlScaled)
    (reached : wallet.Reached pass.startingBalanceScaled)
    (equity : pass.sizing = .compound →
      wallet.totalEquityScaled = state.wallet.totalEquityScaled + result.netPnlScaled) :
    pass.Told (past ++ [episode])
      { state with wallet := wallet, balance := balance, results := state.results ++ [result] } := by
  have idle : ∀ other ∈ state.results ++ [result], other.entered = false → other.netPnlScaled = 0 := by
    intro other member
    rcases List.mem_append.mp member with old | new
    · exact told.idle other old
    · obtain rfl := List.mem_singleton.mp new
      exact unentered
  have total : pass.sizing = .compound → wallet.totalEquityScaled =
      pass.startingBalanceScaled + profitOf (state.results ++ [result]) := by
    intro compounds
    rw [equity compounds, told.equity compounds, profitOf_concat, add_assoc]
  refine ⟨?_, idle, told.going, fun flat => ?_, reached, total, fun compounds few part => ?_⟩
  · rw [List.map_append, List.map_append, told.markets, List.map_singleton, List.map_singleton, market]
  · change balance = _
    rw [fixed flat, told.fixed flat, profitOf_concat, add_assoc]
  · have all : 0 ≤ pass.startingBalanceScaled + profitOf (enteredOf (state.results ++ [result])) := by
      rw [profitOf_enteredOf idle, ← total compounds]
      exact reached.equity_nonneg
    change few <+: enteredOf (state.results ++ [result]) at part
    rw [enteredOf, List.filter_append, List.filter_singleton] at part
    cases entered : result.entered with
    | false =>
      rw [entered, Bool.cond_false, List.append_nil] at part
      exact told.covered compounds few part
    | true =>
      rw [entered, Bool.cond_true] at part
      rcases List.prefix_concat_iff.mp part with whole | earlier
      · rw [enteredOf, List.filter_append, List.filter_singleton, entered, Bool.cond_true] at all
        rwa [whole]
      · exact told.covered compounds few earlier

/-- An iteration that goes on adds the result of its market. -/
theorem Told.next (told : pass.Told past state) (inRange : pass.params.InRange)
    {episode : ResolvedEpisode}
    (loads : ∀ tape, pass.load episode = .ok tape → tape.episode = episode.toEpisode)
    {after : PassState} (ran : pass.runEpisode state episode = .ok (.next after)) :
    pass.Told (past ++ [episode]) after := by
  unfold runEpisode at ran
  split at ran
  · cases ran
  next funded =>
  obtain ⟨tape, loaded, ran⟩ := Except.bind_eq_ok.mp ran
  cases sizing : pass.sizing with
  | compound =>
    rw [sizing] at ran
    obtain ⟨result, simulated, ran⟩ := Except.bind_eq_ok.mp ran
    obtain ⟨wallet, applied, ran⟩ := Except.bind_eq_ok.mp ran
    obtain rfl := Flow.next.inj (Except.pure_eq_ok.mp ran)
    obtain ⟨reached, equity⟩ := told.reached.applyResult applied
    refine told.append ?_ (ThresholdHoldSimulator.run_unentered
      (compoundSimulator_inRange inRange _) simulated) (fun flat => ?_) reached fun _ => equity
    · rw [ThresholdHoldSimulator.run_market simulated, loads tape loaded]
    · cases sizing.symm.trans flat
  | fixed =>
    rw [sizing] at ran
    obtain ⟨result, simulated, ran⟩ := Except.bind_eq_ok.mp ran
    obtain rfl := Flow.next.inj (Except.pure_eq_ok.mp ran)
    refine told.append ?_ (ThresholdHoldSimulator.run_unentered inRange simulated) (fun _ => rfl)
      told.reached fun compounds => ?_
    · rw [ThresholdHoldSimulator.run_market simulated, loads tape loaded]
    · cases sizing.symm.trans compounds

/-- A pass is left only before a market that finds nothing to stake. -/
theorem runEpisode_stops {episode : ResolvedEpisode} {final : PassState}
    (ran : pass.runEpisode state episode = .ok (.stop final)) :
    pass.sizing = .compound ∧ state.wallet.totalEquityScaled ≤ 0 ∧
      final = { state with endedEarly := true } := by
  unfold runEpisode at ran
  split at ran
  · next broke =>
    obtain rfl := Flow.stop.inj (Except.ok.inj ran)
    exact ⟨broke.1, broke.2, rfl⟩
  obtain ⟨tape, _, ran⟩ := Except.bind_eq_ok.mp ran
  cases sizing : pass.sizing with
  | compound =>
    rw [sizing] at ran
    obtain ⟨_, _, ran⟩ := Except.bind_eq_ok.mp ran
    obtain ⟨_, _, ran⟩ := Except.bind_eq_ok.mp ran
    cases Except.pure_eq_ok.mp ran
  | fixed =>
    rw [sizing] at ran
    obtain ⟨_, _, ran⟩ := Except.bind_eq_ok.mp ran
    cases Except.pure_eq_ok.mp ran

/-- What the outcome of a pass tells: the markets before its end, and what is left at it. -/
structure Tells (pass : MarketPass) (episodes : List ResolvedEpisode) (outcome : RunOutcome) :
    Prop where
  sizing : outcome.sizing = pass.sizing
  opening : outcome.startingBalanceScaled = pass.startingBalanceScaled
  markets : outcome.results.map EpisodeResult.market <+:
    (inOrder episodes).map fun episode => episode.toEpisode.market
  idle : ∀ result ∈ outcome.results, result.entered = false → result.netPnlScaled = 0
  closing : outcome.finalBalanceScaled = pass.startingBalanceScaled + profitOf outcome.results
  early : outcome.endedEarly = true ↔ outcome.results.length < outcome.episodesSelected
  broke : outcome.endedEarly = true → pass.sizing = .compound ∧ outcome.finalBalanceScaled = 0
  covered : pass.sizing = .compound → ∀ few, few <+: enteredOf outcome.results →
    0 ≤ pass.startingBalanceScaled + profitOf few

theorem runEpisodes_tells (inRange : pass.params.InRange) (loads : pass.LoadsOwn episodes)
    {outcome : RunOutcome} (ran : pass.runEpisodes episodes = .ok outcome) :
    pass.Tells episodes outcome := by
  obtain ⟨wallet, opened, ran⟩ := Except.bind_eq_ok.mp ran
  obtain ⟨final, completed, ran⟩ := Except.bind_eq_ok.mp ran
  obtain ⟨past, future, state, split, reached, ends⟩ := forLoop_end_reached completed
  have told : pass.Told past state :=
    reached.history pass.Told (.initial opened) fun before episode rest middle after divided _ told ran => by
      have member : episode ∈ inOrder episodes := by simp [split, divided]
      exact told.next inRange (loads episode (mem_sortByKey.mp member)) ran
  have selected : episodes.length = past.length + future.length := by
    rw [← List.length_append, ← split]
    exact (sortByKey_perm _ episodes).length_eq.symm
  have replayed : state.results.length = past.length := by
    simpa using congrArg List.length told.markets
  have markets : state.results.map EpisodeResult.market <+:
      (inOrder episodes).map fun episode => episode.toEpisode.market := by
    rw [told.markets, split, List.map_append]
    exact List.prefix_append _ _
  -- The pass goes over every market, or stops before one with nothing left.
  have ending : final.results = state.results ∧ final.wallet = state.wallet ∧
      final.balance = state.balance ∧ (final.endedEarly = true ↔ 0 < future.length) ∧
      (final.endedEarly = true →
        pass.sizing = .compound ∧ state.wallet.totalEquityScaled ≤ 0) := by
    rcases ends with ⟨rfl, rfl⟩ | ⟨episode, rest, rfl, stopped⟩
    · refine ⟨rfl, rfl, rfl, ?_, ?_⟩
      · rw [told.going]
        simp
      · rw [told.going]
        nofun
    · obtain ⟨compounds, broke, rfl⟩ := runEpisode_stops stopped
      exact ⟨rfl, rfl, rfl, by simp, fun _ => ⟨compounds, broke⟩⟩
  obtain ⟨results, kept, balance, early, broke⟩ := ending
  have early : final.endedEarly = true ↔ final.results.length < episodes.length := by
    rw [early, results]
    omega
  cases sizing : pass.sizing with
  | fixed =>
    rw [sizing] at ran
    obtain rfl := Except.pure_eq_ok.mp ran
    refine ⟨sizing.symm, rfl, results ▸ markets, results ▸ told.idle, ?_, early, fun stopped => ?_,
      fun compounds => ?_⟩
    · change final.balance = _ + profitOf final.results
      rw [balance, results, told.fixed sizing]
    · cases sizing.symm.trans (broke stopped).1
    · cases sizing.symm.trans compounds
  | compound =>
    rw [sizing] at ran
    dsimp only at ran
    split at ran
    · cases ran
    next cash reached advanced =>
    obtain rfl := Except.pure_eq_ok.mp ran
    have equity : reached.totalEquityScaled = state.wallet.totalEquityScaled := by
      have same := @ReplayWallet.totalEquityScaled_advanceTo final.wallet
        (max final.wallet.now (horizonNs final))
      rw [advanced] at same
      rw [← kept]
      exact same
    refine ⟨sizing.symm, rfl, results ▸ markets, results ▸ told.idle, ?_, early, fun stopped => ?_,
      fun _ => results ▸ told.covered sizing⟩
    · change reached.totalEquityScaled = _ + profitOf final.results
      rw [equity, results, told.equity sizing]
    · refine ⟨sizing, ?_⟩
      change reached.totalEquityScaled = 0
      rw [equity]
      exact le_antisymm (broke stopped).2 told.reached.equity_nonneg

end MarketPass

/-! ## The walk along the entered markets -/

/-- The equity of some results, one after the other, from nothing on. -/
def equitySeries (results : List EpisodeResult) : List ℤ :=
  (results.map EpisodeResult.netPnlScaled).scanl (· + ·) 0

/-- The curve of a sweep walks along the equity of its results. -/
theorem EquityCurve.foldl_add (results : List EpisodeResult) (curve : EquityCurve) :
    ((results.foldl EquityCurve.add curve).peak, (results.foldl EquityCurve.add curve).drawdown) =
      ((results.map EpisodeResult.netPnlScaled).scanl (· + ·) curve.equity).tail.foldl
        Drawdown.step (curve.peak, curve.drawdown) := by
  induction results generalizing curve with
  | nil => rfl
  | cons result rest ih =>
    rw [List.foldl_cons, ih (curve.add result), List.map_cons, List.scanl_cons, List.tail_cons]
    cases rest with
    | nil => rfl
    | cons next later =>
      rw [List.map_cons, List.scanl_cons, List.scanl_cons, List.foldl_cons]
      rfl

/-- The drawdown of a sweep is the deepest fall of its equity. -/
theorem foldl_add_isDeepest (results : List EpisodeResult) :
    Drawdown.IsDeepest (equitySeries results) (results.foldl EquityCurve.add {}).drawdown := by
  have walked : (results.foldl EquityCurve.add {}).drawdown =
      ((equitySeries results).tail.foldl Drawdown.step (0, 0)).2 :=
    congrArg Prod.snd (EquityCurve.foldl_add results {})
  have head : equitySeries results = 0 :: (equitySeries results).tail := by
    unfold equitySeries
    cases results <;> simp
  have deepest := Drawdown.foldl_isDeepest 0 (equitySeries results).tail
  rw [← head] at deepest
  rw [walked]
  exact deepest

namespace BacktestReport

/-- What the walk has found along some results from a starting balance. -/
structure Walks (compounding : Bool) (opening : ℤ) (past : List EpisodeResult) (walk : EquityWalk) :
    Prop where
  equity : walk.equity = profitOf past
  balance : walk.balance = opening + profitOf past
  rows : walk.curve.map (fun row => (row.startUtcNs, row.slug)) =
    past.map fun result => (result.startUtcNs, result.marketSlug)
  last : ∀ row ∈ walk.curve.getLast?, row.cumulativeUsd = usd walk.equity ∧
    row.balanceUsd = if compounding then some (usd walk.balance) else none
  peak : opening ≤ walk.peakBalance ∧ walk.balance ≤ walk.peakBalance
  drawdown : 0 < opening → (∀ few, few <+: past → 0 ≤ opening + profitOf few) →
    0 ≤ walk.balanceDrawdownPpm ∧ walk.balanceDrawdownPpm ≤ 1000000 ∧
      (walk.balance = 0 → walk.balanceDrawdownPpm = 1000000)

theorem Walks.start (compounding : Bool) (opening : ℤ) :
    Walks compounding opening [] (.start opening) := by
  have nothing : profitOf [] = 0 := rfl
  refine ⟨rfl, (add_zero _).symm, rfl, fun row last => ?_, ⟨le_rfl, le_rfl⟩,
    fun funded _ => ⟨le_rfl, Int.natCast_nonneg 1000000, fun broke => ?_⟩⟩
  · cases last
  · change opening = 0 at broke
    omega

/-- A balance between zero and its peak has lost a part of the peak. -/
theorem lost_range {peak balance : ℤ} (positive : 0 < peak) (solvent : 0 ≤ balance)
    (below : balance ≤ peak) :
    0 ≤ (peak - balance) * 1000000 / peak ∧ (peak - balance) * 1000000 / peak ≤ 1000000 := by
  refine ⟨Int.ediv_nonneg (by omega) positive.le, Int.ediv_le_of_le_mul positive ?_⟩
  rw [mul_comm]
  exact mul_le_mul_of_nonneg_left (by omega) (by decide)

theorem Walks.add {compounding : Bool} {opening : ℤ} {past : List EpisodeResult}
    {walk : EquityWalk} (walks : Walks compounding opening past walk) (result : EpisodeResult) :
    Walks compounding opening (past ++ [result]) (walk.add compounding result) := by
  have equity : walk.equity + result.netPnlScaled = profitOf (past ++ [result]) := by
    rw [walks.equity, profitOf_concat]
  have balance : walk.balance + result.netPnlScaled = opening + profitOf (past ++ [result]) := by
    rw [walks.balance, profitOf_concat, add_assoc]
  have raised : opening ≤ max walk.peakBalance (walk.balance + result.netPnlScaled) :=
    walks.peak.1.trans (le_max_left ..)
  refine ⟨equity, balance, ?_, fun row last => ?_, ⟨raised, le_max_right ..⟩, fun funded covered => ?_⟩
  · change (walk.curve ++ [_]).map _ = _
    rw [List.map_append, List.map_append, walks.rows]
    rfl
  · change row ∈ (walk.curve ++ [_]).getLast? at last
    rw [List.getLast?_append_of_ne_nil _ (List.cons_ne_nil _ _), List.getLast?_singleton] at last
    obtain rfl := Option.some.inj last
    exact ⟨rfl, rfl⟩
  · have solvent : 0 ≤ walk.balance + result.netPnlScaled := by
      rw [balance]
      exact covered _ (List.prefix_refl _)
    obtain ⟨lower, upper, _⟩ := walks.drawdown funded fun few part =>
      covered few (part.trans (List.prefix_append _ _))
    have positive : 0 < max walk.peakBalance (walk.balance + result.netPnlScaled) := by omega
    obtain ⟨some, all⟩ := lost_range positive solvent (le_max_right ..)
    have deeper : (walk.add compounding result).balanceDrawdownPpm =
        max walk.balanceDrawdownPpm
          ((max walk.peakBalance (walk.balance + result.netPnlScaled) -
            (walk.balance + result.netPnlScaled)) * 1000000 /
              max walk.peakBalance (walk.balance + result.netPnlScaled)) := if_pos positive
    rw [deeper]
    refine ⟨some.trans (le_max_right ..), max_le upper all, fun broke => ?_⟩
    change walk.balance + result.netPnlScaled = 0 at broke
    rw [broke, sub_zero, Int.mul_ediv_cancel_left _ (broke ▸ positive).ne']
    exact max_eq_right upper

theorem walks_foldl (compounding : Bool) (opening : ℤ) (results : List EpisodeResult) :
    Walks compounding opening results
      (results.foldl (EquityWalk.add compounding) (.start opening)) := by
  induction results using List.reverseRecOn with
  | nil => exact .start compounding opening
  | append_singleton past result ih =>
    rw [List.foldl_append]
    exact ih.add result

/-! ## Figures -/

theorem nearest_intCast {n : ℤ} (fits : |n| < 2 ^ 53) : Binary64.nearest n = n := by
  simpa using Binary64.nearest_exact 0 fits

/-- A whole number is rounded to itself. -/
theorem roundPlaces_intCast (places : ℕ) {n : ℤ} (fits : |n| < 2 ^ 53) : roundPlaces places n = n := by
  have scaled : (n : ℚ) * 10 ^ places = ((n * 10 ^ places : ℤ) : ℚ) := by push_cast; rfl
  have back : ((n * 10 ^ places : ℤ) : ℚ) / 10 ^ places = n := by
    rw [← scaled]
    exact mul_div_cancel_right₀ _ (by positivity)
  rw [roundPlaces, scaled, Decimal.roundHalfEven_intCast, back, nearest_intCast fits]

theorem usd_zero : usd 0 = 0 := by
  have zero := @roundPlaces_intCast 2 0 (by norm_num)
  rw [usd, Int.cast_zero, zero_div, Binary64.nearest, if_pos rfl]
  exact_mod_cast zero

theorem pct_whole : pct 1000000 = 100 := by
  have whole := @roundPlaces_intCast 2 100 (by norm_num)
  have exact_ := @nearest_intCast 100 (by norm_num)
  have quotient : ((1000000 : ℤ) : ℚ) / 10000 = (100 : ℤ) := by norm_num
  rw [pct, quotient, exact_, whole]
  norm_num

/-- Everything lost is a return of minus one hundred percent. -/
theorem percentOf_lost {opening : ℤ} (funded : 0 < opening) :
    percentOf (0 - opening) opening = some (-100) := by
  have whole := @roundPlaces_intCast 2 (-100) (by norm_num)
  have exact_ := @nearest_intCast (-100) (by norm_num)
  have nonzero : (opening : ℚ) ≠ 0 := by exact_mod_cast funded.ne'
  have quotient : ((100 * (0 - opening) : ℤ) : ℚ) / opening = (-100 : ℤ) := by
    push_cast
    field_simp
    ring
  rw [percentOf, if_neg funded.ne', quotient, exact_, whole]
  norm_num

/-! ## The report -/

/-- The figures of a report agree with each other and with the pass. -/
structure AddsUp (run : RunOutcome) (report : Payload) : Prop where
  /-- A row for every entered market, in the order of the pass. -/
  rows : report.equityCurve.map (fun row => (row.startUtcNs, row.slug)) =
    (enteredOf run.results).map fun result => (result.startUtcNs, result.marketSlug)
  profit : ∀ row ∈ report.equityCurve.getLast?, row.cumulativeUsd = report.summary.netProfitUsd
  deepest : ∃ depth, report.summary.maxDrawdownUsd = usd depth ∧
    Drawdown.IsDeepest (equitySeries (enteredOf run.results)) depth
  early : report.summary.staking.endedEarly = true ↔
    0 < report.summary.staking.marketsNeverReached

/-- The figures that only a compounding stake has. -/
structure Compounding (report : Payload) : Prop where
  balance : ∀ row ∈ report.equityCurve.getLast?,
    row.balanceUsd = report.summary.staking.finalBalanceUsd
  untouched : report.equityCurve = [] →
    report.summary.staking.finalBalanceUsd = report.summary.staking.startingBalanceUsd
  percentage : ∃ ppm, report.summary.staking.maxDrawdownPct = some (pct ppm) ∧
    0 ≤ ppm ∧ ppm ≤ 1000000
  broke : report.summary.staking.endedEarly = true →
    report.summary.staking.finalBalanceUsd = some 0 ∧
      report.summary.staking.totalReturnPct = some (-100) ∧
      report.summary.staking.maxDrawdownPct = some 100

section

variable {pass : MarketPass} {episodes : List ResolvedEpisode} {run : RunOutcome}

/-- The results of a pass are in the order of their starts. -/
theorem enteredByStart_eq (tells : pass.Tells episodes run) :
    enteredByStart run.results = enteredOf run.results := by
  have sorted : InOrder ResolvedEpisode.startKey (MarketPass.inOrder episodes) :=
    sortByKey_inOrder _ episodes
  have starts : ((MarketPass.inOrder episodes).map fun episode => episode.startUtcNs).Pairwise
      (· ≤ ·) := by
    rw [List.pairwise_map]
    exact sorted.imp fun before => Prod.Lex.monotone_fst _ _ before
  have part := tells.markets.map fun market => market.2.2.1
  rw [List.map_map, List.map_map] at part
  have own : (run.results.map EpisodeResult.startUtcNs).Pairwise (· ≤ ·) :=
    starts.sublist part.sublist
  rw [List.pairwise_map] at own
  exact InOrder.sortByKey_eq (own.sublist List.filter_sublist)

theorem walk_walks (tells : pass.Tells episodes run) :
    Walks (run.sizing = .compound) pass.startingBalanceScaled (enteredOf run.results) (walk run) := by
  rw [walk, enteredByStart_eq tells, tells.opening]
  exact walks_foldl ..

variable (params : VariantParams) (realismName : String)

theorem buildReport_addsUp (tells : pass.Tells episodes run) :
    AddsUp run (buildReport params realismName run) := by
  have walks := walk_walks tells
  refine ⟨walks.rows, fun row last => ?_, ⟨_, rfl, foldl_add_isDeepest _⟩, ?_⟩
  · rw [(walks.last row last).1, walks.equity]
    rfl
  · change run.endedEarly = true ↔ 0 < (run.episodesSelected : ℤ) - run.results.length
    rw [tells.early]
    omega

theorem buildReport_compounding (tells : pass.Tells episodes run)
    (compounds : pass.sizing = .compound) (funded : 0 < pass.startingBalanceScaled) :
    Compounding (buildReport params realismName run) := by
  have walks := walk_walks tells
  have sizing : decide (run.sizing = .compound) = true :=
    decide_eq_true (tells.sizing.trans compounds)
  have balance : (walk run).balance = run.finalBalanceScaled := by
    rw [walks.balance, profitOf_enteredOf tells.idle, tells.closing]
  obtain ⟨lower, upper, whole⟩ := walks.drawdown funded (tells.covered compounds)
  have figures : (buildReport params realismName run).summary.staking =
      staking run true (walk run).balanceDrawdownPpm := by
    rw [← sizing]
    rfl
  rw [sizing] at walks
  refine ⟨fun row last => ?_, fun empty => ?_, ⟨_, by rw [figures]; rfl, lower, upper⟩,
    fun stopped => ?_⟩
  · rw [(walks.last row last).2, figures, balance]
    rfl
  · have nothing : enteredOf run.results = [] := by
      have rows := walks.rows
      rw [show (walk run).curve = [] from empty] at rows
      exact List.map_eq_nil_iff.mp rows.symm
    have same : run.finalBalanceScaled = run.startingBalanceScaled := by
      rw [tells.closing, ← profitOf_enteredOf tells.idle, nothing, tells.opening]
      exact add_zero _
    rw [figures]
    change some (usd _) = some (usd _)
    rw [same]
  · have broke := (tells.broke stopped).2
    rw [figures]
    change some (usd run.finalBalanceScaled) = _ ∧
      percentOf (run.finalBalanceScaled - run.startingBalanceScaled) run.startingBalanceScaled = _ ∧
        some (pct (walk run).balanceDrawdownPpm) = _
    rw [broke, usd_zero, tells.opening, percentOf_lost funded, whole (balance.trans broke), pct_whole]
    exact ⟨rfl, rfl, rfl⟩

end

end BacktestReport

/-- The report of a pass that returns adds up: its curve is the one of the entered markets in the order
of the pass and ends in the reported profit, its drawdown is the deepest fall of that curve, and it is
marked as ended early exactly when markets were never reached. Under a compounding stake the curve
also ends in the reported balance, the relative drawdown is between nothing and everything, and a pass
that ended early has lost everything. -/
theorem report_addsUp {pass : MarketPass} {episodes : List ResolvedEpisode} {run : RunOutcome}
    (params : VariantParams) (realismName : String) (inRange : pass.params.InRange)
    (loads : pass.LoadsOwn episodes) (funded : 0 < pass.startingBalanceScaled)
    (ran : pass.runEpisodes episodes = .ok run) :
    BacktestReport.AddsUp run (BacktestReport.buildReport params realismName run) ∧
      (pass.sizing = .compound →
        BacktestReport.Compounding (BacktestReport.buildReport params realismName run)) := by
  have tells := MarketPass.runEpisodes_tells inRange loads ran
  exact ⟨BacktestReport.buildReport_addsUp params realismName tells,
    fun compounds => BacktestReport.buildReport_compounding params realismName tells compounds funded⟩

/-- One market is entered with five dollars and stopped out on a thin bid. -/
theorem report_addsUp_thin : ∃ run,
    (MarketPass.thinPass 1500000).runEpisodes [MarketPass.thinMarket] = .ok run ∧
      (enteredOf run.results).length = 1 ∧
      BacktestReport.Compounding
        (BacktestReport.buildReport (SweepRunner.defaultParams 0) "optimistic" run) := by
  have enters : ((MarketPass.thinPass 1500000).runEpisodes [MarketPass.thinMarket]).toOption.any
      (fun run => (enteredOf run.results).length = 1) = true := by decide +kernel
  obtain ⟨run, found, entered⟩ := (Option.any_eq_true _ _).mp enters
  have ran := Except.toOption_eq_some.mp found
  have inRange : (MarketPass.thinPass 1500000).params.InRange := by
    constructor <;>
      simp [MarketPass.thinPass, ThresholdHoldSimulator.exampleParams, polymarketPriceScale, ppm]
  refine ⟨run, ran, of_decide_eq_true entered, ?_⟩
  refine (report_addsUp (SweepRunner.defaultParams 0) "optimistic" inRange ?_ (by decide) ran).2 rfl
  intro episode member tape loaded
  obtain rfl := List.mem_singleton.mp member
  obtain rfl := Except.ok.inj loaded
  rfl

end PolymarketBt
