import PolymarketBt.Proofs.ResultBooking

/-! # Compound replay and its cash

A compounding pass hands the balance of one market to the next. Its markets share no more than the
end of one with the start of another, so the wallet is never behind the market it comes to, and what
the simulator paid for at its arrivals the wallet can pay for when it books them.
-/

namespace PolymarketBt

open Machine StableSort DatedFlows ReplayWallet

/-- One window ends by the start of the other, or is empty. -/
def ResolvedEpisode.Apart (first second : ResolvedEpisode) : Prop :=
  first.endUtcNs ≤ second.startUtcNs ∨ second.endUtcNs ≤ first.startUtcNs ∨
    first.endUtcNs < first.startUtcNs ∨ second.endUtcNs < second.startUtcNs

namespace MarketPass

variable (pass : MarketPass) (episodes : List ResolvedEpisode)

/-- The start of the first market, at which the wallet opens. -/
def firstStartNs : ℤ := ((inOrder episodes).head?.map fun episode => episode.startUtcNs).getD 0

/-- The replay of the next market on the cash of the wallet, which answers for every instant. -/
def simulate (wallet : ReplayWallet) (tape : EpisodeTape) : Except PyError EpisodeResult :=
  (pass.compoundSimulator wallet).run tape (some fun instant => .ok (wallet.cashBy instant))

/-- The pass comes to a market with equity left. -/
def ComesTo (state : PassState) (episode : ResolvedEpisode) : Prop :=
  ∃ wallet past future, pass.openWallet episodes = .ok wallet ∧
    inOrder episodes = past ++ episode :: future ∧
    Reaches pass.runEpisode (pass.initialState wallet) past state ∧
    0 < state.wallet.totalEquityScaled

/-- A funded compounding pass over markets apart, each with its own tape, whose simulators return. -/
structure Compounds : Prop where
  sizing : pass.sizing = .compound
  inRange : pass.params.InRange
  funded : 0 < pass.startingBalanceScaled
  eligible : ∀ episode ∈ episodes, episode.eligible = true
  distinct : (episodes.map fun episode => episode.startUtcNs).Nodup
  apart : episodes.Pairwise ResolvedEpisode.Apart
  loads : ∀ episode ∈ episodes, ∃ tape, pass.load episode = .ok tape ∧
    tape.episode = episode.toEpisode ∧ ∀ row ∈ tape.rows, ∀ side, PricedLadder (row.ladder side)
  runs : ∀ state episode, pass.ComesTo episodes state episode →
    ∀ tape, pass.load episode = .ok tape → (pass.simulate state.wallet tape).Returns

/-- The sells and payouts of the markets replayed, by the instants they can be spent. -/
def creditsOf (results : List EpisodeResult) : List (ℤ × ℤ) :=
  (episodes.zip results).flatMap fun market => market.2.credits market.1

/-- The buys of the markets replayed, by their arrivals. -/
def debitsOf (results : List EpisodeResult) : List (ℤ × ℤ) := results.flatMap EpisodeResult.purchases

/-- A pass that neither creates nor spends cash it does not have. -/
structure Conserves (outcome : RunOutcome) : Prop where
  solvent : 0 ≤ outcome.availableBalanceScaled
  logged : ∀ event ∈ outcome.walletEvents, 0 ≤ event.availableCashScaled
  /-- By every instant the buys are paid by the opening balance and what can be spent by then. -/
  covered : Covered pass.startingBalanceScaled (creditsOf (inOrder episodes) outcome.results)
    (debitsOf outcome.results)
  profit : outcome.finalBalanceScaled =
    pass.startingBalanceScaled + (outcome.results.map EpisodeResult.netPnlScaled).sum
  split : outcome.finalBalanceScaled = outcome.availableBalanceScaled + outcome.lockedBalanceScaled

/-- The wallet after some markets is the account of their results, and stands in one of them. -/
structure Booked (past : List ResolvedEpisode) (state : PassState) : Prop where
  replayed : state.results.length = past.length
  account : Account pass.startingBalanceScaled (creditsOf past state.results)
    (debitsOf state.results) state.wallet
  profit : state.wallet.totalEquityScaled =
    pass.startingBalanceScaled + (state.results.map EpisodeResult.netPnlScaled).sum
  stands : state.wallet.now = firstStartNs episodes ∨
    ∃ episode ∈ past, episode.startUtcNs ≤ state.wallet.now ∧ state.wallet.now < episode.endUtcNs

variable {pass episodes}

theorem creditsOf_concat {past : List ResolvedEpisode} {results : List EpisodeResult}
    (replayed : results.length = past.length) (episode : ResolvedEpisode) (result : EpisodeResult) :
    creditsOf (past ++ [episode]) (results ++ [result]) =
      creditsOf past results ++ result.credits episode := by
  rw [creditsOf, List.zip_append replayed.symm, List.flatMap_append]
  simp [creditsOf]

/-- Markets after the last result do not count. -/
theorem creditsOf_append {past future : List ResolvedEpisode} {results : List EpisodeResult}
    (replayed : results.length = past.length) :
    creditsOf (past ++ future) results = creditsOf past results := by
  conv_lhs => rw [← List.append_nil results]
  rw [creditsOf, List.zip_append replayed.symm, List.zip_nil_right, List.append_nil]
  rfl

theorem openWallet_eq_ok (funded : 0 < pass.startingBalanceScaled) :
    (∃ wallet, pass.openWallet episodes = .ok wallet) ↔ 0 ≤ firstStartNs episodes := by
  have start : pass.openWallet episodes =
      ReplayWallet.init pass.startingBalanceScaled (firstStartNs episodes) := rfl
  rw [start, ReplayWallet.init, if_neg (not_lt.mpr funded.le)]
  split
  · next behind => simp [behind]
  · next ahead => exact ⟨fun _ => not_lt.mp ahead, fun _ => ⟨_, rfl⟩⟩

theorem Booked.initial {wallet : ReplayWallet} (opened : pass.openWallet episodes = .ok wallet) :
    pass.Booked episodes [] (pass.initialState wallet) := by
  obtain ⟨account, now⟩ := Account.init opened
  refine ⟨rfl, account, ?_, .inl now⟩
  rw [show (pass.initialState wallet).wallet = wallet from rfl, account.equity]
  simp [initialState]

theorem compoundSimulator_inRange (inRange : pass.params.InRange) (wallet : ReplayWallet) :
    (pass.compoundSimulator wallet).params.InRange :=
  { inRange with
    notional_pos := fun notional configured => by
      rw [← Option.some.inj configured]
      exact lt_max_of_lt_left one_pos }

/-! ## One market -/

section Market

variable {past future : List ResolvedEpisode} {episode : ResolvedEpisode} {state : PassState}

theorem Compounds.mem (split : inOrder episodes = past ++ episode :: future) : episode ∈ episodes := by
  have member : episode ∈ inOrder episodes := by simp [split]
  exact mem_sortByKey.mp member

/-- Markets come in the order of their starts. -/
theorem inOrder_starts (split : inOrder episodes = past ++ episode :: future) :
    firstStartNs episodes ≤ episode.startUtcNs ∧
      ∀ earlier ∈ past, earlier.startUtcNs ≤ episode.startUtcNs := by
  have sorted : InOrder ResolvedEpisode.startKey (inOrder episodes) := sortByKey_inOrder _ episodes
  have start : ∀ {first second : ResolvedEpisode}, first.startKey ≤ second.startKey →
      first.startUtcNs ≤ second.startUtcNs := fun before => Prod.Lex.monotone_fst _ _ before
  rw [split] at sorted
  refine ⟨?_, fun earlier member => ?_⟩
  · rw [firstStartNs, split]
    cases past with
    | nil => exact le_rfl
    | cons head rest => exact start ((List.pairwise_cons.mp sorted).1 episode (by simp))
  · exact start ((List.pairwise_append.mp sorted).2.2 earlier member episode (List.mem_cons_self ..))

/-- The wallet is not behind the market, unless the market is never open. -/
theorem Booked.ahead (booked : pass.Booked episodes past state) (compounds : pass.Compounds episodes)
    (split : inOrder episodes = past ++ episode :: future) :
    state.wallet.now ≤ episode.startUtcNs ∨ episode.endUtcNs < episode.startUtcNs := by
  have perm : (inOrder episodes).Perm episodes := sortByKey_perm _ episodes
  rcases booked.stands with first | ⟨earlier, member, opened, open_⟩
  · exact .inl (first ▸ (inOrder_starts split).1)
  have before := (inOrder_starts split).2 earlier member
  have other : earlier.startUtcNs ≠ episode.startUtcNs := by
    have distinct := (perm.map fun episode => episode.startUtcNs).nodup_iff.mpr compounds.distinct
    rw [split, List.map_append, List.map_cons] at distinct
    exact (List.nodup_append.mp distinct).2.2 _ (List.mem_map_of_mem member) _ (List.mem_cons_self ..)
  have apart : earlier.Apart episode := by
    have symmetric : ∀ first second : ResolvedEpisode, first.Apart second → second.Apart first := by
      intro first second apart
      unfold ResolvedEpisode.Apart at apart ⊢
      omega
    have windows := (perm.pairwise_iff fun {first second} => symmetric first second).mpr compounds.apart
    rw [split] at windows
    exact (List.pairwise_append.mp windows).2.2 earlier member episode (List.mem_cons_self ..)
  unfold ResolvedEpisode.Apart at apart
  omega

/-- The cash the simulator asks for is that of the wallet, so it does not raise. -/
theorem Booked.run_eq (booked : pass.Booked episodes past state) (compounds : pass.Compounds episodes)
    (split : inOrder episodes = past ++ episode :: future) {tape : EpisodeTape}
    (market : tape.episode = episode.toEpisode) :
    (pass.compoundSimulator state.wallet).run tape (some state.wallet.peekAvailableAt) =
      pass.simulate state.wallet tape := by
  refine ThresholdHoldSimulator.run_congr (compoundSimulator_inRange compounds.inRange _) ?_
  rw [market]
  intro instant late early
  refine peekAvailableAt_of_le ?_
  have := booked.ahead compounds split
  omega

/-- A result whose sells clear is booked. -/
theorem Booked.books (booked : pass.Booked episodes past state) (compounds : pass.Compounds episodes)
    (since : 0 ≤ firstStartNs episodes) (split : inOrder episodes = past ++ episode :: future)
    {tape : EpisodeTape} (loaded : pass.load episode = .ok tape) {result : EpisodeResult}
    (ran : pass.simulate state.wallet tape = .ok result) (clear : result.SellsClear) :
    ∃ wallet, state.wallet.applyResult episode result = .ok wallet ∧
      pass.Booked episodes (past ++ [episode])
        { state with wallet := wallet, results := state.results ++ [result] } := by
  have member := Compounds.mem split
  obtain ⟨own, same, market, priced⟩ := compounds.loads episode member
  obtain rfl := Except.ok.inj (same.symm.trans loaded)
  have started := (inOrder_starts split).1
  have ahead := booked.ahead compounds split
  have bookable : Bookable episode state.wallet.cashBy result :=
    ThresholdHoldSimulator.run_bookable (compoundSimulator_inRange compounds.inRange _) market
      (market ▸ compounds.eligible episode member) priced
      (fun instant => booked.account.solvent.trans (available_le_cashBy _ instant)) ran
  have forward : ∀ purchase ∈ result.purchases, state.wallet.now ≤ purchase.1 := by
    intro purchase inPurchases
    have := bookable.bought purchase inPurchases
    omega
  obtain ⟨wallet, applied, account, equity, stops⟩ :=
    booked.account.applyResult bookable (since.trans started) forward clear
  refine ⟨wallet, applied, ⟨?_, ?_, ?_, ?_⟩⟩
  · simp [booked.replayed]
  · rw [creditsOf_concat booked.replayed, debitsOf, List.flatMap_append, List.flatMap_singleton]
    exact account
  · rw [equity, booked.profit, List.map_append, List.sum_append]
    simp [add_assoc]
  · rcases stops with still | ⟨purchase, inPurchases, moved⟩
    · rcases booked.stands with first | ⟨earlier, inPast, opened, open_⟩
      · exact .inl (still.trans first)
      · exact .inr ⟨earlier, List.mem_append_left _ inPast, still ▸ opened, still ▸ open_⟩
    · obtain ⟨opened, open_, _⟩ := bookable.bought purchase inPurchases
      exact .inr ⟨episode, by simp, moved ▸ opened, moved ▸ open_⟩

/-- With equity left, an iteration replays the market and books its result. -/
theorem Booked.runEpisode_eq (booked : pass.Booked episodes past state)
    (compounds : pass.Compounds episodes) (split : inOrder episodes = past ++ episode :: future)
    (left : 0 < state.wallet.totalEquityScaled) {tape : EpisodeTape}
    (loaded : pass.load episode = .ok tape) :
    pass.runEpisode state episode = do
      let result ← pass.simulate state.wallet tape
      let wallet ← state.wallet.applyResult episode result
      return .next { state with wallet := wallet, results := state.results ++ [result] } := by
  obtain ⟨own, same, market, _⟩ := compounds.loads episode (Compounds.mem split)
  obtain rfl := Except.ok.inj (same.symm.trans loaded)
  rw [runEpisode, if_neg (by omega), loaded, Except.ok_bind, compounds.sizing]
  dsimp only
  rw [booked.run_eq compounds split market]

theorem Booked.next (booked : pass.Booked episodes past state) (compounds : pass.Compounds episodes)
    (since : 0 ≤ firstStartNs episodes) (split : inOrder episodes = past ++ episode :: future)
    {after : PassState} (ran : pass.runEpisode state episode = .ok (.next after)) :
    pass.Booked episodes (past ++ [episode]) after := by
  by_cases broke : state.wallet.totalEquityScaled ≤ 0
  · rw [runEpisode, if_pos ⟨compounds.sizing, broke⟩] at ran
    cases ran
  obtain ⟨tape, loaded, _⟩ := compounds.loads episode (Compounds.mem split)
  rw [booked.runEpisode_eq compounds split (not_le.mp broke) loaded] at ran
  obtain ⟨result, simulated, ran⟩ := Except.bind_eq_ok.mp ran
  obtain ⟨wallet, applied, ran⟩ := Except.bind_eq_ok.mp ran
  obtain ⟨own, same, kept⟩ :=
    booked.books compounds since split loaded simulated (applyResult_clear applied)
  obtain rfl := Except.ok.inj (same.symm.trans applied)
  obtain rfl := Flow.next.inj (Except.pure_eq_ok.mp ran)
  exact kept

/-- An iteration returns when the sells of its market clear. -/
theorem Booked.returns (booked : pass.Booked episodes past state) (compounds : pass.Compounds episodes)
    (since : 0 ≤ firstStartNs episodes) (split : inOrder episodes = past ++ episode :: future)
    (runs : 0 < state.wallet.totalEquityScaled → ∀ tape, pass.load episode = .ok tape →
      (pass.simulate state.wallet tape).Returns)
    (clear : 0 < state.wallet.totalEquityScaled → ∀ tape, pass.load episode = .ok tape →
      ∀ result, pass.simulate state.wallet tape = .ok result → result.SellsClear) :
    (pass.runEpisode state episode).Returns := by
  by_cases broke : state.wallet.totalEquityScaled ≤ 0
  · rw [runEpisode, if_pos ⟨compounds.sizing, broke⟩]
    exact Except.returns_ok _
  obtain ⟨tape, loaded, _⟩ := compounds.loads episode (Compounds.mem split)
  rw [booked.runEpisode_eq compounds split (not_le.mp broke) loaded]
  refine (runs (not_le.mp broke) tape loaded).bind fun result simulated => ?_
  obtain ⟨wallet, applied, _⟩ :=
    booked.books compounds since split loaded simulated (clear (not_le.mp broke) tape loaded result simulated)
  exact Except.bind_returns.mpr ⟨wallet, applied, Except.returns_pure _⟩

end Market

/-! ## Whole passes -/

theorem Compounds.booked (compounds : pass.Compounds episodes) (since : 0 ≤ firstStartNs episodes)
    {wallet : ReplayWallet} (opened : pass.openWallet episodes = .ok wallet)
    {past future : List ResolvedEpisode} (split : inOrder episodes = past ++ future)
    {state : PassState} (reached : Reaches pass.runEpisode (pass.initialState wallet) past state) :
    pass.Booked episodes past state :=
  reached.history (pass.Booked episodes) (.initial opened)
    fun before episode between middle after divided _ booked ran =>
      booked.next compounds since (by rw [split, divided, List.append_assoc, List.cons_append]) ran

/-- The state a pass ends in accounts for the markets before its end. -/
theorem Compounds.ends (compounds : pass.Compounds episodes) (since : 0 ≤ firstStartNs episodes)
    {wallet : ReplayWallet} (opened : pass.openWallet episodes = .ok wallet) {final : PassState}
    (completed : forLoop pass.runEpisode (pass.initialState wallet) (inOrder episodes) = .ok final) :
    ∃ past future, inOrder episodes = past ++ future ∧ pass.Booked episodes past final := by
  obtain ⟨past, future, state, split, reached, ends⟩ := forLoop_end_reached completed
  refine ⟨past, future, split, ?_⟩
  have booked := compounds.booked since opened split reached
  rcases ends with ⟨_, rfl⟩ | ⟨episode, rest, rfl, stopped⟩
  · exact booked
  by_cases broke : state.wallet.totalEquityScaled ≤ 0
  · -- The pass that is left early keeps its wallet.
    rw [runEpisode, if_pos ⟨compounds.sizing, broke⟩] at stopped
    obtain rfl := Flow.stop.inj (Except.ok.inj stopped)
    exact ⟨booked.replayed, booked.account, booked.profit, booked.stands⟩
  obtain ⟨tape, loaded, _⟩ := compounds.loads episode (Compounds.mem split)
  rw [booked.runEpisode_eq compounds split (not_le.mp broke) loaded] at stopped
  obtain ⟨result, _, stopped⟩ := Except.bind_eq_ok.mp stopped
  obtain ⟨next, _, stopped⟩ := Except.bind_eq_ok.mp stopped
  cases Except.pure_eq_ok.mp stopped

/-- A pass whose loop completes reports what the wallet holds at the horizon. -/
theorem Compounds.reports (compounds : pass.Compounds episodes) (since : 0 ≤ firstStartNs episodes)
    {wallet : ReplayWallet} (opened : pass.openWallet episodes = .ok wallet) {final : PassState}
    (completed : forLoop pass.runEpisode (pass.initialState wallet) (inOrder episodes) = .ok final) :
    ∃ outcome, pass.runEpisodes episodes = .ok outcome ∧ pass.Conserves episodes outcome := by
  obtain ⟨past, future, split, booked⟩ := compounds.ends since opened completed
  obtain ⟨cash, after, advanced, moved, _⟩ := booked.account.advanceTo
    (le_max_left final.wallet.now (horizonNs final))
  have equity : after.totalEquityScaled = final.wallet.totalEquityScaled :=
    moved.equity.trans booked.account.equity.symm
  refine ⟨{
    results := final.results
    sizing := pass.sizing
    startingBalanceScaled := pass.startingBalanceScaled
    finalBalanceScaled := after.totalEquityScaled
    episodesSelected := episodes.length
    endedEarly := final.endedEarly
    availableBalanceScaled := after.available
    lockedBalanceScaled := after.pendingCashScaled
    walletEvents := after.events }, ?_, ?_⟩
  · rw [runEpisodes, opened, Except.ok_bind, completed, Except.ok_bind, compounds.sizing, advanced]
    rfl
  · refine ⟨moved.solvent, moved.logged, ?_, equity.trans booked.profit, rfl⟩
    rw [split, creditsOf_append booked.replayed]
    exact moved.covered

/-- A compounding pass conserves cash exactly when no sell it comes to costs more than it brings. -/
theorem runEpisodes_conserves_iff (compounds : pass.Compounds episodes) :
    (∃ outcome, pass.runEpisodes episodes = .ok outcome ∧ pass.Conserves episodes outcome) ↔
      0 ≤ firstStartNs episodes ∧ ∀ state episode, pass.ComesTo episodes state episode →
        ∀ tape, pass.load episode = .ok tape →
          ∀ result, pass.simulate state.wallet tape = .ok result → result.SellsClear := by
  constructor
  · rintro ⟨outcome, ran, _⟩
    obtain ⟨wallet, opened, ran⟩ := Except.bind_eq_ok.mp ran
    obtain ⟨final, completed, _⟩ := Except.bind_eq_ok.mp ran
    have since := (openWallet_eq_ok compounds.funded).mp ⟨wallet, opened⟩
    refine ⟨since, ?_⟩
    rintro state episode ⟨own, past, future, sameWallet, split, reached, left⟩ tape loaded result simulated
    obtain rfl := Except.ok.inj (sameWallet.symm.trans opened)
    have booked := compounds.booked since opened split reached
    have returned := forLoop_returns_iff.mp ⟨final, completed⟩ past episode future state split reached
    rw [booked.runEpisode_eq compounds split left loaded, simulated, Except.ok_bind] at returned
    obtain ⟨next, applied, _⟩ := Except.bind_returns.mp returned
    exact applyResult_clear applied
  · rintro ⟨since, clear⟩
    obtain ⟨wallet, opened⟩ := (openWallet_eq_ok compounds.funded).mpr since
    have returned : (forLoop pass.runEpisode (pass.initialState wallet) (inOrder episodes)).Returns := by
      refine forLoop_returns_iff.mpr fun past episode future state split reached => ?_
      have comes : 0 < state.wallet.totalEquityScaled → pass.ComesTo episodes state episode :=
        fun left => ⟨wallet, past, future, opened, split, reached, left⟩
      exact (compounds.booked since opened split reached).returns compounds since split
        (fun left => compounds.runs state episode (comes left))
        fun left => clear state episode (comes left)
    obtain ⟨final, completed⟩ := returned
    exact compounds.reports since opened completed

/-! ## A thin bid -/

/-- The optimistic preset with the default taker fees. -/
def optimisticRealism : ExecutionRealism :=
  { ThresholdHoldSimulator.exampleRealism with
    latency := .constant 25
    fee := { ThresholdHoldSimulator.exampleRealism.fee with minimumFee := 1 / 1000000 } }

/-- The book of the example, falling to one bid at 0.40. -/
def thinTape (size : ℤ) : EpisodeTape :=
  { ThresholdHoldSimulator.exampleTape with
    rows := [TapeBuilder.exampleRow none 780000 800000,
      { ThresholdHoldSimulator.fallenRow with
        bestBidColumn := 400000
        bids := .store none [(400000, size)] }] }

/-- Five dollars compounded over one market, whose stop meets the bid. -/
def thinPass (size : ℤ) : MarketPass where
  params := { ThresholdHoldSimulator.exampleParams .immediate with
    orderSharesScaled := none
    orderNotionalScaled := some 5000000 }
  realism := optimisticRealism
  draws _ := ⟨fun _ => 0, fun _ => 0⟩
  load _ := .ok (thinTape size)
  sizing := .compound
  startingBalanceScaled := 5000000

def thinMarket : ResolvedEpisode := ⟨TapeBuilder.exampleEpisode, none⟩

def thinWallet : ReplayWallet := ⟨5000000, 0, .empty, 0, []⟩

theorem thinPass_comesTo {size : ℤ} {state : PassState} {episode : ResolvedEpisode}
    (comes : (thinPass size).ComesTo [thinMarket] state episode) : state.wallet = thinWallet := by
  obtain ⟨wallet, past, future, opened, split, reached, _⟩ := comes
  have open_ : (thinPass size).openWallet [thinMarket] = .ok thinWallet := rfl
  obtain rfl := Except.ok.inj (open_.symm.trans opened)
  have first : past = [] := by
    have lengths := congrArg List.length split
    rw [inOrder, (sortByKey_perm _ _).length_eq, List.length_append] at lengths
    simp only [List.length_cons, List.length_nil] at lengths
    exact List.length_eq_zero_iff.mp (by omega)
  subst first
  cases reached
  rfl

theorem thinPass_compounds {size : ℤ}
    (runs : ((thinPass size).simulate thinWallet (thinTape size)).Returns) :
    (thinPass size).Compounds [thinMarket] where
  sizing := rfl
  inRange := by
    constructor <;> simp [thinPass, ThresholdHoldSimulator.exampleParams, polymarketPriceScale, ppm]
  funded := by simp [thinPass]
  eligible := by simp [thinMarket, TapeBuilder.exampleEpisode]
  distinct := by simp
  apart := List.pairwise_singleton ..
  loads episode member := by
    obtain rfl := List.mem_singleton.mp member
    refine ⟨thinTape size, rfl, rfl, fun row inTape side level inLadder => ?_⟩
    have shown := List.mem_of_mem_filter inLadder
    rcases List.mem_pair.mp inTape with rfl | rfl <;> cases side <;>
      · obtain rfl := List.mem_singleton.mp shown
        norm_num [Tradable, polymarketPriceScale]
  runs state episode comes tape loaded := by
    obtain rfl := Except.ok.inj loaded
    rw [thinPass_comesTo comes]
    exact runs

/-- A bid of one and a half shares pays its fees, and the pass is booked. -/
theorem runEpisodes_conserves_filled : ∃ outcome, (thinPass 1500000).runEpisodes [thinMarket] = .ok outcome ∧
    (thinPass 1500000).Conserves [thinMarket] outcome := by
  have clears : ((thinPass 1500000).simulate thinWallet (thinTape 1500000)).toOption.any
      (fun result => result.SellsClear) = true := by decide +kernel
  obtain ⟨result, found, clear⟩ := (Option.any_eq_true _ _).mp clears
  have ran : (thinPass 1500000).simulate thinWallet (thinTape 1500000) = .ok result :=
    Except.toOption_eq_some.mp found
  refine (runEpisodes_conserves_iff (thinPass_compounds ⟨result, ran⟩)).mpr ⟨by decide, ?_⟩
  intro state episode comes tape loaded other simulated
  obtain rfl := Except.ok.inj loaded
  rw [thinPass_comesTo comes, ran] at simulated
  obtain rfl := Except.ok.inj simulated
  exact of_decide_eq_true clear

/-- A bid of one millionth of a share brings nothing and costs the minimum fee. -/
theorem runEpisodes_dust_sell : (thinPass 1).Compounds [thinMarket] ∧
    (thinPass 1).runEpisodes [thinMarket] =
      .error (.valueError "sell fees exceed proceeds for condition:stop_loss") := by
  refine ⟨thinPass_compounds ?_, by decide +kernel⟩
  have returns : ((thinPass 1).simulate thinWallet (thinTape 1)).toOption.isSome = true := by
    decide +kernel
  obtain ⟨result, found⟩ := Option.isSome_iff_exists.mp returns
  exact ⟨result, Except.toOption_eq_some.mp found⟩

end MarketPass

end PolymarketBt
