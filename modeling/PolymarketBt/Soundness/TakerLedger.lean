import PolymarketBt.Machine.Transition
import PolymarketBt.Model.TakerLedger
import PolymarketBt.Proofs.Execution
import PolymarketBt.Proofs.OrderBook
import PolymarketBt.Proofs.Portfolio

/-! # The ledger of the reference engine

An order is planned and checked before its first fill is booked, and what is booked moves cash by the
notionals and fees of the fills. The check of a sale looks at inventory alone: the fees of its fills
are computed one at a time while they are booked, and nothing compares them with the proceeds.
-/

namespace PolymarketBt

open Machine Transition

/-- A planned level has a positive size and a notional that is not negative. -/
structure PlannedFill.Sound (level : PlannedFill) : Prop where
  size_pos : 0 < level.sizeScaled
  notional_nonneg : 0 ≤ level.notionalScaled

/-- The level of a fill, as it was planned. -/
def SimulatedFill.level (fill : SimulatedFill) : PlannedFill :=
  ⟨fill.levelRank, fill.priceScaled, fill.sizeScaled, fill.notionalScaled,
    fill.liquidityRemainingAfterScaled⟩

/-- What a fill adds to the cash. -/
def SimulatedFill.cashFlow (fill : SimulatedFill) : ℤ :=
  match fill.side with
  | .buy => -(fill.notionalScaled + fill.feeScaled)
  | .sell => fill.notionalScaled - fill.feeScaled

namespace TakerExecutionSimulator

variable {simulator : TakerExecutionSimulator} {intent : OrderIntent} {book : OrderBook}
  {portfolio : Portfolio} {arrivalTimeNs : ℤ}

theorem plan_sound {planned : List PlannedFill} (positive : book.Positive)
    (ran : plan intent book = .ok planned) : ∀ level ∈ planned, level.Sound := by
  unfold plan at ran
  simp only [Except.bind_eq_ok, Except.pure_eq_ok] at ran
  obtain ⟨final, walked, rfl⟩ := ran
  refine forLoop_invariant (fun plan : SweepPlan => ∀ level ∈ plan.planned, level.Sound)
    (by simp [SweepPlan.init]) ?_ walked
  rintro before ⟨⟨price, displayed⟩, index⟩ flow member sound visited
  have known : (price, displayed) ∈ book.availableLevels intent.side.opposite := by
    have zipped := List.mem_map_of_mem (f := Prod.fst) member
    rwa [List.zipIdx_map_fst] at zipped
  have priced : 0 < price := by
    obtain ⟨level, listed, same⟩ := List.mem_filterMap.mp known
    split at same
    · cases same
      exact (positive.of_mem_levels listed).1
    · cases same
  unfold SweepPlan.visit at visited
  dsimp only at visited
  split at visited
  · cases visited
    exact sound
  · simp only [Except.bind_eq_ok] at visited
    obtain ⟨desired, -, visited⟩ := visited
    split at visited
    · cases visited
      exact sound
    · next sized =>
      simp only [Except.bind_eq_ok, Except.pure_eq_ok] at visited
      obtain ⟨notional, ran, rfl⟩ := visited
      have added : ∀ level ∈ (before.take (index + 1) price displayed desired notional).planned,
          level.Sound := by
        intro level member
        rcases List.mem_append.mp member with old | fresh
        · exact sound level old
        · rw [List.mem_singleton.mp fresh]
          exact ⟨not_le.mp sized, notionalScaled_nonneg (not_le.mp sized).le priced.le ran⟩
      split
      · exact added
      · exact added

/-! ## Booking a plan -/

/-- The plan has been carried out in full. -/
structure Booked (simulator : TakerExecutionSimulator) (before after : FillProgress)
    (planned : List PlannedFill) : Prop where
  fills : ∃ fills, after.fills = before.fills ++ fills ∧ fills.map SimulatedFill.level = planned ∧
    (∀ fill ∈ fills, simulator.feeModel.calculate fill.sizeScaled fill.priceScaled =
      .ok fill.feeScaled) ∧
    after.portfolio.availableCashScaled =
      before.portfolio.availableCashScaled + (fills.map SimulatedFill.cashFlow).sum
  long : after.portfolio.Long
  distinct : after.portfolio.Distinct

theorem Booked.nil {progress : FillProgress} (long : progress.portfolio.Long)
    (distinct : progress.portfolio.Distinct) : simulator.Booked progress progress [] :=
  ⟨⟨[], by simp⟩, long, distinct⟩

/-- A fill, and then the rest of the plan. -/
theorem Booked.cons {before next after : FillProgress} {fill : SimulatedFill}
    {rest : List PlannedFill} (booked : simulator.Booked next after rest)
    (filled : next.fills = before.fills ++ [fill])
    (fee : simulator.feeModel.calculate fill.sizeScaled fill.priceScaled = .ok fill.feeScaled)
    (cash : next.portfolio.availableCashScaled =
      before.portfolio.availableCashScaled + fill.cashFlow) :
    simulator.Booked before after (fill.level :: rest) := by
  obtain ⟨⟨fills, appended, levels, fees, flow⟩, long, distinct⟩ := booked
  refine ⟨⟨fill :: fills, ?_, by rw [List.map_cons, levels], ?_, ?_⟩, long, distinct⟩
  · rw [appended, filled, List.append_assoc]
    rfl
  · exact List.forall_mem_cons.mpr ⟨fee, fees⟩
  · rw [flow, cash, List.map_cons, List.sum_cons]
    omega

/-- What a level of a purchase takes from the cash. -/
def debit (simulator : TakerExecutionSimulator) (level : PlannedFill) : Except PyError ℤ := do
  return level.notionalScaled +
    (← simulator.feeModel.calculate level.sizeScaled level.priceScaled)

theorem debits_nonneg {planned : List PlannedFill} (sound : ∀ level ∈ planned, level.Sound)
    {debits : List ℤ} (costs : planned.mapM simulator.debit = .ok debits) :
    ∀ debit ∈ debits, 0 ≤ debit := by
  have each := Except.mapM_eq_ok.mp costs
  induction each with
  | nil => simp
  | cons ran _ ih =>
    obtain ⟨first, sound⟩ := List.forall_mem_cons.mp sound
    simp only [debit, Except.bind_eq_ok, Except.pure_eq_ok] at ran
    obtain ⟨fee, feeRan, rfl⟩ := ran
    refine List.forall_mem_cons.mpr ⟨?_, ih sound (Except.mapM_eq_ok.mpr ‹_›)⟩
    exact add_nonneg first.notional_nonneg (FeeModel.calculate_nonneg feeRan)

/-- Carry out a plan whose debits the cash covers. -/
theorem fillLevels_buy (side : intent.side = .buy) {planned : List PlannedFill}
    (sound : ∀ level ∈ planned, level.Sound) {progress : FillProgress} {debits : List ℤ}
    (costs : planned.mapM simulator.debit = .ok debits)
    (covered : debits.sum ≤ progress.portfolio.availableCashScaled)
    (long : progress.portfolio.Long) (distinct : progress.portfolio.Distinct) :
    ∃ after, simulator.fillLevels intent arrivalTimeNs progress planned = (after, .ok ()) ∧
      simulator.Booked progress after planned ∧
      after.portfolio.availableCashScaled =
        progress.portfolio.availableCashScaled - debits.sum := by
  induction planned generalizing progress debits with
  | nil =>
    cases costs
    exact ⟨progress, rfl, .nil long distinct, by simp⟩
  | cons level rest ih =>
    simp only [List.mapM_cons, Except.bind_eq_ok, Except.pure_eq_ok] at costs
    obtain ⟨first, firstRan, others, othersRan, rfl⟩ := costs
    simp only [debit, Except.bind_eq_ok, Except.pure_eq_ok] at firstRan
    obtain ⟨fee, feeRan, rfl⟩ := firstRan
    obtain ⟨levelSound, restSound⟩ := List.forall_mem_cons.mp sound
    have others_nonneg := List.sum_nonneg (debits_nonneg restSound othersRan)
    rw [List.sum_cons] at covered
    let fill := simulator.fillOf intent arrivalTimeNs progress.book.lastSequence level fee
    let next : FillProgress := {
      book := progress.book.consume intent.side.opposite level.priceScaled level.sizeScaled
      portfolio := (progress.portfolio.buyFill fill
        (progress.portfolio.positionFor fill intent.outcome)).recordFill fill
      fills := progress.fills ++ [fill] }
    have applied : progress.portfolio.applyFill fill intent.outcome = (next.portfolio, .ok ()) :=
      Portfolio.applyFill_buy side (show level.notionalScaled + fee ≤ _ by omega)
    have spent : next.portfolio.availableCashScaled =
        progress.portfolio.availableCashScaled - (level.notionalScaled + fee) := rfl
    have flow : fill.cashFlow = -(level.notionalScaled + fee) := by
      simp only [SimulatedFill.cashFlow, fill, fillOf, side]
    obtain ⟨after, filled, booked, cash⟩ := @ih restSound next others othersRan (by omega)
      (long.buyFill levelSound.size_pos levelSound.notional_nonneg) (distinct.setPosition _ _)
    refine ⟨after, ?_, booked.cons rfl feeRan (by omega), ?_⟩
    · rw [fillLevels, feeRan]
      dsimp only
      rw [applied]
      exact filled
    · rw [List.sum_cons]
      omega

/-- Carry out a plan whose fees exist and whose sizes the inventory covers. -/
theorem fillLevels_sell (side : intent.side = .sell) {planned : List PlannedFill}
    (sound : ∀ level ∈ planned, level.Sound) {progress : FillProgress} {fees : List ℤ}
    (charged : planned.mapM (fun level =>
      simulator.feeModel.calculate level.sizeScaled level.priceScaled) = .ok fees)
    (covered : (planned.map PlannedFill.sizeScaled).sum ≤
      progress.portfolio.inventory intent.tokenId)
    (long : progress.portfolio.Long) (distinct : progress.portfolio.Distinct) :
    ∃ after, simulator.fillLevels intent arrivalTimeNs progress planned = (after, .ok ()) ∧
      simulator.Booked progress after planned ∧
      after.portfolio.availableCashScaled = progress.portfolio.availableCashScaled +
        ((planned.map PlannedFill.notionalScaled).sum - fees.sum) := by
  induction planned generalizing progress fees with
  | nil =>
    cases charged
    exact ⟨progress, rfl, .nil long distinct, by simp⟩
  | cons level rest ih =>
    simp only [List.mapM_cons, Except.bind_eq_ok, Except.pure_eq_ok] at charged
    obtain ⟨fee, feeRan, others, othersRan, rfl⟩ := charged
    obtain ⟨levelSound, restSound⟩ := List.forall_mem_cons.mp sound
    have others_nonneg : 0 ≤ (rest.map PlannedFill.sizeScaled).sum :=
      List.sum_nonneg fun size member => by
        obtain ⟨other, known, rfl⟩ := List.mem_map.mp member
        exact (restSound other known).size_pos.le
    rw [List.map_cons, List.sum_cons] at covered
    let fill := simulator.fillOf intent arrivalTimeNs progress.book.lastSequence level fee
    let next : FillProgress := {
      book := progress.book.consume intent.side.opposite level.priceScaled level.sizeScaled
      portfolio := (progress.portfolio.sellFill fill
        (progress.portfolio.positionFor fill intent.outcome)).recordFill fill
      fills := progress.fills ++ [fill] }
    have held : fill.sizeScaled ≤ progress.portfolio.inventory fill.tokenId :=
      show level.sizeScaled ≤ progress.portfolio.inventory intent.tokenId by omega
    have applied : progress.portfolio.applyFill fill intent.outcome = (next.portfolio, .ok ()) :=
      Portfolio.applyFill_sell side held
    have earned : next.portfolio.availableCashScaled =
        progress.portfolio.availableCashScaled + (level.notionalScaled - fee) := rfl
    have flow : fill.cashFlow = level.notionalScaled - fee := by
      simp only [SimulatedFill.cashFlow, fill, fillOf, side]
    have left : next.portfolio.inventory intent.tokenId =
        progress.portfolio.inventory intent.tokenId - level.sizeScaled := by
      change (progress.portfolio.setPosition intent.tokenId _).inventory intent.tokenId = _
      rw [Portfolio.inventory_setPosition, Portfolio.sharesScaled_positionFor]
      rfl
    obtain ⟨after, filled, booked, cash⟩ := @ih restSound next others othersRan (by omega)
      (long.sellFill levelSound.size_pos held) (distinct.setPosition _ _)
    refine ⟨after, ?_, booked.cons rfl feeRan (by omega), ?_⟩
    · rw [fillLevels, feeRan]
      dsimp only
      rw [applied]
      exact filled
    · simp only [List.map_cons, List.sum_cons]
      omega

end TakerExecutionSimulator

/-! ## Calls -/

/-- Cash, shares and costs are not negative, and a position without shares has no cost. -/
structure Portfolio.Solvent (portfolio : Portfolio) : Prop where
  cash_nonneg : 0 ≤ portfolio.availableCashScaled
  long : portfolio.Long
  distinct : portfolio.Distinct

namespace TakerExecutionSimulator

variable {simulator : TakerExecutionSimulator} {portfolio : Portfolio}

/-- A sale that reaches its first fill has all its fees, and they leave the cash non-negative. -/
def FeesCovered (simulator : TakerExecutionSimulator) (portfolio : Portfolio) (intent : OrderIntent)
    (book : OrderBook) : Prop :=
  ∀ first rest, plan intent book = .ok (first :: rest) →
    ((first :: rest).map PlannedFill.sizeScaled).sum ≤ portfolio.inventory intent.tokenId →
    (∃ fee, simulator.feeModel.calculate first.sizeScaled first.priceScaled = .ok fee) →
    ∃ fees, (first :: rest).mapM (fun level =>
        simulator.feeModel.calculate level.sizeScaled level.priceScaled) = .ok fees ∧
      fees.sum ≤ portfolio.availableCashScaled +
        ((first :: rest).map PlannedFill.notionalScaled).sum

/-- The condition on a call: the book holds positive levels, and the fees of a sale are covered. -/
def Admits (simulator : TakerExecutionSimulator) (portfolio : Portfolio) : LedgerCall → Prop
  | .execute intent book _ => book.Positive ∧
      (book.valid = true → intent.side = .sell → simulator.FeesCovered portfolio intent book)
  | .settleMarket _ _ _ => True

/-- A call that raises or rejects changes nothing; any other books its whole plan and moves cash by
its fills; a settlement pays the shares of the winner. -/
def Keeps (simulator : TakerExecutionSimulator) (portfolio : Portfolio) : LedgerCall → Prop
  | .execute intent book arrivalTimeNs =>
    let left := simulator.perform intent book portfolio arrivalTimeNs
    match left.returned with
    | .error _ => left.book = book ∧ left.portfolio = portfolio
    | .ok result =>
      if result.status = .rejected then left.book = book ∧ left.portfolio = portfolio
      else plan intent book = .ok (result.fills.map SimulatedFill.level) ∧
        (∀ fill ∈ result.fills, simulator.feeModel.calculate fill.sizeScaled fill.priceScaled =
          .ok fill.feeScaled) ∧
        left.portfolio.availableCashScaled =
          portfolio.availableCashScaled + (result.fills.map SimulatedFill.cashFlow).sum
  | .settleMarket conditionId winningTokenId timestampNs =>
    (portfolio.settleMarket conditionId winningTokenId timestampNs).1.availableCashScaled =
      portfolio.availableCashScaled +
        match portfolio.positions.lookup winningTokenId with
        | some position => if position.conditionId = conditionId then position.sharesScaled else 0
        | none => 0

theorem resultOf_cons {intent : OrderIntent} {fill : SimulatedFill} {rest : List SimulatedFill} :
    (resultOf intent (fill :: rest)).status ≠ .rejected ∧
      (resultOf intent (fill :: rest)).fills = fill :: rest := by
  unfold resultOf
  rw [if_neg (by simp)]
  refine ⟨?_, rfl⟩
  dsimp only
  split <;> decide

/-- A plan whose booking completes. -/
theorem kept_of_booked {intent : OrderIntent} {book : OrderBook} {arrivalTimeNs : ℤ}
    {planned : List PlannedFill} {after : FillProgress} (ran : plan intent book = .ok planned)
    (performed : simulator.perform intent book portfolio arrivalTimeNs =
      ⟨after.book, after.portfolio, .ok (resultOf intent after.fills)⟩)
    (booked : simulator.Booked ⟨book, portfolio, []⟩ after planned)
    (unplanned : planned = [] → after = ⟨book, portfolio, []⟩)
    (cash : 0 ≤ after.portfolio.availableCashScaled) :
    (simulator.after portfolio (.execute intent book arrivalTimeNs)).Solvent ∧
      simulator.Keeps portfolio (.execute intent book arrivalTimeNs) := by
  obtain ⟨⟨fills, appended, levels, fees, flow⟩, long, distinct⟩ := booked
  rw [List.nil_append] at appended
  simp only [TakerExecutionSimulator.after, Keeps, performed]
  refine ⟨⟨cash, long, distinct⟩, ?_⟩
  cases fills with
  | nil =>
    obtain rfl := unplanned levels.symm
    rw [if_pos (by simp [resultOf, OrderResult.rejected])]
    exact ⟨rfl, rfl⟩
  | cons fill rest =>
    rw [appended]
    obtain ⟨executed, same⟩ := @resultOf_cons intent fill rest
    rw [if_neg executed, same, levels]
    exact ⟨ran, fees, flow⟩

theorem kept_of_unchanged {intent : OrderIntent} {book : OrderBook} {arrivalTimeNs : ℤ}
    {returned : Except PyError OrderResult} (solvent : portfolio.Solvent)
    (performed : simulator.perform intent book portfolio arrivalTimeNs =
      ⟨book, portfolio, returned⟩)
    (refused : ∀ result, returned = .ok result → result.status = .rejected) :
    (simulator.after portfolio (.execute intent book arrivalTimeNs)).Solvent ∧
      simulator.Keeps portfolio (.execute intent book arrivalTimeNs) := by
  simp only [TakerExecutionSimulator.after, Keeps, performed]
  refine ⟨solvent, ?_⟩
  cases returned with
  | error e => exact ⟨trivial, trivial⟩
  | ok result =>
    dsimp only
    rw [if_pos (refused result rfl)]
    exact ⟨trivial, trivial⟩

/-- The checks before the first fill. -/
theorem shortage_buy {intent : OrderIntent} {planned : List PlannedFill} (side : intent.side = .buy)
    (checked : simulator.shortage intent portfolio planned = .ok none) :
    ∃ debits, planned.mapM simulator.debit = .ok debits ∧
      debits.sum ≤ portfolio.availableCashScaled := by
  unfold shortage at checked
  simp only [side, Except.bind_eq_ok, Except.pure_eq_ok] at checked
  obtain ⟨debits, costs, enough⟩ := checked
  refine ⟨debits, costs, not_lt.mp fun short => ?_⟩
  rw [if_pos short] at enough
  cases enough

theorem shortage_sell {intent : OrderIntent} {planned : List PlannedFill}
    (side : intent.side = .sell)
    (checked : simulator.shortage intent portfolio planned = .ok none) :
    (planned.map PlannedFill.sizeScaled).sum ≤ portfolio.inventory intent.tokenId := by
  unfold shortage at checked
  simp only [side, Except.ok.injEq, ite_eq_right_iff, reduceCtorEq, imp_false, not_lt] at checked
  exact checked

/-- An admitted order keeps the portfolio solvent and the promises of a call. -/
theorem execute_kept {intent : OrderIntent} {book : OrderBook} {arrivalTimeNs : ℤ}
    (solvent : portfolio.Solvent)
    (admitted : simulator.Admits portfolio (.execute intent book arrivalTimeNs)) :
    (simulator.after portfolio (.execute intent book arrivalTimeNs)).Solvent ∧
      simulator.Keeps portfolio (.execute intent book arrivalTimeNs) := by
  obtain ⟨positive, sells⟩ := admitted
  by_cases valid : book.valid = true
  swap
  · refine kept_of_unchanged solvent (by simp [perform, valid]; rfl) ?_
    rintro result ⟨⟩
    rfl
  by_cases requested : intent.requestedSharesScaled = none ∧ intent.requestedNotionalScaled = none
  · refine kept_of_unchanged solvent (by simp [perform, valid, requested]; rfl) ?_
    rintro result ⟨⟩
    rfl
  cases ran : plan intent book with
  | error e =>
    refine kept_of_unchanged solvent (by simp [perform, valid, requested, ran]; rfl) ?_
    rintro result ⟨⟩
  | ok planned =>
    cases checked : simulator.shortage intent portfolio planned with
    | error e =>
      refine kept_of_unchanged solvent (by simp [perform, valid, requested, ran, checked]; rfl) ?_
      rintro result ⟨⟩
    | ok short =>
      cases short with
      | some reason =>
        refine kept_of_unchanged solvent (by simp [perform, valid, requested, ran, checked]; rfl) ?_
        rintro result ⟨⟩
        rfl
      | none =>
        have performs : ∀ {after : FillProgress}, simulator.fillLevels intent arrivalTimeNs
            ⟨book, portfolio, []⟩ planned = (after, .ok ()) →
            simulator.perform intent book portfolio arrivalTimeNs =
              ⟨after.book, after.portfolio, .ok (resultOf intent after.fills)⟩ := by
          intro after filled
          simp [perform, valid, requested, ran, checked, filled]
        have unplanned : ∀ {after : FillProgress}, simulator.fillLevels intent arrivalTimeNs
            ⟨book, portfolio, []⟩ planned = (after, .ok ()) → planned = [] →
            after = ⟨book, portfolio, []⟩ := by
          rintro after filled rfl
          exact (congrArg Prod.fst filled).symm
        have sound := plan_sound positive ran
        cases side : intent.side with
        | buy =>
          obtain ⟨debits, costs, enough⟩ := shortage_buy side checked
          obtain ⟨after, filled, booked, cash⟩ := @fillLevels_buy simulator intent arrivalTimeNs side
            planned sound ⟨book, portfolio, []⟩ debits costs enough solvent.long solvent.distinct
          refine kept_of_booked ran (by rw [performs filled]) booked (unplanned filled) ?_
          rw [cash]
          exact sub_nonneg.mpr enough
        | sell =>
          have held := shortage_sell side checked
          cases planned with
          | nil =>
            refine kept_of_unchanged solvent (by rw [performs rfl]) ?_
            rintro result ⟨⟩
            rfl
          | cons first rest =>
            cases charged : simulator.feeModel.calculate first.sizeScaled first.priceScaled with
            | error e =>
              refine kept_of_unchanged solvent
                (by simp [perform, valid, requested, ran, checked, fillLevels, charged]; rfl) ?_
              rintro result ⟨⟩
            | ok fee =>
              obtain ⟨fees, feesRan, bounded⟩ := sells valid side first rest ran held ⟨fee, charged⟩
              obtain ⟨after, filled, booked, cash⟩ := @fillLevels_sell simulator intent arrivalTimeNs
                side _ sound ⟨book, portfolio, []⟩ fees feesRan held solvent.long solvent.distinct
              refine kept_of_booked ran (by rw [performs filled]) booked (unplanned filled) ?_
              rw [cash]
              dsimp only
              omega

/-- The payout of a settlement is what the winner's position holds. -/
theorem sum_tokenPayout {entries : List (String × Position)} (distinct : (entries.map Prod.fst).Nodup)
    (conditionId winningTokenId : String) :
    (entries.map (Portfolio.tokenPayout conditionId winningTokenId)).sum =
      match entries.lookup winningTokenId with
      | some position => if position.conditionId = conditionId then position.sharesScaled else 0
      | none => 0 := by
  induction entries with
  | nil => rfl
  | cons entry rest ih =>
    obtain ⟨unique, distinctRest⟩ := List.nodup_cons.mp distinct
    obtain ⟨tokenId, position⟩ := entry
    rw [List.map_cons, List.sum_cons, ih distinctRest, List.lookup_cons]
    by_cases winner : tokenId = winningTokenId
    · subst winner
      have absent : rest.lookup tokenId = none :=
        List.lookup_eq_none_iff.mpr fun other member => by
          refine bne_iff_ne.mpr fun same => unique ?_
          exact List.mem_map.mpr ⟨other, member, same.symm⟩
      rw [absent, beq_self_eq_true]
      unfold Portfolio.tokenPayout Position.settles
      by_cases own : position.conditionId = conditionId
      · by_cases held : position.sharesScaled = 0
        · simp [own, held]
        · simp [own, held]
      · simp [own]
    · rw [beq_eq_false_iff_ne.mpr (Ne.symm winner)]
      simp [Portfolio.tokenPayout, winner]

theorem settleMarket_kept {conditionId winningTokenId : String} {timestampNs : ℤ}
    (solvent : portfolio.Solvent) :
    (simulator.after portfolio (.settleMarket conditionId winningTokenId timestampNs)).Solvent ∧
      simulator.Keeps portfolio (.settleMarket conditionId winningTokenId timestampNs) := by
  refine ⟨⟨?_, solvent.long.settleMarket, solvent.distinct.settleMarket⟩, ?_⟩
  · refine add_nonneg solvent.cash_nonneg (List.sum_nonneg fun payout member => ?_)
    obtain ⟨entry, known, rfl⟩ := List.mem_map.mp member
    unfold Portfolio.tokenPayout
    split
    · exact (solvent.long entry known).shares_nonneg
    · exact le_rfl
  · exact congrArg (portfolio.availableCashScaled + ·) (sum_tokenPayout solvent.distinct _ _)

theorem call_kept {call : LedgerCall} (solvent : portfolio.Solvent)
    (admitted : simulator.Admits portfolio call) :
    (simulator.after portfolio call).Solvent ∧ simulator.Keeps portfolio call := by
  cases call with
  | execute intent book arrivalTimeNs => exact execute_kept solvent admitted
  | settleMarket conditionId winningTokenId timestampNs => exact settleMarket_kept solvent

/-- One call as a step. -/
def step (simulator : TakerExecutionSimulator) (portfolio : Portfolio) (call : LedgerCall) :
    Option Portfolio := some (simulator.after portfolio call)

end TakerExecutionSimulator

/-- The default fee schedule, and an identifier that is its own name. -/
def defaultTaker : TakerExecutionSimulator where
  feeModel := {
    config := {
      formula := .sharesRatePOneMinusP
      liquidityRole := .taker
      rate := 7 / 100
      exponent := 1
      minimumFee := 1 / 1000000
      rounding := .halfUp }
    minimumScaled := 1 }
  uuid5 := id

/-- One share bid at 0.4 and asked at 0.5. -/
def quotedBook : OrderBook :=
  { OrderBook.init "market" "up" "Up" with
    bids := (∅ : Levels).insert 400000 1000000
    asks := (∅ : Levels).insert 500000 1000000
    valid := true }

/-- A millionth of a share. -/
def dustIntent (side : Side) : OrderIntent where
  orderIntentId := "order"
  strategyId := "strategy"
  decisionTimestampNs := 1
  tokenId := "up"
  conditionId := "market"
  outcome := "Up"
  side := side
  requestedSharesScaled := some 1

theorem quotedBook_positive : quotedBook.Positive := by
  refine (OrderBook.positive_iff_every quotedBook).mpr ⟨?_, ?_⟩
  · exact Levels.Every.empty.insert ⟨by decide, by decide⟩
  · exact Levels.Every.empty.insert ⟨by decide, by decide⟩

end PolymarketBt
