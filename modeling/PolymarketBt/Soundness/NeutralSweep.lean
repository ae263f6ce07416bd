import PolymarketBt.Model.Verify
import PolymarketBt.Proofs.OrderBook
import PolymarketBt.Proofs.Portfolio
import PolymarketBt.Soundness.ConstrainedSweep
import PolymarketBt.Soundness.TakerLedger

/-! # The neutral sweep is the sweep of the reference engine

The reference engine plans its sweep, checks it against cash or inventory, and only then computes
the fees while it books the fills; the executor prices level by level. Without any constraint both
take greedily from the same levels, so they agree wherever the order can be paid for.
-/

namespace PolymarketBt

open Machine GreedyFill TakerExecutor

namespace TakerExecutionSimulator

variable {simulator : TakerExecutionSimulator} {intent : OrderIntent} {book : OrderBook}
  {portfolio : Portfolio} {arrivalTimeNs shares : ℤ}

/-- What a level displays. -/
def shown (level : RankedLevel) : ℤ := level.1.2

/-- The planned fill of a take. -/
def planOf (take : RankedLevel × ℤ) : Except PyError PlannedFill := do
  let notional ← notionalScaled take.2 take.1.1.1
  return ⟨take.1.2 + 1, take.1.1.1, take.2, notional, take.1.1.2 - take.2⟩

/-- The plan of a share request takes greedily from the levels within the limit. -/
theorem forLoop_visit (intent : OrderIntent) {levels : List RankedLevel}
    (positive : ∀ level ∈ levels, 0 < level.1.2)
    {remaining : ℤ} (left : 0 < remaining) (planned : List PlannedFill) :
    (SweepPlan.planned <$> forLoop (SweepPlan.visit intent) ⟨some remaining, none, planned⟩ levels) =
      (planned ++ ·) <$>
        (fill shown remaining (levels.takeWhile (within intent.side intent.limitPriceScaled))).mapM
          planOf := by
  induction levels generalizing remaining planned with
  | nil => simp [forLoop, fill, Functor.map, Except.map, pure, Except.pure]
  | cons level rest ih =>
    obtain ⟨own, others⟩ := List.forall_mem_cons.mp positive
    obtain ⟨⟨price, displayed⟩, rank⟩ := level
    cases inside : within intent.side intent.limitPriceScaled ((price, displayed), rank) with
    | false =>
      have worse : intent.side.beyond intent.limitPriceScaled price = true := by
        simpa [within] using inside
      simp [forLoop, SweepPlan.visit, worse, inside, fill, Functor.map, Except.map, pure, Except.pure]
    | true =>
      have keeps : intent.side.beyond intent.limitPriceScaled price = false := by
        simpa [within] using inside
      have some : 0 < min remaining displayed := lt_min left own
      have wanted : SweepPlan.desired ⟨.some remaining, none, planned⟩ price displayed =
          .ok (min remaining displayed) := rfl
      rw [List.takeWhile_cons_of_pos inside, fill_cons]
      change _ = (planned ++ ·) <$> List.mapM planOf (if 0 < min remaining displayed then
        (((price, displayed), rank), min remaining displayed) ::
          fill shown (remaining - min remaining displayed) _ else _)
      rw [if_pos some]
      cases notional : notionalScaled (min remaining displayed) price with
      | error e =>
        simp [forLoop, SweepPlan.visit, keeps, wanted, not_le.mpr some, planOf, notional,
          Functor.map, Except.map, bind, Except.bind]
      | ok value =>
        have visited : SweepPlan.visit intent ⟨.some remaining, none, planned⟩
            ((price, displayed), rank) = .ok (if remaining - min remaining displayed = 0 then
              .stop ⟨.some (remaining - min remaining displayed), none, planned ++
                [⟨rank + 1, price, min remaining displayed, value, displayed - min remaining displayed⟩]⟩
              else .next ⟨.some (remaining - min remaining displayed), none, planned ++
                [⟨rank + 1, price, min remaining displayed, value, displayed - min remaining displayed⟩]⟩) := by
          simp [SweepPlan.visit, keeps, wanted, not_le.mpr some, notional, SweepPlan.take,
            SweepPlan.done, pure, Except.pure, bind, Except.bind]
        have first : planOf (((price, displayed), rank), min remaining displayed) = .ok
            ⟨rank + 1, price, min remaining displayed, value, displayed - min remaining displayed⟩ := by
          simp only [planOf, notional, Except.ok_bind]
          rfl
        rw [List.mapM_cons, first, Except.ok_bind, forLoop, visited]
        by_cases complete : remaining - min remaining displayed = 0
        · rw [if_pos complete, complete, fill_of_nonpos le_rfl]
          rfl
        · rw [if_neg complete]
          refine (ih others (by omega) _).trans ?_
          cases List.mapM planOf _ with
          | error e => rfl
          | ok more => simp [Functor.map, Except.map, pure, Except.pure, bind, Except.bind]

/-- The levels that a share request sweeps, and what it takes from them. -/
def sharesTaken (intent : OrderIntent) (book : OrderBook) (shares : ℤ) : List (RankedLevel × ℤ) :=
  fill shown shares ((book.availableLevels intent.side.opposite).zipIdx.takeWhile
    (within intent.side intent.limitPriceScaled))

theorem availableLevels_pos (side : Side) :
    ∀ level ∈ book.availableLevels side, 0 < level.2 := by
  intro level member
  obtain ⟨listed, _, kept⟩ := List.mem_filterMap.mp member
  split at kept
  · next some =>
    cases kept
    exact some
  · cases kept

theorem plan_shares (requested : intent.requestedSharesScaled = some shares)
    (noNotional : intent.requestedNotionalScaled = none) (left : 0 < shares) :
    plan intent book = (sharesTaken intent book shares).mapM planOf := by
  have positive : ∀ level ∈ (book.availableLevels intent.side.opposite).zipIdx, 0 < level.1.2 :=
    fun level member => availableLevels_pos _ _ (List.fst_mem_of_mem_zipIdx member)
  have walked := forLoop_visit intent positive left []
  have start : SweepPlan.init intent = ⟨some shares, none, []⟩ := by
    simp only [SweepPlan.init, requested, noNotional]
  unfold plan sharesTaken
  dsimp only
  rw [start, bind_pure_comp, walked]
  simp

/-! ## Booking a plan that is paid for -/

/-- What a planned level is charged. -/
def charge (simulator : TakerExecutionSimulator) (level : PlannedFill) : Except PyError ℤ :=
  simulator.feeModel.calculate level.sizeScaled level.priceScaled

/-- Cash or inventory for the levels that are still to be booked. -/
def Pays (portfolio : Portfolio) (intent : OrderIntent) (planned : List PlannedFill)
    (fees : List ℤ) : Prop :=
  match intent.side with
  | .buy => (planned.map PlannedFill.notionalScaled).sum + fees.sum ≤ portfolio.availableCashScaled
  | .sell => (planned.map PlannedFill.sizeScaled).sum ≤ portfolio.inventory intent.tokenId

/-- Price, size, notional and fee of a fill. -/
def fillFigures (fill : SimulatedFill) : ℤ × ℤ × ℤ × ℤ :=
  (fill.priceScaled, fill.sizeScaled, fill.notionalScaled, fill.feeScaled)

def plannedFigures (level : PlannedFill) (fee : ℤ) : ℤ × ℤ × ℤ × ℤ :=
  (level.priceScaled, level.sizeScaled, level.notionalScaled, fee)

/-- A fill that is paid for is accepted, and leaves enough for the rest. -/
theorem applyFill_paid (simulator : TakerExecutionSimulator) (arrivalTimeNs lastSequence : ℤ)
    {level : PlannedFill} {rest : List PlannedFill} {fee : ℤ} {others : List ℤ} (sound : ∀ level ∈ rest, level.Sound) (nonneg : ∀ fee ∈ others, 0 ≤ fee)
    (pays : Pays portfolio intent (level :: rest) (fee :: others)) :
    ∃ left, portfolio.applyFill (simulator.fillOf intent arrivalTimeNs lastSequence level fee)
        intent.outcome = (left, .ok ()) ∧ Pays left intent rest others := by
  have notionals : 0 ≤ (rest.map PlannedFill.notionalScaled).sum :=
    List.sum_nonneg fun notional member => by
      obtain ⟨other, known, rfl⟩ := List.mem_map.mp member
      exact (sound other known).notional_nonneg
  have sizes : 0 ≤ (rest.map PlannedFill.sizeScaled).sum :=
    List.sum_nonneg fun size member => by
      obtain ⟨other, known, rfl⟩ := List.mem_map.mp member
      exact (sound other known).size_pos.le
  have fees := List.sum_nonneg nonneg
  unfold Pays at pays
  cases side : intent.side with
  | buy =>
    simp only [side, List.map_cons, List.sum_cons] at pays
    refine ⟨_, Portfolio.applyFill_buy side (show level.notionalScaled + fee ≤ _ by omega), ?_⟩
    simp only [Pays, side]
    change _ ≤ portfolio.availableCashScaled - (level.notionalScaled + fee)
    omega
  | sell =>
    simp only [side, List.map_cons, List.sum_cons] at pays
    refine ⟨_, Portfolio.applyFill_sell side
      (show level.sizeScaled ≤ portfolio.inventory intent.tokenId by omega), ?_⟩
    simp only [Pays, side]
    change _ ≤ (portfolio.setPosition intent.tokenId _).inventory intent.tokenId
    rw [Portfolio.inventory_setPosition, Portfolio.sharesScaled_positionFor]
    change _ ≤ portfolio.inventory intent.tokenId - level.sizeScaled
    omega

theorem charges_nonneg {planned : List PlannedFill} {fees : List ℤ}
    (charged : planned.mapM simulator.charge = .ok fees) : ∀ fee ∈ fees, 0 ≤ fee := by
  intro fee member
  obtain ⟨level, _, ran⟩ := (Except.mapM_eq_ok.mp charged).left_of_mem member
  exact FeeModel.calculate_nonneg ran

/-- A plan that is paid for is booked level by level. -/
theorem fillLevels_paid (arrivalTimeNs : ℤ) {planned : List PlannedFill} {fees : List ℤ}
    (progress : FillProgress)
    (sound : ∀ level ∈ planned, level.Sound) (charged : planned.mapM simulator.charge = .ok fees)
    (pays : Pays progress.portfolio intent planned fees) :
    ∃ after, simulator.fillLevels intent arrivalTimeNs progress planned = (after, .ok ()) ∧
      after.fills.map fillFigures =
        progress.fills.map fillFigures ++ List.zipWith plannedFigures planned fees := by
  induction planned generalizing progress fees with
  | nil =>
    cases charged
    exact ⟨progress, rfl, by simp⟩
  | cons level rest ih =>
    simp only [List.mapM_cons, Except.bind_eq_ok, Except.pure_eq_ok] at charged
    obtain ⟨fee, feeRan, others, othersRan, rfl⟩ := charged
    obtain ⟨levelSound, restSound⟩ := List.forall_mem_cons.mp sound
    obtain ⟨left, applied, restPaid⟩ := applyFill_paid simulator arrivalTimeNs
      progress.book.lastSequence restSound (charges_nonneg othersRan) pays
    obtain ⟨after, filled, figures⟩ := ih
      ⟨progress.book.consume intent.side.opposite level.priceScaled level.sizeScaled, left,
        progress.fills ++
          [simulator.fillOf intent arrivalTimeNs progress.book.lastSequence level fee]⟩
      restSound othersRan restPaid
    refine ⟨after, ?_, ?_⟩
    · change simulator.feeModel.calculate level.sizeScaled level.priceScaled = .ok fee at feeRan
      rw [fillLevels, feeRan]
      dsimp only
      rw [applied]
      exact filled
    · rw [figures, List.map_append, List.append_assoc]
      rfl

/-- What is booked has been charged. -/
theorem charged_of_fillLevels {planned : List PlannedFill} {progress after : FillProgress}
    (filled : simulator.fillLevels intent arrivalTimeNs progress planned = (after, .ok ())) :
    (planned.mapM simulator.charge).Returns := by
  refine Except.mapM_returns_iff.mpr ?_
  induction planned generalizing progress with
  | nil => simp
  | cons level rest ih =>
    rw [fillLevels] at filled
    cases feeRan : simulator.feeModel.calculate level.sizeScaled level.priceScaled with
    | error e => simp [feeRan] at filled
    | ok fee =>
      rw [feeRan] at filled
      dsimp only at filled
      split at filled
      · simp at filled
      · exact List.forall_mem_cons.mpr ⟨⟨fee, feeRan⟩, ih filled⟩

end TakerExecutionSimulator

/-! ## The two sweeps -/

/-- The same share request, put to the executor with no minimum size. -/
structure SameOrder (order : TakerOrder) (intent : OrderIntent) (book : OrderBook) : Prop where
  side : order.side = intent.side
  ladder : order.ladder = book.availableLevels intent.side.opposite
  limit : order.limitPriceScaled = intent.limitPriceScaled
  shares : intent.requestedSharesScaled = some order.requestedSharesScaled
  noNotional : intent.requestedNotionalScaled = none
  minimum : order.minimumOrderSizeScaled = 0

/-- The executor of the cross-check, with the fee model of the reference engine. -/
def comparable (simulator : TakerExecutionSimulator) (realism : ExecutionRealism) (latencyMs : ℤ)
    (draws : Draws) : TakerExecutor :=
  ⟨engineComparableRealism realism latencyMs, simulator.feeModel, draws⟩

/-- Price, size, notional and fee of a slice. -/
def sliceFigures (slice : FillSlice) : ℤ × ℤ × ℤ × ℤ :=
  (slice.priceScaled, slice.sizeScaled, slice.notionalScaled, slice.feeScaled)

/-- Cash for what a purchase is charged, inventory for what a sale takes. -/
def Affords (executor : TakerExecutor) (order : TakerOrder) (portfolio : Portfolio)
    (tokenId : String) : Prop :=
  match order.side with
  | .buy => ∀ outcome, executor.execute order = .ok outcome →
      outcome.notionalScaled + outcome.feesScaled ≤ portfolio.availableCashScaled
  | .sell => total (executor.takes order) ≤ portfolio.inventory tokenId

/-- Both executions return the same fills and reject together, or both raise. -/
def SameFills : Except PyError ExecutionOutcome →
    Except PyError (OrderBook × Portfolio × OrderResult) → Prop
  | .ok outcome, .ok (_, _, result) =>
    result.fills.map TakerExecutionSimulator.fillFigures = outcome.slices.map sliceFigures ∧
      (result.status = .rejected ↔ outcome.rejectedReason.isSome)
  | .error _, .error _ => True
  | _, _ => False

section Comparable

variable {simulator : TakerExecutionSimulator} {realism : ExecutionRealism} {latencyMs : ℤ}
  {draws : Draws} {order : TakerOrder} {intent : OrderIntent} {book : OrderBook}

/-- The neutral executor takes what the reference engine plans. -/
theorem takes_comparable (same : SameOrder order intent book) :
    (comparable simulator realism latencyMs draws).takes order =
      TakerExecutionSimulator.sharesTaken intent book order.requestedSharesScaled := by
  have sizes : (comparable simulator realism latencyMs draws).allowance =
      TakerExecutionSimulator.shown := funext fun level => allowed_whole rfl rfl level.1.2
  have accepted : (fun level : RankedLevel =>
      (comparable simulator realism latencyMs draws).accepts order level.1.1) =
        within intent.side intent.limitPriceScaled := by
    funext level
    rw [← same.side, ← same.limit]
    cases side : order.side <;> simp [accepts, within, comparable, engineComparableRealism,
      Side.beyond, side]
  unfold takes TakerExecutionSimulator.sharesTaken
  rw [sizes, eligible, accepted, ← same.ladder]
  rfl

/-- The levels of the plan, and what they are charged, are the slices. -/
theorem figures_of_priced (simulator : TakerExecutionSimulator) {executor : TakerExecutor}
    (model : executor.feeModel = simulator.feeModel)
    {taken : List (RankedLevel × ℤ)} {slices : List FillSlice}
    (ran : taken.mapM executor.priced = .ok slices) :
    ∃ planned fees, taken.mapM TakerExecutionSimulator.planOf = .ok planned ∧
      planned.mapM simulator.charge = .ok fees ∧
      List.zipWith TakerExecutionSimulator.plannedFigures planned fees = slices.map sliceFigures ∧
      (planned.map PlannedFill.notionalScaled).sum = sliceNotional slices ∧
      fees.sum = sliceFees slices ∧ (planned.map PlannedFill.sizeScaled).sum = total taken := by
  induction taken generalizing slices with
  | nil =>
    cases ran
    exact ⟨[], [], rfl, rfl, rfl, rfl, rfl, rfl⟩
  | cons take rest ih =>
    simp only [List.mapM_cons, Except.bind_eq_ok, Except.pure_eq_ok] at ran
    obtain ⟨slice, priced, others, ranOthers, rfl⟩ := ran
    simp only [TakerExecutor.priced, Except.bind_eq_ok, Except.pure_eq_ok] at priced
    obtain ⟨fee, feeRan, notional, notionalRan, rfl⟩ := priced
    obtain ⟨planned, fees, plans, charges, figures, notionals, feeSum, sizes⟩ := ih ranOthers
    let level : PlannedFill :=
      ⟨take.1.2 + 1, take.1.1.1, take.2, notional, take.1.1.2 - take.2⟩
    have planFirst : TakerExecutionSimulator.planOf take = .ok level := by
      simp only [TakerExecutionSimulator.planOf, notionalRan, Except.ok_bind]
      rfl
    have chargeFirst : simulator.charge level = .ok fee := by
      rw [TakerExecutionSimulator.charge, ← model]
      exact feeRan
    refine ⟨level :: planned, fee :: fees, ?_, ?_, ?_, ?_, ?_, ?_⟩
    · rw [List.mapM_cons, planFirst, Except.ok_bind, plans]
      rfl
    · rw [List.mapM_cons, chargeFirst, Except.ok_bind, charges]
      rfl
    · rw [List.zipWith_cons_cons, figures]
      rfl
    · rw [List.map_cons, List.sum_cons, notionals, sliceNotional_cons]
    · rw [List.sum_cons, feeSum, sliceFees_cons]
    · rw [List.map_cons, List.sum_cons, sizes, total_cons]

/-- A plan that is charged can be priced level by level. -/
theorem priced_of_charged {executor : TakerExecutor} (model : executor.feeModel = simulator.feeModel)
    {taken : List (RankedLevel × ℤ)} {planned : List PlannedFill}
    (plans : taken.mapM TakerExecutionSimulator.planOf = .ok planned)
    (charges : (planned.mapM simulator.charge).Returns) :
    (taken.mapM executor.priced).Returns := by
  refine Except.mapM_returns_iff.mpr fun take member => ?_
  obtain ⟨level, inPlan, planRan⟩ := (Except.mapM_eq_ok.mp plans).right_of_mem member
  simp only [TakerExecutionSimulator.planOf, Except.bind_eq_ok, Except.pure_eq_ok] at planRan
  obtain ⟨notional, notionalRan, rfl⟩ := planRan
  obtain ⟨fee, feeRan⟩ := Except.mapM_returns_iff.mp charges _ inPlan
  rw [TakerExecutionSimulator.charge, ← model] at feeRan
  simp only [TakerExecutor.priced]
  refine Except.bind_returns.mpr ⟨fee, feeRan, Except.bind_returns.mpr ⟨notional, notionalRan, ?_⟩⟩
  exact Except.returns_pure _

/-- An order that affords its sweep pays for its plan. -/
theorem pays_of_affords {executor : TakerExecutor} {portfolio : Portfolio}
    (same : SameOrder order intent book) (affords : Affords executor order portfolio intent.tokenId)
    {outcome : ExecutionOutcome} (ran : executor.execute order = .ok outcome)
    (balanced : outcome.Balanced executor) {planned : List PlannedFill} {fees : List ℤ}
    (notionals : (planned.map PlannedFill.notionalScaled).sum = sliceNotional outcome.slices)
    (feeSum : fees.sum = sliceFees outcome.slices)
    (sizes : (planned.map PlannedFill.sizeScaled).sum = total (executor.takes order)) :
    TakerExecutionSimulator.Pays portfolio intent planned fees := by
  unfold Affords at affords
  unfold TakerExecutionSimulator.Pays
  rw [same.side] at affords
  cases side : intent.side with
  | buy =>
    simp only [side] at affords ⊢
    have enough := affords outcome ran
    rwa [balanced.notional, balanced.fees, ← notionals, ← feeSum] at enough
  | sell =>
    simp only [side] at affords ⊢
    rwa [sizes]

theorem debits_of_charges {planned : List PlannedFill} {fees : List ℤ}
    (charges : planned.mapM simulator.charge = .ok fees) :
    ∃ debits, planned.mapM simulator.debit = .ok debits ∧
      debits.sum = (planned.map PlannedFill.notionalScaled).sum + fees.sum := by
  induction planned generalizing fees with
  | nil =>
    cases charges
    exact ⟨[], rfl, rfl⟩
  | cons level rest ih =>
    simp only [List.mapM_cons, Except.bind_eq_ok, Except.pure_eq_ok] at charges
    obtain ⟨fee, feeRan, others, ranOthers, rfl⟩ := charges
    obtain ⟨debits, ran, sum⟩ := ih ranOthers
    change simulator.feeModel.calculate level.sizeScaled level.priceScaled = .ok fee at feeRan
    refine ⟨(level.notionalScaled + fee) :: debits, ?_, ?_⟩
    · simp only [List.mapM_cons, TakerExecutionSimulator.debit, feeRan, Except.ok_bind]
      rw [show List.mapM (fun level => simulator.debit level) rest = .ok debits from ran]
      rfl
    · simp only [List.sum_cons, List.map_cons, sum]
      omega

theorem charges_of_debits {planned : List PlannedFill} {debits : List ℤ}
    (costs : planned.mapM simulator.debit = .ok debits) :
    (planned.mapM simulator.charge).Returns := by
  refine Except.mapM_returns_iff.mpr fun level member => ?_
  obtain ⟨debit, _, ran⟩ := (Except.mapM_eq_ok.mp costs).right_of_mem member
  simp only [TakerExecutionSimulator.debit, Except.bind_eq_ok, Except.pure_eq_ok] at ran
  obtain ⟨fee, feeRan, _⟩ := ran
  exact ⟨fee, feeRan⟩

/-- A plan that is paid for passes the check before its first fill. -/
theorem shortage_of_pays {portfolio : Portfolio} {planned : List PlannedFill} {fees : List ℤ}
    (charges : planned.mapM simulator.charge = .ok fees)
    (pays : TakerExecutionSimulator.Pays portfolio intent planned fees) :
    simulator.shortage intent portfolio planned = .ok none := by
  unfold TakerExecutionSimulator.Pays at pays
  unfold TakerExecutionSimulator.shortage
  cases side : intent.side with
  | buy =>
    simp only [side] at pays ⊢
    obtain ⟨debits, costs, sum⟩ := debits_of_charges charges
    change (planned.mapM simulator.debit >>= _) = _
    rw [costs, Except.ok_bind, if_neg (not_lt.mpr (sum ▸ pays))]
    rfl
  | sell =>
    simp only [side] at pays ⊢
    rw [if_neg (not_lt.mpr pays)]

/-- The reference engine books a plan that it can charge and that is paid for. -/
theorem execute_paid (arrivalTimeNs : ℤ) {portfolio : Portfolio} {shares : ℤ}
    {planned : List PlannedFill} {fees : List ℤ} (valid : book.valid = true) (requested : intent.requestedSharesScaled = some shares)
    (plans : TakerExecutionSimulator.plan intent book = .ok planned)
    (sound : ∀ level ∈ planned, level.Sound) (charges : planned.mapM simulator.charge = .ok fees)
    (pays : TakerExecutionSimulator.Pays portfolio intent planned fees) :
    ∃ after : FillProgress, simulator.execute intent book portfolio arrivalTimeNs =
        .ok (after.book, after.portfolio, TakerExecutionSimulator.resultOf intent after.fills) ∧
      after.fills.map TakerExecutionSimulator.fillFigures =
        List.zipWith TakerExecutionSimulator.plannedFigures planned fees := by
  obtain ⟨after, filled, figures⟩ := TakerExecutionSimulator.fillLevels_paid arrivalTimeNs
    ⟨book, portfolio, []⟩ sound charges pays
  refine ⟨after, ?_, figures⟩
  rw [TakerExecutionSimulator.execute_eq_perform]
  simp only [TakerExecutionSimulator.perform, valid, requested, plans, shortage_of_pays charges pays,
    filled]
  rfl

/-- What the reference engine returns has been charged, where a sale has its inventory. -/
theorem charged_of_execute {portfolio : Portfolio} {arrivalTimeNs shares : ℤ}
    {planned : List PlannedFill} (valid : book.valid = true)
    (requested : intent.requestedSharesScaled = some shares)
    (plans : TakerExecutionSimulator.plan intent book = .ok planned)
    (held : intent.side = .sell →
      (planned.map PlannedFill.sizeScaled).sum ≤ portfolio.inventory intent.tokenId)
    (returned : (simulator.execute intent book portfolio arrivalTimeNs).Returns) :
    (planned.mapM simulator.charge).Returns := by
  obtain ⟨result, ran⟩ := returned
  simp only [TakerExecutionSimulator.execute, valid, requested, plans, Bool.not_true,
    Bool.false_eq_true, if_false, reduceCtorEq, false_and, Except.ok_bind] at ran
  obtain ⟨short, checked, ran⟩ := Except.bind_eq_ok.mp ran
  cases side : intent.side with
  | buy =>
    simp only [TakerExecutionSimulator.shortage, side] at checked
    obtain ⟨debits, costs, -⟩ := Except.bind_eq_ok.mp checked
    exact charges_of_debits costs
  | sell =>
    simp only [TakerExecutionSimulator.shortage, side, if_neg (not_lt.mpr (held side)),
      Except.ok.injEq] at checked
    subst checked
    obtain ⟨progress, folded, -⟩ := Except.bind_eq_ok.mp ran
    rw [TakerExecutionSimulator.foldlM_fillLevel] at folded
    split at folded
    · next filled => exact TakerExecutionSimulator.charged_of_fillLevels filled
    · cases folded

theorem planned_of_execute {portfolio : Portfolio} {arrivalTimeNs shares : ℤ}
    (valid : book.valid = true) (requested : intent.requestedSharesScaled = some shares)
    (returned : (simulator.execute intent book portfolio arrivalTimeNs).Returns) :
    ∃ planned, TakerExecutionSimulator.plan intent book = .ok planned := by
  obtain ⟨result, ran⟩ := returned
  simp only [TakerExecutionSimulator.execute, valid, requested, Bool.not_true, Bool.false_eq_true,
    if_false, reduceCtorEq, false_and] at ran
  obtain ⟨planned, plans, -⟩ := Except.bind_eq_ok.mp ran
  exact ⟨planned, plans⟩

theorem plan_sizes {taken : List (RankedLevel × ℤ)} {planned : List PlannedFill}
    (plans : taken.mapM TakerExecutionSimulator.planOf = .ok planned) :
    (planned.map PlannedFill.sizeScaled).sum = total taken := by
  have each := Except.mapM_eq_ok.mp plans
  induction each with
  | nil => rfl
  | cons first _ ih =>
    simp only [TakerExecutionSimulator.planOf, Except.bind_eq_ok, Except.pure_eq_ok] at first
    obtain ⟨notional, _, rfl⟩ := first
    rw [List.map_cons, List.sum_cons, total_cons, ih (Except.mapM_eq_ok.mpr ‹_›)]

theorem resultOf_fills {fills : List SimulatedFill} :
    (TakerExecutionSimulator.resultOf intent fills).fills = fills := by
  cases fills with
  | nil => rfl
  | cons fill rest => exact TakerExecutionSimulator.resultOf_cons.2

theorem resultOf_rejected {fills : List SimulatedFill} :
    (TakerExecutionSimulator.resultOf intent fills).status = .rejected ↔ fills = [] := by
  cases fills with
  | nil => exact iff_of_true rfl rfl
  | cons fill rest => exact iff_of_false TakerExecutionSimulator.resultOf_cons.1 (by simp)

/-- Under the realism of the cross-check, with no minimum size, the executor and the reference
engine fill a share request that can be paid for alike. -/
theorem neutral_sweep_same_fills (simulator : TakerExecutionSimulator) (realism : ExecutionRealism)
    (latencyMs : ℤ) (draws : Draws) (order : TakerOrder) (intent : OrderIntent) (book : OrderBook)
    (portfolio : Portfolio) (arrivalTimeNs : ℤ) (same : SameOrder order intent book)
    (valid : book.valid = true) (positive : book.Positive)
    (requested : 0 < order.requestedSharesScaled)
    (affords : Affords (comparable simulator realism latencyMs draws) order portfolio
      intent.tokenId) :
    SameFills ((comparable simulator realism latencyMs draws).execute order)
      (simulator.execute intent book portfolio arrivalTimeNs) := by
  set executor := comparable simulator realism latencyMs draws with executor_eq
  have takes : executor.takes order = _ := takes_comparable same
  have plans := @TakerExecutionSimulator.plan_shares intent book _ same.shares same.noNotional requested
  rw [← takes] at plans
  have shown : ∀ level ∈ order.ladder, 0 < level.2 := by
    rw [same.ladder]
    exact TakerExecutionSimulator.availableLevels_pos _
  have minimum : order.minimumOrderSizeScaled ≤ order.requestedSharesScaled := by
    rw [same.minimum]
    exact requested.le
  obtain ⟨constrained, returns⟩ := execute_constrained executor order shown requested minimum rfl
  by_cases priced : ((executor.takes order).mapM executor.priced).Returns
  · obtain ⟨slices, priced⟩ := priced
    obtain ⟨outcome, ran, rfl⟩ := execute_takes shown requested minimum rfl priced
    obtain ⟨planned, fees, planRan, charges, figures, notionals, feeSum, sizes⟩ :=
      figures_of_priced simulator rfl priced
    rw [planRan] at plans
    have sweep := constrained outcome ran
    obtain ⟨after, executed, filled⟩ := execute_paid arrivalTimeNs valid same.shares plans
      (TakerExecutionSimulator.plan_sound positive plans) charges
      (pays_of_affords same affords ran sweep.balanced notionals feeSum sizes)
    rw [ran, executed]
    have same := filled.trans figures
    change ((TakerExecutionSimulator.resultOf intent after.fills).fills.map _ = _) ∧ _
    rw [resultOf_fills, resultOf_rejected, sweep.rejected, sweep.balanced.shares,
      sweep.balanced.unfilled_iff]
    refine ⟨same, ?_⟩
    rw [← List.map_eq_nil_iff (f := TakerExecutionSimulator.fillFigures), same, List.map_eq_nil_iff]
  · have raised : ¬ (executor.execute order).Returns := by
      rwa [returns, ← Except.mapM_returns_iff]
    have refused : ¬ (simulator.execute intent book portfolio arrivalTimeNs).Returns := by
      intro returned
      obtain ⟨planned, planRan⟩ := planned_of_execute valid same.shares returned
      rw [planRan] at plans
      have held : intent.side = .sell →
          (planned.map PlannedFill.sizeScaled).sum ≤ portfolio.inventory intent.tokenId := by
        intro side
        rw [plan_sizes plans.symm]
        simpa only [Affords, same.side, side] using affords
      exact priced (priced_of_charged rfl plans.symm
        (charged_of_execute valid same.shares planRan held returned))
    cases ran : executor.execute order with
    | ok outcome => exact absurd ⟨outcome, ran⟩ raised
    | error e =>
      cases executed : simulator.execute intent book portfolio arrivalTimeNs with
      | ok result => exact absurd ⟨result, executed⟩ refused
      | error e => trivial

end Comparable

/-- The quoted book after an earlier simulated fill has taken a part of its ask. -/
def consumedBook : OrderBook := quotedBook.consume .sell 500000 400000

def shareIntent : OrderIntent := { dustIntent .buy with requestedSharesScaled := some 2000000 }

def shareOrder : TakerOrder where
  side := .buy
  ladder := consumedBook.availableLevels .sell
  requestedSharesScaled := 2000000
  limitPriceScaled := none
  referencePriceScaled := none
  realisedVolumeScaled := none
  decisionUtcNs := 0
  arrivalUtcNs := 0
  bookAgeNs := 0
  minimumOrderSizeScaled := 0
  tickSizeScaled := 10000

theorem consumedBook_positive : consumedBook.Positive :=
  ⟨quotedBook_positive.1, quotedBook_positive.2⟩

theorem neutral_sweep_same_fills_consumed :
    SameFills ((comparable defaultTaker cappedExecutor.realism 50 cappedExecutor.draws).execute shareOrder)
      (defaultTaker.execute shareIntent consumedBook (Portfolio.init 1000000 false false) 1) := by
  have cost : ((comparable defaultTaker cappedExecutor.realism 50 cappedExecutor.draws).execute
      shareOrder).toOption.map (fun outcome => outcome.notionalScaled + outcome.feesScaled) =
        some 310500 := by decide +kernel
  refine neutral_sweep_same_fills defaultTaker cappedExecutor.realism 50 cappedExecutor.draws
    shareOrder shareIntent consumedBook (Portfolio.init 1000000 false false) 1
    ⟨rfl, rfl, rfl, rfl, rfl, rfl⟩ rfl consumedBook_positive (by decide) fun outcome ran => ?_
  simp only [ran, Except.toOption, Option.map_some, Option.some.injEq] at cost
  rw [cost]
  decide

end PolymarketBt
