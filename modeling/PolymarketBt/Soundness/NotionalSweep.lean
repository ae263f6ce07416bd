import PolymarketBt.Proofs.ExecutionReturns
import PolymarketBt.Soundness.NeutralSweep

/-! # Orders sized by notional

A notional request buys of every level what the rest of it affords, rounded down to whole share
units, and pays for it rounded half up. Where a level is more than the rest affords, the two
roundings may leave one unit of collateral unspent, and the sweep goes on to a worse level.
-/

namespace PolymarketBt

open Machine GreedyFill TakerExecutor

/-- The unrounded notional of an exact amount of collateral. -/
theorem notional_exact {bound : ℤ} (nonneg : 0 ≤ bound) (fits : bound ≤ 10 ^ Decimal.precision) :
    Decimal.div (Decimal.fix ((bound * polymarketPriceScale : ℤ) : ℚ)) polymarketPriceScale =
      bound := by
  have scaled : ((bound * polymarketPriceScale : ℤ) : ℚ) = bound * (10 : ℚ) ^ (6 : ℤ) := by
    push_cast [polymarketPriceScale]
    norm_num
  have whole := Decimal.fix_exact (k := 0) nonneg fits
  rw [zpow_zero, mul_one] at whole
  rw [scaled, Decimal.fix_exact nonneg fits, Decimal.div, ← scaled]
  push_cast
  rw [mul_div_cancel_right₀ _ (by norm_num [polymarketPriceScale]), whole]

theorem notionalScaled_eq_ok_fix {size price notional : ℤ} :
    notionalScaled size price = .ok notional ↔
      Decimal.quantize .halfUp (Decimal.div (Decimal.fix ((size * price : ℤ) : ℚ))
        polymarketPriceScale) = some notional := by
  have product : Decimal.fix ((size * price : ℤ) : ℚ) = Decimal.mul size price := by
    rw [Decimal.mul]
    push_cast
    rfl
  rw [product]
  exact notionalScaled_eq_ok

/-- A notional is at most a bound that its size and price do not exceed. -/
theorem notionalScaled_le {size price bound notional : ℤ} (nonneg : 0 ≤ size * price)
    (le : size * price ≤ bound * polymarketPriceScale)
    (ran : notionalScaled size price = .ok notional) : notional ≤ bound := by
  obtain ⟨fits, rounded⟩ := Decimal.quantize_eq_some.mp (notionalScaled_eq_ok_fix.mp ran)
  rcases le_total bound (10 ^ Decimal.precision) with small | large
  · have funded : 0 ≤ bound := by
      simp only [polymarketPriceScale] at le
      omega
    have product : (0 : ℚ) ≤ ((size * price : ℤ) : ℚ) := by exact_mod_cast nonneg
    have scaled : ((size * price : ℤ) : ℚ) ≤ ((bound * polymarketPriceScale : ℤ) : ℚ) := by
      exact_mod_cast le
    have below := Decimal.div_mono (y := (polymarketPriceScale : ℚ)) (Decimal.fix_nonneg product)
      (by norm_num [polymarketPriceScale]) (Decimal.fix_mono product scaled)
    rw [notional_exact funded small] at below
    have result := Decimal.Rounding.toInt_mono .halfUp
      (Decimal.div_nonneg (Decimal.fix_nonneg product) (by norm_num [polymarketPriceScale])) below
    rwa [rounded, Decimal.Rounding.toInt_intCast] at result
  · exact ((le_abs_self notional).trans fits.le).trans large

/-- A notional is at least an amount that its size and price reach. -/
theorem le_notionalScaled {size price bound notional : ℤ} (funded : 0 ≤ bound)
    (le : bound * polymarketPriceScale ≤ size * price)
    (ran : notionalScaled size price = .ok notional) : bound ≤ notional := by
  obtain ⟨fits, rounded⟩ := Decimal.quantize_eq_some.mp (notionalScaled_eq_ok_fix.mp ran)
  set least := min bound (10 ^ Decimal.precision) with least_eq
  have nonneg : 0 ≤ least := le_min funded (by positivity)
  have reached : least * polymarketPriceScale ≤ size * price :=
    (mul_le_mul_of_nonneg_right (min_le_left _ _) (by decide)).trans le
  have product : (0 : ℚ) ≤ ((least * polymarketPriceScale : ℤ) : ℚ) := by
    exact_mod_cast mul_nonneg nonneg (by decide)
  have scaled : ((least * polymarketPriceScale : ℤ) : ℚ) ≤ ((size * price : ℤ) : ℚ) := by
    exact_mod_cast reached
  have above := Decimal.div_mono (y := (polymarketPriceScale : ℚ)) (Decimal.fix_nonneg product)
    (by norm_num [polymarketPriceScale]) (Decimal.fix_mono product scaled)
  rw [notional_exact nonneg (min_le_right _ _)] at above
  have result := Decimal.Rounding.toInt_mono .halfUp (by exact_mod_cast nonneg) above
  rw [rounded, Decimal.Rounding.toInt_intCast] at result
  have below := (le_abs_self notional).trans_lt fits
  omega

/-! ## The walk -/

/-- The shares that the rest of a notional request affords at a price, rounded down. -/
def affordable (remaining price : ℤ) : ℤ := remaining * shareSizeScale / max price 1

/-- What a notional request buys of a level. -/
def boughtAt (remaining : ℤ) (level : RankedLevel) : ℤ :=
  min level.1.2 (affordable remaining level.1.1)

def fillAt (remaining notional : ℤ) (level : RankedLevel) : PlannedFill where
  rank := level.2 + 1
  priceScaled := level.1.1
  sizeScaled := boughtAt remaining level
  notionalScaled := notional
  displayedAfterScaled := level.1.2 - boughtAt remaining level

/-- The notional of a whole level. -/
def levelNotional (level : RankedLevel) : Except PyError ℤ := notionalScaled level.1.2 level.1.1

/-- The plan of a notional request over its levels: at each it buys what it affords, until nothing
is left of the request. -/
inductive Spends : ℤ → List RankedLevel → List PlannedFill → Prop
  | ended {remaining : ℤ} : Spends remaining [] []
  | last {remaining notional : ℤ} {level : RankedLevel} {rest : List RankedLevel}
    (cost : notionalScaled (boughtAt remaining level) level.1.1 = .ok notional)
    (spent : remaining ≤ notional) :
    Spends remaining (level :: rest) [fillAt remaining notional level]
  | more {remaining notional : ℤ} {level : RankedLevel} {rest : List RankedLevel}
    {planned : List PlannedFill}
    (cost : notionalScaled (boughtAt remaining level) level.1.1 = .ok notional)
    (left : notional < remaining) (later : Spends (remaining - notional) rest planned) :
    Spends remaining (level :: rest) (fillAt remaining notional level :: planned)

/-- A level as a book shows it: a price between zero and one, and a size. -/
def Quoted (level : RankedLevel) : Prop :=
  0 < level.1.1 ∧ level.1.1 < priceMaxScaled ∧ 0 < level.1.2

theorem affordable_pos {remaining price : ℤ} (left : 0 < remaining) (priced : 0 < price)
    (below : price < priceMaxScaled) : 0 < affordable remaining price := by
  have enough : price ≤ remaining * shareSizeScale := by
    simp only [priceMaxScaled, polymarketPriceScale, shareSizeScale] at below ⊢
    omega
  unfold affordable
  rw [max_eq_left (by omega)]
  exact Int.add_one_le_iff.mp ((Int.le_ediv_iff_mul_le priced).mpr (by omega))

theorem boughtAt_pos {remaining : ℤ} {level : RankedLevel} (quoted : Quoted level)
    (left : 0 < remaining) : 0 < boughtAt remaining level :=
  lt_min quoted.2.2 (affordable_pos left quoted.1 quoted.2.1)

/-- The loop of the simulator is the walk. -/
theorem forLoop_spends {intent : OrderIntent} {levels : List RankedLevel}
    (quoted : ∀ level ∈ levels, Quoted level) {remaining : ℤ} (left : 0 < remaining)
    {planned : List PlannedFill} {final : SweepPlan}
    (ran : forLoop (SweepPlan.visit intent) ⟨none, some remaining, planned⟩ levels = .ok final) :
    ∃ own, final.planned = planned ++ own ∧
      Spends remaining (levels.takeWhile (within intent.side intent.limitPriceScaled)) own := by
  induction levels generalizing remaining planned with
  | nil =>
    cases ran
    exact ⟨[], by simp, .ended⟩
  | cons level rest ih =>
    obtain ⟨own, others⟩ := List.forall_mem_cons.mp quoted
    obtain ⟨⟨price, displayed⟩, rank⟩ := level
    cases inside : within intent.side intent.limitPriceScaled ((price, displayed), rank) with
    | false =>
      have worse : intent.side.beyond intent.limitPriceScaled price = true := by
        simpa [within] using inside
      simp only [forLoop, SweepPlan.visit, worse, if_true, Except.ok.injEq] at ran
      subst ran
      refine ⟨[], by simp, ?_⟩
      rw [List.takeWhile_cons_of_neg (by simp [inside])]
      exact .ended
    | true =>
      have keeps : intent.side.beyond intent.limitPriceScaled price = false := by
        simpa [within] using inside
      have some := boughtAt_pos own left
      have wanted : SweepPlan.desired ⟨none, .some remaining, planned⟩ price displayed =
          .ok (boughtAt remaining ((price, displayed), rank)) := rfl
      rw [List.takeWhile_cons_of_pos inside]
      obtain ⟨flow, visited, resumes⟩ := forLoop_cons_resumes ran
      simp only [SweepPlan.visit, keeps, Bool.false_eq_true, if_false, wanted, Except.ok_bind,
        not_le.mpr some] at visited
      obtain ⟨notional, cost, visited⟩ := Except.bind_eq_ok.mp visited
      obtain rfl := Except.pure_eq_ok.mp visited
      set taken : SweepPlan := ⟨none, .some (max 0 (remaining - notional)),
        planned ++ [fillAt remaining notional ((price, displayed), rank)]⟩ with taken_eq
      change Resumes _ rest (if taken.done = true then .stop taken else .next taken) final at resumes
      have complete : taken.done = true ↔ remaining ≤ notional := by
        simp [taken, SweepPlan.done]
      by_cases spent : remaining ≤ notional
      · rw [if_pos (complete.mpr spent)] at resumes
        obtain rfl : taken = final := resumes
        exact ⟨_, rfl, .last cost spent⟩
      · rw [if_neg (fun done => spent (complete.mp done))] at resumes
        have positive : 0 < remaining - notional := by omega
        rw [taken_eq, max_eq_right positive.le] at resumes
        obtain ⟨later, same, spends⟩ := ih others positive resumes
        exact ⟨fillAt remaining notional ((price, displayed), rank) :: later, by simp [same],
          .more cost (not_le.mp spent) spends⟩

/-! ## What the walk spends -/

/-- The sizes and notionals of a plan are as the request wants them: no more than the request in
all; every better level is bought whole before a worse one is touched; and all of the request, if
the depth has as much. -/
structure SpendsAll (remaining : ℤ) (levels : List RankedLevel) (planned : List PlannedFill) :
    Prop where
  within : (planned.map PlannedFill.notionalScaled).sum ≤ remaining
  ordered : ∀ fill ∈ planned, ∀ better ∈ levels, better.2 + 1 < fill.rank →
    ∃ earlier ∈ planned, earlier.rank = better.2 + 1 ∧ earlier.sizeScaled = better.1.2
  all : (planned.map PlannedFill.notionalScaled).sum = remaining ∨
    ∃ costs, levels.mapM levelNotional = .ok costs ∧ costs.sum < remaining

/-- Where the request runs out within a level, what the rest affords there costs exactly the rest. -/
def Settles (remaining : ℤ) (levels : List RankedLevel) : Prop :=
  ∀ better level worse costs, levels = better ++ level :: worse →
    better.mapM levelNotional = .ok costs → costs.sum < remaining →
    affordable (remaining - costs.sum) level.1.1 < level.1.2 →
    notionalScaled (affordable (remaining - costs.sum) level.1.1) level.1.1 =
      .ok (remaining - costs.sum)

theorem Settles.cons_iff {remaining notional : ℤ} {level : RankedLevel} {rest : List RankedLevel}
    (whole : level.1.2 ≤ affordable remaining level.1.1)
    (cost : levelNotional level = .ok notional) :
    Settles remaining (level :: rest) ↔ Settles (remaining - notional) rest := by
  constructor
  · intro settles better next worse costs split ran below partly
    have all : (level :: better).mapM levelNotional = .ok (notional :: costs) := by
      rw [List.mapM_cons, cost, Except.ok_bind, ran]
      rfl
    have sum : remaining - (notional :: costs).sum = remaining - notional - costs.sum := by
      rw [List.sum_cons]
      omega
    have exact := settles (level :: better) next worse (notional :: costs) (by rw [split]; rfl) all
    rw [sum] at exact
    exact exact (by rw [List.sum_cons]; omega) partly
  · intro settles better next worse costs split ran below partly
    cases better with
    | nil =>
      obtain ⟨rfl, rfl⟩ := List.cons.inj split
      rw [List.mapM_nil] at ran
      obtain rfl := Except.pure_eq_ok.mp ran
      simp only [List.sum_nil, sub_zero] at partly
      exact absurd partly (not_lt.mpr whole)
    | cons first better =>
      obtain ⟨rfl, same⟩ := List.cons.inj split
      simp only [List.mapM_cons, cost, Except.ok_bind, Except.bind_eq_ok, Except.pure_eq_ok] at ran
      obtain ⟨others, ran, rfl⟩ := ran
      have sum : remaining - (notional :: others).sum = remaining - notional - others.sum := by
        rw [List.sum_cons]
        omega
      rw [List.sum_cons] at below
      rw [sum] at partly ⊢
      exact settles better next worse others same ran (by omega) partly

/-- A level's notional is at least the rest of a request that does not buy it whole. -/
theorem remaining_le_levelNotional {remaining notional : ℤ} {level : RankedLevel}
    (quoted : Quoted level) (left : 0 < remaining)
    (partly : affordable remaining level.1.1 < level.1.2)
    (cost : levelNotional level = .ok notional) : remaining ≤ notional := by
  unfold affordable at partly
  have priced := quoted.1
  rw [max_eq_left (by omega), Int.ediv_lt_iff_lt_mul priced] at partly
  exact le_notionalScaled left.le partly.le cost

theorem bought_le_remaining {remaining notional : ℤ} {level : RankedLevel} (quoted : Quoted level)
    (left : 0 < remaining) (cost : notionalScaled (boughtAt remaining level) level.1.1 = .ok notional) :
    notional ≤ remaining := by
  have priced := quoted.1
  have bought := boughtAt_pos quoted left
  have afforded : boughtAt remaining level ≤ affordable remaining level.1.1 := min_le_right _ _
  unfold affordable at afforded
  rw [max_eq_left (by omega), Int.le_ediv_iff_mul_le priced] at afforded
  exact notionalScaled_le (mul_pos bought priced).le afforded cost

theorem levelNotionals_nonneg {levels : List RankedLevel} {costs : List ℤ}
    (quoted : ∀ level ∈ levels, Quoted level) (ran : levels.mapM levelNotional = .ok costs) :
    0 ≤ costs.sum := by
  refine List.sum_nonneg fun cost member => ?_
  obtain ⟨level, inLevels, paid⟩ := (Except.mapM_eq_ok.mp ran).left_of_mem member
  exact notionalScaled_nonneg (quoted level inLevels).2.2.le (quoted level inLevels).1.le paid

/-- A request that runs out at its first level settles when what it affords there costs all of it. -/
theorem Settles.of_first {remaining : ℤ} {level : RankedLevel} {rest : List RankedLevel}
    (quoted : ∀ level ∈ rest, Quoted level)
    (first : affordable remaining level.1.1 < level.1.2 →
      notionalScaled (affordable remaining level.1.1) level.1.1 = .ok remaining)
    (enough : ∀ notional, levelNotional level = .ok notional → remaining ≤ notional) :
    Settles remaining (level :: rest) := by
  intro better next worse costs split ran below partly
  cases better with
  | nil =>
    obtain ⟨rfl, rfl⟩ := List.cons.inj split
    rw [List.mapM_nil] at ran
    obtain rfl := Except.pure_eq_ok.mp ran
    simp only [List.sum_nil, sub_zero] at partly ⊢
    exact first partly
  | cons head better =>
    obtain ⟨rfl, same⟩ := List.cons.inj split
    simp only [List.mapM_cons, Except.bind_eq_ok, Except.pure_eq_ok] at ran
    obtain ⟨notional, cost, others, ran, rfl⟩ := ran
    have inside : ∀ level ∈ better, Quoted level := fun level member =>
      quoted level (same ▸ List.mem_append_left _ member)
    have nonneg := levelNotionals_nonneg inside ran
    have covered := enough notional cost
    rw [List.sum_cons] at below
    omega

theorem Spends.rank_mem {remaining : ℤ} {levels : List RankedLevel} {planned : List PlannedFill}
    (spends : Spends remaining levels planned) :
    ∀ fill ∈ planned, ∃ level ∈ levels, fill.rank = level.2 + 1 := by
  induction spends with
  | ended => simp
  | @last remaining notional level rest cost spent =>
    intro fill member
    obtain rfl := List.mem_singleton.mp member
    exact ⟨level, List.mem_cons_self, rfl⟩
  | @more remaining notional level rest planned cost left later ih =>
    intro fill member
    rcases List.mem_cons.mp member with rfl | inRest
    · exact ⟨level, List.mem_cons_self, rfl⟩
    · obtain ⟨other, known, rank⟩ := ih fill inRest
      exact ⟨other, List.mem_cons_of_mem _ known, rank⟩

/-- The fills of a plan come from its levels, so a fill of the first level is the first fill. -/
theorem Spends.first_of_rank {remaining : ℤ} {level : RankedLevel} {rest : List RankedLevel}
    {first fill : PlannedFill} {later : List PlannedFill} (spends : Spends remaining rest later)
    (ranked : ∀ worse ∈ rest, level.2 < worse.2) (member : fill ∈ first :: later)
    (rank : fill.rank = level.2 + 1) : fill = first := by
  rcases List.mem_cons.mp member with same | inLater
  · exact same
  · obtain ⟨worse, known, own⟩ := spends.rank_mem fill inLater
    have := ranked worse known
    omega

/-- Behind a level bought whole, the rest of the request is spent on the rest of the levels. -/
theorem SpendsAll.cons_iff {remaining notional : ℤ} {level : RankedLevel}
    {rest : List RankedLevel} {planned : List PlannedFill}
    (ranked : ∀ worse ∈ rest, level.2 < worse.2) (whole : boughtAt remaining level = level.1.2)
    (cost : levelNotional level = .ok notional) :
    SpendsAll remaining (level :: rest) (fillAt remaining notional level :: planned) ↔
      SpendsAll (remaining - notional) rest planned := by
  constructor
  · rintro ⟨within, ordered, all⟩
    simp only [List.map_cons, List.sum_cons, fillAt] at within all
    refine ⟨by omega, fun fill member better known worse => ?_, ?_⟩
    · obtain ⟨earlier, inPlan, rank, size⟩ := ordered fill (List.mem_cons_of_mem _ member) better
        (List.mem_cons_of_mem _ known) worse
      rcases List.mem_cons.mp inPlan with rfl | inLater
      · have := ranked better known
        simp only [fillAt] at rank
        omega
      · exact ⟨earlier, inLater, rank, size⟩
    · rcases all with spent | ⟨costs, ran, below⟩
      · exact .inl (by omega)
      · simp only [List.mapM_cons, cost, Except.ok_bind, Except.bind_eq_ok, Except.pure_eq_ok] at ran
        obtain ⟨others, ran, rfl⟩ := ran
        rw [List.sum_cons] at below
        exact .inr ⟨others, ran, by omega⟩
  · rintro ⟨within, ordered, all⟩
    refine ⟨?_, fun fill member better known worse => ?_, ?_⟩
    · simp only [List.map_cons, List.sum_cons, fillAt]
      omega
    · rcases List.mem_cons.mp known with rfl | inRest
      · exact ⟨_, List.mem_cons_self, rfl, whole⟩
      · rcases List.mem_cons.mp member with rfl | inLater
        · have := ranked better inRest
          simp only [fillAt] at worse
          omega
        · obtain ⟨earlier, inPlan, found⟩ := ordered fill inLater better inRest worse
          exact ⟨earlier, List.mem_cons_of_mem _ inPlan, found⟩
    · rcases all with spent | ⟨costs, ran, below⟩
      · left
        simp only [List.map_cons, List.sum_cons, fillAt]
        omega
      · refine .inr ⟨notional :: costs, ?_, by rw [List.sum_cons]; omega⟩
        rw [List.mapM_cons, cost, Except.ok_bind, ran]
        rfl

/-- A unit left at a level that was not bought whole is spent on a worse level or not at all. -/
theorem not_spendsAll {remaining notional : ℤ} {level : RankedLevel} {rest : List RankedLevel}
    {planned : List PlannedFill} (quoted : Quoted level) (funded : 0 < remaining)
    (ranked : ∀ worse ∈ rest, level.2 < worse.2)
    (partly : affordable remaining level.1.1 < level.1.2) (left : notional < remaining)
    (later : Spends (remaining - notional) rest planned) :
    ¬ SpendsAll remaining (level :: rest) (fillAt remaining notional level :: planned) := by
  rintro ⟨-, ordered, all⟩
  cases planned with
  | nil =>
    cases later
    simp only [List.map_cons, List.map_nil, List.sum_cons, List.sum_nil, fillAt] at all
    rcases all with spent | ⟨costs, ran, below⟩
    · omega
    · simp only [List.mapM_cons, List.mapM_nil, Except.bind_eq_ok, Except.pure_eq_ok] at ran
      obtain ⟨cost, own, others, none, rfl⟩ := ran
      subst none
      have := remaining_le_levelNotional quoted funded partly own
      simp at below
      omega
  | cons next others =>
    obtain ⟨worse, known, rank⟩ := later.rank_mem next List.mem_cons_self
    have behind := ranked worse known
    obtain ⟨earlier, inPlan, ownRank, size⟩ := ordered next
      (List.mem_cons_of_mem _ List.mem_cons_self) level List.mem_cons_self (by omega)
    obtain rfl := later.first_of_rank ranked inPlan ownRank
    have bought : boughtAt remaining level = level.1.2 := size
    have most : boughtAt remaining level ≤ affordable remaining level.1.1 := min_le_right _ _
    omega

/-- A request is spent as it should be exactly when it settles. -/
theorem Spends.spendsAll_iff {remaining : ℤ} {levels : List RankedLevel}
    {planned : List PlannedFill} (spends : Spends remaining levels planned)
    (quoted : ∀ level ∈ levels, Quoted level) (funded : 0 < remaining)
    (ranked : levels.Pairwise fun better worse => better.2 < worse.2) :
    SpendsAll remaining levels planned ↔ Settles remaining levels := by
  induction spends with
  | ended =>
    refine iff_of_true ⟨by simpa using funded.le, by simp, .inr ⟨[], rfl, by simpa using funded⟩⟩ ?_
    intro better level worse costs split
    simp at split
  | @last remaining notional level rest cost spent =>
    obtain ⟨own, others⟩ := List.forall_mem_cons.mp quoted
    obtain ⟨behind, -⟩ := List.pairwise_cons.mp ranked
    obtain rfl : notional = remaining := le_antisymm (bought_le_remaining own funded cost) spent
    refine iff_of_true ⟨by simp [fillAt], ?_, .inl (by simp [fillAt])⟩ ?_
    · intro fill member better known worse
      obtain rfl := List.mem_singleton.mp member
      simp only [fillAt] at worse
      rcases List.mem_cons.mp known with rfl | inRest
      · omega
      · have := behind better inRest
        omega
    · refine Settles.of_first others (fun partly => ?_) fun whole paid => ?_
      · rwa [boughtAt, min_eq_right partly.le] at cost
      · rcases lt_or_ge (affordable notional level.1.1) level.1.2 with partly | enough
        · exact remaining_le_levelNotional own funded partly paid
        · rw [boughtAt, min_eq_left enough] at cost
          rw [levelNotional, cost] at paid
          cases paid
          exact le_rfl
  | @more remaining notional level rest planned cost left later ih =>
    obtain ⟨own, others⟩ := List.forall_mem_cons.mp quoted
    obtain ⟨behind, sorted⟩ := List.pairwise_cons.mp ranked
    rcases lt_or_ge (affordable remaining level.1.1) level.1.2 with partly | enough
    · refine iff_of_false (not_spendsAll own funded behind partly left later) fun settles => ?_
      have exact := settles [] level rest [] rfl rfl (by simpa using funded) (by simpa using partly)
      rw [boughtAt, min_eq_right partly.le] at cost
      simp only [List.sum_nil, sub_zero, cost, Except.ok.injEq] at exact
      omega
    · have whole : boughtAt remaining level = level.1.2 := min_eq_left enough
      have paid : levelNotional level = .ok notional := by
        rw [levelNotional, ← whole]
        exact cost
      rw [SpendsAll.cons_iff behind whole paid, Settles.cons_iff enough paid]
      exact ih others (by omega) sorted

/-! ## The executed order -/

/-- The levels that an order may take from. -/
def executableLevels (intent : OrderIntent) (book : OrderBook) : List RankedLevel :=
  (book.availableLevels intent.side.opposite).zipIdx.takeWhile
    (within intent.side intent.limitPriceScaled)

/-- A result spends at most the notional of its request, buys every better level whole before a
worse one, and is filled unless the depth within the limit has less notional. -/
structure SpendsNotional (intent : OrderIntent) (book : OrderBook) (requested : ℤ)
    (result : OrderResult) : Prop where
  within : (result.fills.map SimulatedFill.notionalScaled).sum ≤ requested
  ordered : ∀ fill ∈ result.fills, ∀ better ∈ executableLevels intent book,
    better.2 + 1 < fill.levelRank → ∃ earlier ∈ result.fills,
      earlier.levelRank = better.2 + 1 ∧ earlier.sizeScaled = better.1.2
  filled : result.status = .filled ∨ ∃ costs,
    (executableLevels intent book).mapM levelNotional = .ok costs ∧ costs.sum < requested

/-- Both sides of a book quote prices between zero and one. -/
def OrderBook.Quotes (book : OrderBook) : Prop :=
  book.Every fun price size => 0 < price ∧ price < priceMaxScaled ∧ 0 < size

section Executed

variable {simulator : TakerExecutionSimulator} {intent : OrderIntent} {book : OrderBook}
  {arrivalTimeNs requested : ℤ}

theorem availableLevels_quoted (quotes : book.Quotes) (side : Side) :
    ∀ level ∈ (book.availableLevels side).zipIdx, Quoted level := by
  intro level member
  obtain ⟨listed, inBook, kept⟩ := List.mem_filterMap.mp (List.fst_mem_of_mem_zipIdx member)
  have shows := quotes.of_mem_levels inBook
  split at kept
  · next some =>
    have same := Option.some.inj kept
    unfold Quoted
    rw [← same]
    exact ⟨shows.1, shows.2.1, some⟩
  · cases kept

theorem executableLevels_ranked :
    (executableLevels intent book).Pairwise fun better worse => better.2 < worse.2 :=
  (zipIdx_ranked _).sublist (List.takeWhile_sublist _)

theorem plan_spends (quotes : book.Quotes) (noShares : intent.requestedSharesScaled = none)
    (notional : intent.requestedNotionalScaled = some requested) (positive : 0 < requested)
    {planned : List PlannedFill}
    (ran : TakerExecutionSimulator.plan intent book = .ok planned) :
    Spends requested (executableLevels intent book) planned := by
  have start : SweepPlan.init intent = ⟨none, some requested, []⟩ := by
    simp only [SweepPlan.init, noShares, notional]
  unfold TakerExecutionSimulator.plan at ran
  dsimp only at ran
  rw [start] at ran
  obtain ⟨final, looped, ran⟩ := Except.bind_eq_ok.mp ran
  obtain rfl := Except.pure_eq_ok.mp ran
  obtain ⟨own, same, spends⟩ := forLoop_spends (availableLevels_quoted quotes _) positive looped
  rw [same, List.nil_append]
  exact spends

/-- The fills are those of the plan. -/
theorem fillLevels_levels {planned : List PlannedFill} {progress after : FillProgress}
    (filled : simulator.fillLevels intent arrivalTimeNs progress planned = (after, .ok ())) :
    after.fills.map SimulatedFill.level = progress.fills.map SimulatedFill.level ++ planned := by
  induction planned generalizing progress with
  | nil =>
    obtain rfl : progress = after := congrArg Prod.fst filled
    simp
  | cons level rest ih =>
    rw [TakerExecutionSimulator.fillLevels] at filled
    split at filled
    · simp at filled
    · dsimp only at filled
      split at filled
      · simp at filled
      · rw [ih filled, List.map_append, List.append_assoc]
        rfl

/-- A funded order returns the fills of its plan. -/
theorem execute_planned {portfolio : Portfolio} (valid : book.valid = true)
    (notional : intent.requestedNotionalScaled = some requested)
    (funded : ∀ planned reason, TakerExecutionSimulator.plan intent book = .ok planned →
      simulator.shortage intent portfolio planned ≠ .ok (some reason))
    {after : OrderBook × Portfolio × OrderResult}
    (ran : simulator.execute intent book portfolio arrivalTimeNs = .ok after) :
    ∃ fills, TakerExecutionSimulator.plan intent book = .ok (fills.map SimulatedFill.level) ∧
      after.2.2 = TakerExecutionSimulator.resultOf intent fills := by
  simp only [TakerExecutionSimulator.execute, valid, notional, Bool.not_true, Bool.false_eq_true,
    if_false, reduceCtorEq, and_false] at ran
  obtain ⟨planned, plans, ran⟩ := Except.bind_eq_ok.mp ran
  obtain ⟨short, checked, ran⟩ := Except.bind_eq_ok.mp ran
  cases short with
  | some reason => exact absurd checked (funded planned reason plans)
  | none =>
    obtain ⟨progress, folded, ran⟩ := Except.bind_eq_ok.mp ran
    rw [TakerExecutionSimulator.foldlM_fillLevel] at folded
    split at folded
    · next filled =>
      cases folded
      have levels := fillLevels_levels filled
      rw [List.map_nil, List.nil_append] at levels
      refine ⟨progress.fills, by rw [plans, levels], ?_⟩
      unfold TakerExecutionSimulator.resultOf
      split at ran
      · next none =>
        cases ran
        rw [if_pos none]
      · next some =>
        cases ran
        rw [if_neg some]
    · cases folded

/-- A result that spends no more than its request is filled when it spends all of it. -/
theorem resultOf_filled {fills : List SimulatedFill} (noShares : intent.requestedSharesScaled = none)
    (notional : intent.requestedNotionalScaled = some requested) (positive : 0 < requested)
    (within : (fills.map SimulatedFill.notionalScaled).sum ≤ requested) :
    (TakerExecutionSimulator.resultOf intent fills).status = .filled ↔
      (fills.map SimulatedFill.notionalScaled).sum = requested := by
  cases fills with
  | nil =>
    refine iff_of_false (by simp [TakerExecutionSimulator.resultOf, OrderResult.rejected]) ?_
    simpa using positive.ne
  | cons fill rest =>
    have full : TakerExecutionSimulator.fullyFilled intent (fill :: rest) = true ↔
        requested ≤ ((fill :: rest).map SimulatedFill.notionalScaled).sum := by
      simp [TakerExecutionSimulator.fullyFilled, noShares, notional]
    have complete : requested ≤ ((fill :: rest).map SimulatedFill.notionalScaled).sum ↔
        ((fill :: rest).map SimulatedFill.notionalScaled).sum = requested :=
      ⟨fun reached => le_antisymm within reached, fun same => same.ge⟩
    rw [← complete, ← full]
    unfold TakerExecutionSimulator.resultOf
    rw [if_neg (by simp)]
    dsimp only
    split <;> simp [*]

/-- An order sized by notional and sufficiently funded is spent as it should be exactly when it
settles on its executable levels. -/
theorem notional_sweep_iff (simulator : TakerExecutionSimulator) (intent : OrderIntent)
    (book : OrderBook) (portfolio : Portfolio) (arrivalTimeNs requested : ℤ)
    (valid : book.valid = true) (quotes : book.Quotes)
    (noShares : intent.requestedSharesScaled = none)
    (notional : intent.requestedNotionalScaled = some requested) (positive : 0 < requested)
    (funded : ∀ planned reason, TakerExecutionSimulator.plan intent book = .ok planned →
      simulator.shortage intent portfolio planned ≠ .ok (some reason))
    {after : OrderBook × Portfolio × OrderResult}
    (ran : simulator.execute intent book portfolio arrivalTimeNs = .ok after) :
    SpendsNotional intent book requested after.2.2 ↔
      Settles requested (executableLevels intent book) := by
  obtain ⟨fills, plans, result⟩ := execute_planned valid notional funded ran
  have spends := plan_spends quotes noShares notional positive plans
  have quoted : ∀ level ∈ executableLevels intent book, Quoted level := fun level member =>
    availableLevels_quoted quotes _ level ((List.takeWhile_sublist _).subset member)
  rw [result, ← spends.spendsAll_iff quoted positive executableLevels_ranked]
  have sums : ((fills.map SimulatedFill.level).map PlannedFill.notionalScaled).sum =
      (fills.map SimulatedFill.notionalScaled).sum := by
    rw [List.map_map]
    rfl
  constructor
  · rintro ⟨within, ordered, filled⟩
    rw [resultOf_fills] at within ordered
    rw [resultOf_filled noShares notional positive within] at filled
    refine ⟨sums ▸ within, fun fill member better known worse => ?_, sums ▸ filled⟩
    obtain ⟨own, inFills, rfl⟩ := List.mem_map.mp member
    obtain ⟨earlier, inPlan, found⟩ := ordered own inFills better known worse
    exact ⟨earlier.level, List.mem_map_of_mem inPlan, found⟩
  · rintro ⟨within, ordered, all⟩
    rw [sums] at within all
    refine ⟨resultOf_fills ▸ within, fun fill member better known worse => ?_, ?_⟩
    · rw [resultOf_fills] at member ⊢
      obtain ⟨earlier, inPlan, found⟩ := ordered fill.level (List.mem_map_of_mem member) better known
        worse
      obtain ⟨own, inFills, rfl⟩ := List.mem_map.mp inPlan
      exact ⟨own, inFills, found⟩
    · rwa [resultOf_filled noShares notional positive within]

end Executed

/-- Five shares asked at 0.97, and five more at 0.98. -/
def highBook : OrderBook :=
  { OrderBook.init "market" "up" "Up" with
    asks := ((∅ : Levels).insert 970000 5000000).insert 980000 5000000
    valid := true }

def notionalIntent (requested : ℤ) : OrderIntent :=
  { dustIntent .buy with
    requestedSharesScaled := none
    requestedNotionalScaled := some requested }

theorem highBook_quotes : highBook.Quotes := by
  refine ⟨Levels.Every.empty, ?_⟩
  exact (Levels.Every.empty.insert ⟨by decide, by decide, by decide⟩).insert
    ⟨by decide, by decide, by decide⟩

/-- Half of the first level, which ninety-seven cents buy exactly. -/
theorem notional_sweep_iff_exact :
    ∃ after, defaultTaker.execute (notionalIntent 970000) highBook (Portfolio.init 2000000 false false)
        1 = .ok after ∧ SpendsNotional (notionalIntent 970000) highBook 970000 after.2.2 := by
  have levels : executableLevels (notionalIntent 970000) highBook =
      [((970000, 5000000), 0), ((980000, 5000000), 1)] := by decide +kernel
  have settles : Settles 970000 (executableLevels (notionalIntent 970000) highBook) := by
    rw [levels]
    refine Settles.of_first ?_ (fun _ => by decide +kernel) fun notional cost => ?_
    · intro level member
      obtain rfl := List.mem_singleton.mp member
      exact ⟨by decide, by decide, by decide⟩
    · have same : levelNotional ((970000, 5000000), 0) = .ok 4850000 := by decide +kernel
      rw [same] at cost
      cases cost
      decide
  have affordable : ∀ planned reason,
      TakerExecutionSimulator.plan (notionalIntent 970000) highBook = .ok planned →
      defaultTaker.shortage (notionalIntent 970000) (Portfolio.init 2000000 false false) planned ≠
        .ok (some reason) := by
    intro planned reason plans
    have same : TakerExecutionSimulator.plan (notionalIntent 970000) highBook =
        .ok [⟨1, 970000, 1000000, 970000, 4000000⟩] := by decide +kernel
    rw [same] at plans
    cases plans
    have none : defaultTaker.shortage (notionalIntent 970000) (Portfolio.init 2000000 false false)
        [⟨1, 970000, 1000000, 970000, 4000000⟩] = .ok none := by decide +kernel
    rw [none]
    simp
  have returns : (defaultTaker.execute (notionalIntent 970000) highBook
      (Portfolio.init 2000000 false false) 1).toOption.isSome := by decide +kernel
  cases ran : defaultTaker.execute (notionalIntent 970000) highBook
      (Portfolio.init 2000000 false false) 1 with
  | error e => simp [ran, Except.toOption] at returns
  | ok after =>
    exact ⟨after, rfl, (notional_sweep_iff defaultTaker (notionalIntent 970000) highBook
      (Portfolio.init 2000000 false false) 1 970000 rfl highBook_quotes rfl rfl (by decide)
      affordable ran).mpr settles⟩

/-- One dollar at the same ask leaves one unit, which is spent at the worse price. -/
theorem stranded_unit_sweeps_on :
    ∃ after, defaultTaker.execute (notionalIntent 1000000) highBook
        (Portfolio.init 2000000 false false) 1 = .ok after ∧
      ¬ SpendsNotional (notionalIntent 1000000) highBook 1000000 after.2.2 := by
  have computed : (defaultTaker.execute (notionalIntent 1000000) highBook
      (Portfolio.init 2000000 false false) 1).toOption.map (fun after => after.2.2.fills.map fun fill =>
        (fill.levelRank, fill.sizeScaled)) = some [(1, 1030927), (2, 1)] := by decide +kernel
  have levels : executableLevels (notionalIntent 1000000) highBook =
      [((970000, 5000000), 0), ((980000, 5000000), 1)] := by decide +kernel
  cases ran : defaultTaker.execute (notionalIntent 1000000) highBook
      (Portfolio.init 2000000 false false) 1 with
  | error e => simp [ran, Except.toOption] at computed
  | ok after =>
    refine ⟨after, rfl, fun spends => ?_⟩
    simp only [ran, Except.toOption, Option.map_some, Option.some.injEq] at computed
    have places : ∀ fill ∈ after.2.2.fills,
        (fill.levelRank, fill.sizeScaled) ∈ [((1 : ℕ), (1030927 : ℤ)), (2, 1)] := by
      intro fill member
      rw [← computed]
      exact List.mem_map_of_mem member
    obtain ⟨worse, member, place⟩ : ∃ fill ∈ after.2.2.fills,
        (fill.levelRank, fill.sizeScaled) = ((2 : ℕ), (1 : ℤ)) := by
      refine List.mem_map.mp ?_
      rw [computed]
      simp
    obtain ⟨rank, -⟩ := Prod.mk.inj place
    obtain ⟨earlier, known, ownRank, size⟩ := spends.ordered worse member ((970000, 5000000), 0)
      (by rw [levels]; simp) (by rw [rank]; decide)
    have own := places earlier known
    simp [ownRank, size] at own

end PolymarketBt
