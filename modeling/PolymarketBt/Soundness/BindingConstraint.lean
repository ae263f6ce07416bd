import PolymarketBt.Model.Verify
import PolymarketBt.Soundness.ConstrainedSweep

/-! # The constraint that cut an order

The executor reports of an incomplete order the first rule, in a fixed priority, that its walk has
met. Whether that rule really cut the order is a question about another execution, the one without
it. Both have closed forms, so the orders whose report can be trusted are known in advance.
-/

namespace PolymarketBt

open Machine GreedyFill

/-- The constraints that can cut an order short. -/
inductive Constraint where
  | limitPrice
  | throughTouch
  | levelCap
  | displayedDepth
  | volume
deriving DecidableEq, Repr

/-- The reason names the constraint. -/
def Constraint.names : Constraint → ExecutionReason → Bool
  | limitPrice, .limitPrice => true
  | throughTouch, .maxPriceThroughTouch => true
  | levelCap, .maxLevelsSwept => true
  | displayedDepth, .displayedDepthHaircut => true
  | volume, .noRecentPublicVolume => true
  | volume, .volumeParticipation => true
  | _, _ => false

/-- The realism without a constraint; the depth goes with the participation in a level. -/
def ExecutionRealism.without (realism : ExecutionRealism) : Constraint → ExecutionRealism
  | .limitPrice => realism
  | .throughTouch =>
    { realism with
      maxTicksThroughTouch := none
      maxPriceThroughTouchScaled := none
      ticks_nonneg := unset_nonneg
      through_nonneg := unset_nonneg }
  | .levelCap => { realism with maxLevelsSwept := none, levels_pos := unset_levels_pos }
  | .displayedDepth =>
    { realism with
      displayedDepthHaircutPpm := 0
      maxLevelParticipationPpm := ppm
      haircut_range := no_haircut_range
      participation_range := by decide }
  | .volume => { realism with volumeParticipationPpm := none, volume_pos := unset_pos }

def TakerOrder.without (order : TakerOrder) : Constraint → TakerOrder
  | .limitPrice => { order with limitPriceScaled := none }
  | _ => order

namespace TakerExecutor

variable (executor : TakerExecutor) (order : TakerOrder)

def without (constraint : Constraint) : TakerExecutor :=
  { executor with realism := executor.realism.without constraint }

/-- What the walk of an order takes. -/
def swept : ℤ := total (executor.walkOf order).taken

/-- What it would take without a constraint. -/
def sweptWithout (constraint : Constraint) : ℤ :=
  (executor.without constraint).swept (order.without constraint)

/-- What it would take without any of them. -/
def sweptFreely : ℤ :=
  (((((executor.without .throughTouch).without .levelCap).without .displayedDepth).without
    .volume)).swept (order.without .limitPrice)

end TakerExecutor

/-- The refusal or the constraint that an outcome reports. -/
def ExecutionOutcome.reported (outcome : ExecutionOutcome) : Option ExecutionReason :=
  outcome.rejectedReason.or outcome.bindingConstraint

/-- The report names what really cut the order: a constraint without which more had been filled, if
there is any, and the depth of the book if none of them mattered. -/
structure NamesCut (executor : TakerExecutor) (order : TakerOrder) (outcome : ExecutionOutcome) :
    Prop where
  complete : order.requestedSharesScaled ≤ outcome.filledSharesScaled → outcome.reported = none
  binding : outcome.filledSharesScaled < order.requestedSharesScaled →
    (∃ constraint, outcome.filledSharesScaled < executor.sweptWithout order constraint) →
    ∃ constraint, outcome.filledSharesScaled < executor.sweptWithout order constraint ∧
      outcome.reported.any constraint.names = true
  exhausted : outcome.filledSharesScaled < order.requestedSharesScaled →
    executor.sweptFreely order ≤ outcome.filledSharesScaled →
    outcome.reported = some .bookDepthExhausted

namespace TakerExecutor

variable (executor : TakerExecutor) (order : TakerOrder)

/-- All sizes that the ladder displays. -/
def displayed : ℤ := (order.ladder.map Prod.snd).sum

/-- What the eligible levels would allow without a constraint. -/
def availableWithout (constraint : Constraint) : ℤ :=
  (executor.without constraint).available (order.without constraint)

/-- A visible level is not accepted, and the volume cap lasts until it is met. -/
def limitMet : Bool :=
  !(executor.visible order).all (fun level => executor.accepts order level.1.1) &&
    ((executor.capOf order).map (max 0)).all
      (passes executor.allowance · (executor.eligible order))

/-- The levels up to the one that finds the volume cap used up allow more than the cap. -/
def volumeMet : Prop :=
  ∃ room ∈ (executor.capOf order).map (max 0), room < order.requestedSharesScaled ∧
    room < ((reached executor.allowance room (executor.eligible order)).map executor.allowance).sum

instance : Decidable (executor.volumeMet order) :=
  inferInstanceAs (Decidable (∃ room ∈ (executor.capOf order).map (max 0), _))

/-- The constraint of the highest priority that the walk of an incomplete order meets. -/
def firstMet : Constraint :=
  if executor.limitMet order then
    if (executor.limitOf order).2.getD .limitPrice = .limitPrice then .limitPrice else .throughTouch
  else if executor.volumeMet order then .volume
  else if executor.realism.maxLevelsSwept.any fun levels => levels < order.ladder.length then
    .levelCap
  else .displayedDepth

/-- The report of an order can be trusted: the order is complete; or the volume cap cuts it and is
what the walk meets first; or the ladder displays more than is available, and either no constraint
alone hides any of that or the one met first does. -/
def Unmasked : Prop :=
  (order.requestedSharesScaled ≤ executor.wanted order ∧
      order.requestedSharesScaled ≤ executor.available order) ∨
    (executor.wanted order < order.requestedSharesScaled ∧
      executor.wanted order < executor.available order ∧ executor.firstMet order = .volume) ∨
    (executor.available order < order.requestedSharesScaled ∧
      executor.available order ≤ executor.wanted order ∧ executor.available order < displayed order ∧
      (executor.available order = executor.wanted order ∨
        (∀ constraint, executor.availableWithout order constraint ≤ executor.available order) ∨
        executor.available order < executor.availableWithout order (executor.firstMet order)))

variable {executor order}

theorem swept_eq (admitted : executor.Admits order)
    (positive : ∀ level ∈ order.ladder, 0 < level.2) :
    executor.swept order = min (executor.wanted order) (executor.available order) := by
  unfold swept
  rw [walkOf_taken admitted positive, total_takes admitted positive]

theorem admits_without (admitted : executor.Admits order) (constraint : Constraint) :
    (executor.without constraint).Admits (order.without constraint) := by
  cases constraint <;> exact ⟨admitted.requested, admitted.ladder, admitted.minimum, admitted.fresh⟩

theorem ladder_without (constraint : Constraint) :
    (order.without constraint).ladder = order.ladder := by
  cases constraint <;> rfl

theorem wanted_without {constraint : Constraint} (other : constraint ≠ .volume) :
    (executor.without constraint).wanted (order.without constraint) = executor.wanted order := by
  cases constraint <;> first | rfl | contradiction

theorem wanted_without_volume :
    (executor.without .volume).wanted (order.without .volume) = order.requestedSharesScaled := rfl

theorem available_without_volume :
    executor.availableWithout order .volume = executor.available order := rfl

theorem sweptWithout_eq (admitted : executor.Admits order)
    (positive : ∀ level ∈ order.ladder, 0 < level.2) (constraint : Constraint) :
    executor.sweptWithout order constraint =
      min ((executor.without constraint).wanted (order.without constraint))
        (executor.availableWithout order constraint) :=
  swept_eq (admits_without admitted constraint) (by rwa [ladder_without])

/-- A constraint other than the volume cap cut the order when more is available without it and
wanted. -/
theorem lt_sweptWithout (admitted : executor.Admits order)
    (positive : ∀ level ∈ order.ladder, 0 < level.2) {constraint : Constraint} :
    executor.available order < executor.sweptWithout order constraint ↔
      executor.available order < executor.wanted order ∧
        executor.available order < executor.availableWithout order constraint := by
  rw [sweptWithout_eq admitted positive, lt_min_iff]
  by_cases volume : constraint = .volume
  · subst volume
    simp [available_without_volume]
  · rw [wanted_without volume]

/-! ## Without any constraint -/

/-- The executor without any constraint. -/
def free (executor : TakerExecutor) : TakerExecutor :=
  (((executor.without .throughTouch).without .levelCap).without .displayedDepth).without .volume

theorem available_free : executor.free.available (order.without .limitPrice) = displayed order := by
  have all : executor.free.eligible (order.without .limitPrice) = order.ladder.zipIdx := by
    change order.ladder.zipIdx.takeWhile _ = order.ladder.zipIdx
    rw [List.takeWhile_eq_self_iff]
    intro level _
    cases side : order.side <;> simp [accepts, Side.beyond, TakerOrder.without, side, free, without,
      ExecutionRealism.without]
  unfold available displayed
  rw [all]
  have sizes : executor.free.allowance = fun level => level.1.2 :=
    funext fun level => allowed_whole rfl rfl level.1.2
  rw [sizes]
  change (order.ladder.zipIdx.map (Prod.snd ∘ Prod.fst)).sum = _
  rw [← List.map_map, List.zipIdx_map_fst]

theorem sweptFreely_eq (admitted : executor.Admits order)
    (positive : ∀ level ∈ order.ladder, 0 < level.2) :
    executor.sweptFreely order = min order.requestedSharesScaled (displayed order) := by
  have admits : executor.free.Admits (order.without .limitPrice) :=
    ⟨admitted.requested, admitted.ladder, admitted.minimum, admitted.fresh⟩
  have free : executor.free.available (order.without .limitPrice) = displayed order := available_free
  rw [← free]
  exact swept_eq admits positive

/-- No order is allowed more than the ladder displays. -/
theorem available_le (positive : ∀ level ∈ order.ladder, 0 < level.2) :
    executor.available order ≤ displayed order := by
  have shown : ∀ level ∈ executor.visible order, 0 ≤ level.1.2 := visible_shown positive
  have fits : ∀ level ∈ executor.eligible order, executor.allowance level ≤ level.1.2 := by
    intro level member
    have sized := shown level ((List.takeWhile_sublist _).subset member)
    have nonneg : 0 ≤ executor.allowance level := allowance_nonneg sized
    rcases nonneg.eq_or_lt with none | some
    · rwa [← none]
    · exact allowed_le some
  calc executor.available order
      ≤ ((executor.eligible order).map fun level => level.1.2).sum := List.sum_le_sum fits
    _ ≤ ((executor.visible order).map fun level => level.1.2).sum := by
        refine ((List.takeWhile_sublist _).map _).sum_le_sum ?_
        intro size member
        obtain ⟨level, inVisible, rfl⟩ := List.mem_map.mp member
        exact shown level inVisible
    _ = ((executor.visibleLadder order.ladder).map Prod.snd).sum := by
        change ((executor.visibleLadder order.ladder).zipIdx.map (Prod.snd ∘ Prod.fst)).sum = _
        rw [← List.map_map, List.zipIdx_map_fst]
    _ ≤ displayed order := by
        unfold visibleLadder displayed
        split
        · exact le_rfl
        · refine ((List.take_sublist _ _).map _).sum_le_sum ?_
          intro size member
          obtain ⟨level, inLadder, rfl⟩ := List.mem_map.mp member
          exact (positive level inLadder).le

/-! ## The report -/

theorem hitLimit_eq (admitted : executor.Admits order)
    (positive : ∀ level ∈ order.ladder, 0 < level.2)
    (short : executor.swept order < order.requestedSharesScaled) :
    (executor.walkOf order).hitLimit = executor.limitMet order := by
  unfold swept walkOf at short
  unfold walkOf limitMet
  rw [← walk_max] at short ⊢
  rw [walk_hitLimit (visible_shown positive) (unspent admitted.requested) short, eligible_eq]
  have same : within order.side (executor.limitOf order).1 =
      fun level => executor.accepts order level.1.1 := funext within_limitOf
  rw [same]

theorem cutByVolume_iff (admitted : executor.Admits order)
    (positive : ∀ level ∈ order.ladder, 0 < level.2)
    (short : executor.swept order < order.requestedSharesScaled) :
    (executor.walkOf order).cutByVolume = true ↔ executor.volumeMet order := by
  unfold swept walkOf at short
  unfold walkOf volumeMet
  rw [← walk_max] at short ⊢
  rw [walk_cutByVolume (visible_shown positive) (unspent admitted.requested) short, eligible_eq]

/-- The first visible level cuts an incomplete order, or is not accepted. -/
theorem cut_or_limit (admitted : executor.Admits order)
    (positive : ∀ level ∈ order.ladder, 0 < level.2)
    (short : executor.swept order < order.requestedSharesScaled) :
    (executor.walkOf order).hitLimit = true ∨ (executor.walkOf order).cutByDepth = true ∨
      (executor.walkOf order).cutByVolume = true := by
  have shown : ∀ level ∈ executor.visible order, 0 ≤ level.1.2 := visible_shown positive
  unfold swept walkOf at short
  unfold walkOf
  rw [← walk_max] at short ⊢
  cases ladder : executor.visible order with
  | nil =>
    refine absurd ladder ?_
    have some := admitted.ladder
    unfold visible visibleLadder
    split
    · simpa using some
    · next levels capped =>
      have one := executor.realism.levels_pos levels capped
      simpa using ⟨by omega, some⟩
  | cons level rest =>
    rw [ladder] at short shown
    cases inside : within order.side (executor.limitOf order).1 level with
    | false => exact .inl (by rw [walk_beyond inside])
    | true =>
      exact .inr (walk_cut inside (shown level List.mem_cons_self) (unspent admitted.requested) short)

/-- The rule that set the effective limit is one of the two. -/
theorem limitSource (source : ExecutionReason)
    (given : (executor.limitOf order).2.getD .limitPrice = source) :
    source = .limitPrice ∨ source = .maxPriceThroughTouch := by
  subst given
  unfold limitOf effectiveLimit
  dsimp only
  split
  · cases order.limitPriceScaled <;> exact .inl rfl
  · split
    · exact .inr rfl
    · exact ite_eq_or_eq ..

/-- What the executor reports of an admitted order. -/
theorem execute_reported (admitted : executor.Admits order) {outcome : ExecutionOutcome}
    (ran : executor.execute order = .ok outcome) :
    ∃ slices, outcome.reported = (executor.bindingOf order (executor.limitOf order).2
      (executor.sweepOf order slices)).or
        (if outcome.filledSharesScaled = 0 then some .noExecutableLiquidity else none) := by
  rw [execute_admitted admitted] at ran
  obtain ⟨slices, _, rfl⟩ := Except.map_eq_ok.mp ran
  refine ⟨slices, ?_⟩
  unfold report
  dsimp only
  split
  · cases executor.bindingOf order (executor.limitOf order).2 (executor.sweepOf order slices) <;> rfl
  · rw [Option.or_none]
    rfl

theorem filled_eq (admitted : executor.Admits order)
    (positive : ∀ level ∈ order.ladder, 0 < level.2) {outcome : ExecutionOutcome}
    (ran : executor.execute order = .ok outcome) :
    outcome.filledSharesScaled = executor.swept order := by
  have constrained := (execute_constrained executor order positive admitted.requested
    admitted.minimum admitted.fresh).1 outcome ran
  rw [constrained.filled, swept_eq admitted positive]

/-- The reason reported of an incomplete order is that of the constraint met first. -/
theorem reported_short (admitted : executor.Admits order)
    (positive : ∀ level ∈ order.ladder, 0 < level.2) {outcome : ExecutionOutcome}
    (ran : executor.execute order = .ok outcome)
    (short : outcome.filledSharesScaled < order.requestedSharesScaled) :
    ∃ reason, outcome.reported = some reason ∧ reason ≠ .bookDepthExhausted ∧
      ∀ constraint : Constraint, constraint.names reason = true ↔
        constraint = executor.firstMet order := by
  obtain ⟨slices, reported⟩ := execute_reported admitted ran
  rw [filled_eq admitted positive ran] at short
  have left : ¬ (executor.sweepOf order slices).remaining ≤ 0 := by
    change ¬ order.requestedSharesScaled - executor.swept order ≤ 0
    omega
  have limit := hitLimit_eq admitted positive short
  have volume := cutByVolume_iff admitted positive short
  have some := cut_or_limit admitted positive short
  have sweptLimit : (executor.sweepOf order slices).hitLimit = executor.limitMet order := by
    rw [← limit]
    exact Bool.false_or _
  have sweptVolume : (executor.sweepOf order slices).cutByVolume = true ↔
      executor.volumeMet order := by
    rw [← volume]
    exact Iff.of_eq (congrArg (· = true) (Bool.false_or _))
  have sweptDepth : (executor.sweepOf order slices).cutByDepth = (executor.walkOf order).cutByDepth :=
    Bool.false_or _
  rw [reported]
  unfold bindingOf firstMet
  rw [if_neg left, sweptLimit]
  cases met : executor.limitMet order with
  | true =>
    simp only [if_true, Option.some_or]
    refine ⟨_, rfl, ?_⟩
    rcases limitSource _ rfl with own | touch
    · rw [own]
      exact ⟨by simp, fun constraint => by cases constraint <;> simp [Constraint.names]⟩
    · rw [touch]
      exact ⟨by simp, fun constraint => by cases constraint <;> simp [Constraint.names]⟩
  | false =>
    simp only [Bool.false_eq_true, if_false, sweptVolume]
    by_cases cut : executor.volumeMet order
    · simp only [cut, if_true, Option.some_or]
      refine ⟨_, rfl, ?_⟩
      split
      · exact ⟨by simp, fun constraint => by cases constraint <;> simp [Constraint.names]⟩
      · exact ⟨by simp, fun constraint => by cases constraint <;> simp [Constraint.names]⟩
    · have depth : (executor.sweepOf order slices).cutByDepth = true := by
        rw [sweptDepth]
        rw [limit, met, volume] at some
        simpa [cut] using some
      simp only [cut, if_false, depth, if_true]
      split
      · refine ⟨_, rfl, by simp, fun constraint => by cases constraint <;> simp [Constraint.names]⟩
      · refine ⟨_, rfl, by simp, fun constraint => by cases constraint <;> simp [Constraint.names]⟩

theorem reported_complete (admitted : executor.Admits order)
    (positive : ∀ level ∈ order.ladder, 0 < level.2) {outcome : ExecutionOutcome}
    (ran : executor.execute order = .ok outcome)
    (complete : order.requestedSharesScaled ≤ outcome.filledSharesScaled) :
    outcome.reported = none := by
  obtain ⟨slices, reported⟩ := execute_reported admitted ran
  have requested := admitted.requested
  have nothingLeft : (executor.sweepOf order slices).remaining ≤ 0 := by
    rw [filled_eq admitted positive ran] at complete
    change order.requestedSharesScaled - executor.swept order ≤ 0
    omega
  rw [reported, bindingOf, if_pos nothingLeft, if_neg (by omega)]
  rfl

/-- The report of an incomplete order names what cut it when the constraint met first did, if any
did, and the ladder displays more. -/
theorem names_cut_short (admitted : executor.Admits order)
    (positive : ∀ level ∈ order.ladder, 0 < level.2) {outcome : ExecutionOutcome}
    (ran : executor.execute order = .ok outcome)
    (short : executor.swept order < order.requestedSharesScaled) :
    NamesCut executor order outcome ↔
      ((∃ constraint, executor.swept order < executor.sweptWithout order constraint) →
        executor.swept order < executor.sweptWithout order (executor.firstMet order)) ∧
      executor.swept order < executor.sweptFreely order := by
  have filled := filled_eq admitted positive ran
  rw [← filled] at short ⊢
  obtain ⟨reason, reported, someDepth, names⟩ := reported_short admitted positive ran short
  constructor
  · rintro ⟨-, binding, exhausted⟩
    refine ⟨fun helps => ?_, ?_⟩
    · obtain ⟨constraint, more, named⟩ := binding short helps
      rw [reported, Option.any_some, names] at named
      exact named ▸ more
    · by_contra nothing
      have last := exhausted short (not_lt.mp nothing)
      rw [reported, Option.some.injEq] at last
      exact someDepth last
  · rintro ⟨first, more⟩
    refine ⟨fun complete => absurd complete (not_le.mpr short), fun _ helps => ?_, fun _ nothing => ?_⟩
    · exact ⟨_, first helps, by rw [reported, Option.any_some, names]⟩
    · exact absurd more (not_lt.mpr nothing)

/-- Only the volume cap cuts an order that wants less than is available because of it. -/
theorem helps_iff_volume (admitted : executor.Admits order)
    (positive : ∀ level ∈ order.ladder, 0 < level.2)
    (short : executor.wanted order < order.requestedSharesScaled)
    (volume : executor.wanted order < executor.available order) {constraint : Constraint} :
    executor.wanted order < executor.sweptWithout order constraint ↔ constraint = .volume := by
  rw [sweptWithout_eq admitted positive, lt_min_iff]
  by_cases same : constraint = .volume
  · subst same
    simp [wanted_without_volume, available_without_volume, short, volume]
  · simp [wanted_without same, same]

/-- The order of the example without a limit of its own. -/
def unlimitedOrder : TakerOrder := { cappedOrder with limitPriceScaled := none }

/-- The executor of the example without any cap. -/
def comparableExecutor : TakerExecutor :=
  { cappedExecutor with realism := engineComparableRealism cappedExecutor.realism 50 }

/-- An order for more than its ladder shows. -/
def deepOrder : TakerOrder :=
  { cappedOrder with requestedSharesScaled := 50000000, limitPriceScaled := none }

end TakerExecutor

end PolymarketBt
