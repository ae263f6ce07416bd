import PolymarketBt.Proofs.Execution
import PolymarketBt.ToMathlib.GreedyFill

/-! # The sweep of a ladder in closed form

The loop over a ladder interleaves two things: what the order takes from every level and which rules
it meets, and the pricing of what it takes. The first is a greedy fill of the levels within the
limit; only the second can raise.
-/

namespace PolymarketBt

open Machine GreedyFill

/-- A level of a ladder with its place. -/
abbrev RankedLevel := (ℤ × ℤ) × ℕ

/-- The places of a list are ranked from its first. -/
theorem zipIdx_ranked {α : Type*} (items : List α) :
    items.zipIdx.Pairwise fun better worse => better.2 < worse.2 := by
  have ranks : (items.zipIdx.map Prod.snd).Pairwise (· < ·) := by
    rw [List.zipIdx_map_snd]
    exact List.pairwise_lt_range'
  exact List.pairwise_map.mp ranks

/-- What an order takes from a ladder, and the rules it meets. -/
structure LadderWalk where
  taken : List (RankedLevel × ℤ)
  hitLimit : Bool
  cutByDepth : Bool
  cutByVolume : Bool

/-- One walk, and another from where it ended. -/
def LadderWalk.followedBy (first later : LadderWalk) : LadderWalk where
  taken := first.taken ++ later.taken
  hitLimit := first.hitLimit || later.hitLimit
  cutByDepth := first.cutByDepth || later.cutByDepth
  cutByVolume := first.cutByVolume || later.cutByVolume

/-- The sweep that a walk leaves once its takes are priced. -/
def Sweep.extend (sweep : Sweep) (walk : LadderWalk) (slices : List FillSlice) : Sweep where
  remaining := sweep.remaining - total walk.taken
  slices := sweep.slices ++ slices
  consumed := sweep.consumed + total walk.taken
  hitLimit := sweep.hitLimit || walk.hitLimit
  cutByDepth := sweep.cutByDepth || walk.cutByDepth
  cutByVolume := sweep.cutByVolume || walk.cutByVolume

theorem Sweep.extend_extend (sweep : Sweep) (first later : LadderWalk) (own others : List FillSlice) :
    (sweep.extend first own).extend later others =
      sweep.extend (first.followedBy later) (own ++ others) := by
  simp [Sweep.extend, LadderWalk.followedBy, Bool.or_assoc, sub_sub, add_assoc]

namespace TakerExecutor

variable (executor : TakerExecutor)

/-- The slice of a take. -/
def priced (take : RankedLevel × ℤ) : Except PyError FillSlice := do
  let fee ← executor.feeModel.calculate take.2 take.1.1.1
  let notional ← notionalScaled take.2 take.1.1.1
  return ⟨take.1.1.1, take.2, notional, fee, take.1.2 + 1⟩

/-- What one level yields to what remains of the order and of the volume cap, and whether the walk
ends there. -/
def visited (side : Side) (limit : Option ℤ) (remaining : ℤ) (headroom : Option ℤ)
    (level : RankedLevel) : LadderWalk × Bool :=
  if side.beyond limit level.1.1 then (⟨[], true, false, false⟩, true)
  else
    let wanted := min remaining (executor.allowed level.1.2)
    let take := headroom.elim wanted fun room => min wanted (max 0 room)
    let short := decide (executor.allowed level.1.2 < remaining)
    let cut := headroom.any fun room => max 0 room < wanted
    if take ≤ 0 then (⟨[], false, short, cut⟩, headroom.any fun room => room ≤ 0)
    else (⟨[(level, take)], false, short, cut⟩, remaining - take ≤ 0)

/-- The walk of the loop without its prices. -/
def walk (side : Side) (limit : Option ℤ) : ℤ → Option ℤ → List RankedLevel → LadderWalk
  | _, _, [] => ⟨[], false, false, false⟩
  | remaining, headroom, level :: rest =>
    let (own, ends) := executor.visited side limit remaining headroom level
    if ends then own
    else
      own.followedBy
        (walk side limit (remaining - total own.taken) (headroom.map (· - total own.taken)) rest)

variable {executor} {side : Side} {limit cap : Option ℤ}

theorem takeAt_eq (sweep : Sweep) (displayed : ℤ) :
    executor.takeAt cap sweep displayed =
      ((cap.map (· - sweep.consumed)).elim (min sweep.remaining (executor.allowed displayed))
          fun room => min (min sweep.remaining (executor.allowed displayed)) (max 0 room),
        (cap.map (· - sweep.consumed)).any fun room =>
          max 0 room < min sweep.remaining (executor.allowed displayed)) := by
  unfold takeAt
  cases cap with
  | none => rfl
  | some cap =>
    simp only [Option.map_some, Option.elim_some, Option.any_some]
    split
    · next cut => simp [cut, min_eq_right cut.le]
    · next kept => simp [kept, min_eq_left (not_lt.mp kept)]

theorem cap_reached (sweep : Sweep) :
    (cap.any fun bound => bound ≤ sweep.consumed) =
      (cap.map (· - sweep.consumed)).any fun room => room ≤ 0 := by
  cases cap with
  | none => rfl
  | some bound => simp

/-- A visit prices what its level yields. -/
theorem sweepLevel_eq (sweep : Sweep) (level : RankedLevel) :
    executor.sweepLevel side limit cap sweep level =
      (fun slices =>
        let own := executor.visited side limit sweep.remaining (cap.map (· - sweep.consumed)) level
        if own.2 then .stop (sweep.extend own.1 slices) else .next (sweep.extend own.1 slices)) <$>
        (executor.visited side limit sweep.remaining (cap.map (· - sweep.consumed))
          level).1.taken.mapM executor.priced := by
  obtain ⟨⟨price, displayed⟩, rank⟩ := level
  unfold sweepLevel visited
  cases worse : side.beyond limit price with
  | true => simp [Sweep.extend, worse, pure, Except.pure, Functor.map, Except.map]
  | false =>
    simp only [worse, takeAt_eq, cap_reached, Bool.false_eq_true, if_false]
    set headroom := cap.map (· - sweep.consumed)
    set wanted := min sweep.remaining (executor.allowed displayed)
    set take := headroom.elim wanted fun room => min wanted (max 0 room)
    by_cases nothing : take ≤ 0
    · simp only [nothing, if_true]
      simp [Sweep.extend, pure, Except.pure, Functor.map, Except.map]
    · simp only [nothing, if_false, List.mapM_cons, List.mapM_nil, priced]
      cases executor.feeModel.calculate take price with
      | error e => rfl
      | ok fee =>
        cases PolymarketBt.notionalScaled take price with
        | error e => rfl
        | ok notional =>
          simp [Sweep.extend, pure, Except.pure, Functor.map, Except.map, bind, Except.bind]

/-- The loop walks the ladder and prices what it takes. -/
theorem forLoop_sweepLevel (levels : List RankedLevel) (sweep : Sweep) :
    forLoop (executor.sweepLevel side limit cap) sweep levels =
      Sweep.extend sweep
          (executor.walk side limit sweep.remaining (cap.map (· - sweep.consumed)) levels) <$>
        (executor.walk side limit sweep.remaining (cap.map (· - sweep.consumed)) levels).taken.mapM
          executor.priced := by
  induction levels generalizing sweep with
  | nil => simp [forLoop, walk, Sweep.extend, Functor.map, Except.map, pure, Except.pure]
  | cons level rest ih =>
    simp only [forLoop, walk, sweepLevel_eq]
    set own := executor.visited side limit sweep.remaining (cap.map (· - sweep.consumed)) level
    cases ends : own.2 with
    | true =>
      simp only [if_true]
      cases own.1.taken.mapM executor.priced with
      | error e => rfl
      | ok slices => rfl
    | false =>
      simp only [Bool.false_eq_true, if_false, LadderWalk.followedBy, List.mapM_append]
      cases own.1.taken.mapM executor.priced with
      | error e => rfl
      | ok slices =>
        have headroom : cap.map (· - (sweep.extend own.1 slices).consumed) =
            (cap.map (· - sweep.consumed)).map (· - total own.1.taken) := by
          cases cap with
          | none => rfl
          | some cap => simp [Sweep.extend, sub_sub]
        have later := ih (sweep.extend own.1 slices)
        rw [headroom] at later
        change forLoop (executor.sweepLevel side limit cap) (sweep.extend own.1 slices) rest = _
        rw [later]
        change Sweep.extend _ (executor.walk side limit (sweep.remaining - total own.1.taken) _ rest)
          <$> List.mapM _ (executor.walk side limit (sweep.remaining - total own.1.taken) _ rest).taken
            = _
        cases (executor.walk side limit (sweep.remaining - total own.1.taken) _ rest).taken.mapM
          executor.priced with
        | error e => rfl
        | ok others => exact congrArg Except.ok (Sweep.extend_extend ..)

/-! ## The walk in closed form -/

theorem allowed_nonneg {displayed : ℤ} (shown : 0 ≤ displayed) : 0 ≤ executor.allowed displayed := by
  have haircut := executor.realism.haircut_range
  have participation := executor.realism.participation_range
  refine le_min (Int.ediv_nonneg ?_ (by decide)) (Int.ediv_nonneg ?_ (by decide))
  · exact Int.mul_nonneg shown (by omega)
  · exact Int.mul_nonneg shown participation.1.le

/-- Without a haircut and with full participation, an order may take a whole level. -/
theorem allowed_whole (haircut : executor.realism.displayedDepthHaircutPpm = 0)
    (participation : executor.realism.maxLevelParticipationPpm = ppm) (size : ℤ) :
    executor.allowed size = size := by
  unfold allowed
  rw [haircut, participation, sub_zero, min_self]
  exact Int.mul_ediv_cancel _ (by decide)

/-- The most an order may take of a level. -/
def allowance (executor : TakerExecutor) (level : RankedLevel) : ℤ := executor.allowed level.1.2

theorem allowance_nonneg {level : RankedLevel} (shown : 0 ≤ level.1.2) :
    0 ≤ executor.allowance level := allowed_nonneg shown

theorem allowances_nonneg {levels : List RankedLevel} (shown : ∀ level ∈ levels, 0 ≤ level.1.2)
    {keep : RankedLevel → Bool} :
    ∀ level ∈ levels.takeWhile keep, 0 ≤ executor.allowance level :=
  fun level member => allowance_nonneg (shown level ((List.takeWhile_sublist _).subset member))

/-- A level that the limit does not exclude. -/
def within (side : Side) (limit : Option ℤ) (level : RankedLevel) : Bool :=
  !side.beyond limit level.1.1

/-- What the order may still take in all. -/
def budget (remaining : ℤ) (headroom : Option ℤ) : ℤ := headroom.elim remaining (min remaining)

/-- The walk ends at a level that finds the volume cap used up or that completes the order. -/
def ends (remaining : ℤ) (headroom : Option ℤ) (allowed : ℤ) : Bool :=
  headroom.any (fun room => room ≤ 0) || decide (remaining ≤ min (budget remaining headroom) allowed)

/-- An order that is not complete, under a volume cap that is not exceeded. -/
structure Unspent (remaining : ℤ) (headroom : Option ℤ) : Prop where
  left : 0 < remaining
  room : ∀ room ∈ headroom, 0 ≤ room

variable {remaining allowed : ℤ} {headroom : Option ℤ} {level : RankedLevel}
  {levels : List RankedLevel}

theorem budget_sub (taken : ℤ) :
    budget (remaining - taken) (headroom.map (· - taken)) = budget remaining headroom - taken := by
  cases headroom with
  | none => rfl
  | some bound => exact min_sub_sub_right remaining bound taken

theorem budget_le : budget remaining headroom ≤ remaining := by
  cases headroom with
  | none => exact le_rfl
  | some bound => exact min_le_left _ _

namespace Unspent

theorem budget_nonneg (unspent : Unspent remaining headroom) : 0 ≤ budget remaining headroom := by
  cases headroom with
  | none => exact unspent.left.le
  | some bound => exact le_min unspent.left.le (unspent.room bound rfl)

theorem budget_of_used (unspent : Unspent remaining headroom)
    (used : headroom.any (fun room => room ≤ 0) = true) : budget remaining headroom = 0 := by
  cases headroom with
  | none => cases used
  | some bound =>
    have nonneg := unspent.room bound rfl
    have left := unspent.left
    simp only [Option.any_some, decide_eq_true_eq] at used
    simp only [budget, Option.elim_some]
    omega

/-- Where the walk ends, nothing is left for the levels behind. -/
theorem spent (unspent : Unspent remaining headroom) (nonneg : 0 ≤ allowed)
    (ended : ends remaining headroom allowed = true) :
    budget remaining headroom - min (budget remaining headroom) allowed ≤ 0 := by
  have bound : budget remaining headroom ≤ remaining := budget_le
  simp only [ends, Bool.or_eq_true, decide_eq_true_eq] at ended
  rcases ended with used | met
  · have := unspent.budget_of_used used
    omega
  · omega

/-- Where it goes on, the order is still incomplete and the cap not exceeded. -/
theorem goes (unspent : Unspent remaining headroom) (goes : ends remaining headroom allowed = false) :
    Unspent (remaining - min (budget remaining headroom) allowed)
      (headroom.map (· - min (budget remaining headroom) allowed)) := by
  simp only [ends, Bool.or_eq_false_iff, decide_eq_false_iff_not, not_le] at goes
  refine ⟨by omega, fun after member => ?_⟩
  cases headroom with
  | none => cases member
  | some bound =>
    obtain rfl : bound - min (budget remaining (some bound)) allowed = after := by
      simpa using member
    simp only [budget, Option.elim_some]
    omega

end Unspent

theorem visited_within (inside : within side limit level = true) (shown : 0 ≤ level.1.2)
    (unspent : Unspent remaining headroom) :
    executor.visited side limit remaining headroom level =
      (⟨fill executor.allowance (budget remaining headroom) [level], false,
        decide (executor.allowance level < remaining),
        headroom.any fun room => room < min remaining (executor.allowance level)⟩,
        ends remaining headroom (executor.allowance level)) := by
  have nonneg : 0 ≤ executor.allowed level.1.2 := allowed_nonneg shown
  have keeps : side.beyond limit level.1.1 = false := by simpa [within] using inside
  have take : (headroom.elim (min remaining (executor.allowed level.1.2)) fun room =>
      min (min remaining (executor.allowed level.1.2)) (max 0 room)) =
        min (budget remaining headroom) (executor.allowed level.1.2) := by
    cases headroom with
    | none => rfl
    | some bound =>
      have := unspent.room bound rfl
      simp only [budget, Option.elim_some]
      omega
  have cut : (headroom.any fun room => max 0 room < min remaining (executor.allowed level.1.2)) =
      headroom.any fun room => room < min remaining (executor.allowed level.1.2) := by
    cases headroom with
    | none => rfl
    | some bound => simp only [Option.any_some, max_eq_right (unspent.room bound rfl)]
  unfold visited
  simp only [keeps, Bool.false_eq_true, if_false, fill, take, cut, allowance, ends]
  by_cases nothing : min (budget remaining headroom) (executor.allowed level.1.2) ≤ 0
  · have unmet : ¬ remaining ≤ min (budget remaining headroom) (executor.allowed level.1.2) := by
      have := unspent.left
      omega
    simp only [nothing, if_true, not_lt.mpr nothing, if_false, unmet, decide_false, Bool.or_false]
    rfl
  · have unused : headroom.any (fun room => room ≤ 0) = false := by
      rw [← Bool.not_eq_true]
      exact fun used => nothing (by have := unspent.budget_of_used used; omega)
    simp only [nothing, if_false, not_le.mp nothing, if_true, unused, Bool.false_or, sub_nonpos]
    rfl

theorem visited_beyond (outside : within side limit level = false) :
    executor.visited side limit remaining headroom level = (⟨[], true, false, false⟩, true) := by
  have worse : side.beyond limit level.1.1 = true := by simpa [within] using outside
  simp only [visited, worse, if_true]

/-- What one level within the limit yields. -/
theorem total_own (shown : 0 ≤ level.1.2) (unspent : Unspent remaining headroom) :
    total (fill executor.allowance (budget remaining headroom) [level]) =
      min (budget remaining headroom) (executor.allowance level) := by
  have nonneg : ∀ item ∈ [level], 0 ≤ executor.allowance item := by
    intro item member
    obtain rfl := List.mem_singleton.mp member
    exact allowed_nonneg shown
  rw [total_fill nonneg unspent.budget_nonneg]
  simp

/-- The walk from a level within the limit. -/
theorem walk_within (inside : within side limit level = true) (shown : 0 ≤ level.1.2)
    (unspent : Unspent remaining headroom) {rest : List RankedLevel} :
    let taken := min (budget remaining headroom) (executor.allowance level)
    let own : LadderWalk := ⟨fill executor.allowance (budget remaining headroom) [level], false,
      decide (executor.allowance level < remaining),
      headroom.any fun room => room < min remaining (executor.allowance level)⟩
    executor.walk side limit remaining headroom (level :: rest) =
      if ends remaining headroom (executor.allowance level) then own
      else own.followedBy
        (executor.walk side limit (remaining - taken) (headroom.map (· - taken)) rest) := by
  simp only [walk, visited_within inside shown unspent, total_own shown unspent]

theorem walk_beyond (outside : within side limit level = false) {rest : List RankedLevel} :
    executor.walk side limit remaining headroom (level :: rest) = ⟨[], true, false, false⟩ := by
  simp [walk, visited_beyond outside]

/-- The walk takes greedily from the levels within the limit. -/
theorem walk_taken (shown : ∀ level ∈ levels, 0 ≤ level.1.2)
    (unspent : Unspent remaining headroom) :
    (executor.walk side limit remaining headroom levels).taken =
      fill executor.allowance (budget remaining headroom) (levels.takeWhile (within side limit)) := by
  induction levels generalizing remaining headroom with
  | nil => rfl
  | cons level rest ih =>
    obtain ⟨own, others⟩ := List.forall_mem_cons.mp shown
    cases inside : within side limit level with
    | false => simp [walk_beyond inside, inside, fill]
    | true =>
      have split : fill executor.allowance (budget remaining headroom)
          ([level] ++ rest.takeWhile (within side limit)) = _ := fill_append
      rw [total_own own unspent] at split
      rw [List.takeWhile_cons_of_pos inside, walk_within inside own unspent]
      refine Eq.trans ?_ split.symm
      cases ended : ends remaining headroom (executor.allowance level) with
      | true => rw [fill_of_nonpos (unspent.spent (allowance_nonneg own) ended), List.append_nil, if_pos rfl]
      | false =>
        have later := ih others (unspent.goes ended)
        rw [budget_sub] at later
        simp only [Bool.false_eq_true, if_false, LadderWalk.followedBy, later]

/-! ### The rules that an incomplete order has met -/

/-- The limit is met when the volume cap lets every level before it pass. -/
theorem walk_hitLimit (shown : ∀ level ∈ levels, 0 ≤ level.1.2)
    (unspent : Unspent remaining headroom)
    (short : total (executor.walk side limit remaining headroom levels).taken < remaining) :
    (executor.walk side limit remaining headroom levels).hitLimit =
      (!levels.all (within side limit) &&
        headroom.all (passes executor.allowance · (levels.takeWhile (within side limit)))) := by
  induction levels generalizing remaining headroom with
  | nil => rfl
  | cons level rest ih =>
    obtain ⟨own, others⟩ := List.forall_mem_cons.mp shown
    have nonneg : 0 ≤ executor.allowance level := allowance_nonneg own
    cases inside : within side limit level with
    | false =>
      cases headroom <;> simp [walk_beyond inside, inside, passes]
    | true =>
      have yields := @total_own executor _ _ _ own unspent
      rw [walk_within inside own unspent] at short ⊢
      rw [List.takeWhile_cons_of_pos inside, List.all_cons, inside, Bool.true_and]
      cases ended : ends remaining headroom (executor.allowance level) with
      | true =>
        simp only [ended, if_true, yields] at short ⊢
        cases headroom with
        | none =>
          simp only [ends, Option.any_none, Bool.false_or, decide_eq_true_eq] at ended
          omega
        | some bound =>
          simp only [ends, Option.any_some, Bool.or_eq_true, decide_eq_true_eq] at ended
          have used : bound ≤ 0 := by omega
          simp [passes, not_lt.mpr used]
      | false =>
        simp only [ended, Bool.false_eq_true, if_false, LadderWalk.followedBy, total_append,
          yields, Bool.false_or] at short ⊢
        rw [ih others (unspent.goes ended) (by omega)]
        cases headroom with
        | none => rfl
        | some bound =>
          simp only [ends, Option.any_some, Bool.or_eq_false_iff, decide_eq_false_iff_not, not_le]
            at ended
          simp only [Option.map_some, Option.all_some, passes, ended.1, decide_true, Bool.true_and]
          have incomplete := ended.2
          simp only [budget, Option.elim_some] at incomplete ⊢
          by_cases fits : executor.allowance level ≤ bound
          · rw [show min (min remaining bound) (executor.allowance level) =
              executor.allowance level by omega]
          · rw [passes_of_nonpos (by omega), passes_of_nonpos (by omega)]

/-- The volume cap cuts an incomplete order when the levels it has reached allow more. -/
theorem walk_cutByVolume (shown : ∀ level ∈ levels, 0 ≤ level.1.2)
    (unspent : Unspent remaining headroom)
    (short : total (executor.walk side limit remaining headroom levels).taken < remaining) :
    (executor.walk side limit remaining headroom levels).cutByVolume = true ↔
      ∃ room ∈ headroom, room < remaining ∧ room <
        ((reached executor.allowance room (levels.takeWhile (within side limit))).map
          executor.allowance).sum := by
  induction levels generalizing remaining headroom with
  | nil =>
    cases headroom with
    | none => simp [walk]
    | some bound => simpa [walk, reached] using fun _ => unspent.room bound rfl
  | cons level rest ih =>
    obtain ⟨own, others⟩ := List.forall_mem_cons.mp shown
    have nonneg : 0 ≤ executor.allowance level := allowance_nonneg own
    cases inside : within side limit level with
    | false =>
      cases headroom with
      | none => simp [walk_beyond inside]
      | some bound =>
        simpa [walk_beyond inside, inside, reached] using fun _ => unspent.room bound rfl
    | true =>
      have yields := @total_own executor _ _ _ own unspent
      rw [walk_within inside own unspent] at short ⊢
      rw [List.takeWhile_cons_of_pos inside]
      cases ended : ends remaining headroom (executor.allowance level) with
      | true =>
        simp only [ended, if_true, yields] at short ⊢
        cases headroom with
        | none => simp
        | some bound =>
          simp only [ends, Option.any_some, Bool.or_eq_true, decide_eq_true_eq] at ended
          have used : bound ≤ 0 := by omega
          simp [reached, used]
      | false =>
        simp only [ended, Bool.false_eq_true, if_false, LadderWalk.followedBy, total_append,
          yields] at short ⊢
        rw [Bool.or_eq_true, ih others (unspent.goes ended) (by omega)]
        cases headroom with
        | none => simp
        | some bound =>
          simp only [ends, Option.any_some, Bool.or_eq_false_iff, decide_eq_false_iff_not, not_le]
            at ended
          have incomplete := ended.2
          simp only [Option.map_some, Option.any_some, Option.mem_def, Option.some.injEq,
            exists_eq_left', reached, not_le.mpr ended.1, if_false, List.map_cons, List.sum_cons,
            decide_eq_true_eq]
          simp only [budget, Option.elim_some] at incomplete ⊢
          by_cases fits : executor.allowance level ≤ bound
          · rw [show min (min remaining bound) (executor.allowance level) =
              executor.allowance level by omega]
            omega
          · have later : 0 ≤ ((reached executor.allowance (bound - executor.allowance level)
                (rest.takeWhile (within side limit))).map executor.allowance).sum :=
              sum_reached_nonneg (allowances_nonneg others)
            omega

/-- An order that a level within the limit leaves incomplete is cut there. -/
theorem walk_cut (inside : within side limit level = true) (shown : 0 ≤ level.1.2)
    {rest : List RankedLevel} (unspent : Unspent remaining headroom)
    (short : total (executor.walk side limit remaining headroom (level :: rest)).taken < remaining) :
    (executor.walk side limit remaining headroom (level :: rest)).cutByDepth = true ∨
      (executor.walk side limit remaining headroom (level :: rest)).cutByVolume = true := by
  have yields := @total_own executor _ _ _ shown unspent
  rw [walk_within inside shown unspent] at short ⊢
  by_cases enough : remaining ≤ executor.allowance level
  · right
    cases headroom with
    | none =>
      have ended : ends remaining none (executor.allowance level) = true := by
        simpa [ends, budget] using enough
      rw [ended, if_pos rfl, yields] at short
      simp only [budget, Option.elim_none] at short
      omega
    | some bound =>
      have cut : bound < min remaining (executor.allowance level) := by
        by_contra kept
        rw [min_eq_left enough, not_lt] at kept
        have ended : ends remaining (some bound) (executor.allowance level) = true := by
          simpa [ends, budget] using .inr ⟨kept, enough⟩
        rw [ended, if_pos rfl, yields] at short
        simp only [budget, Option.elim_some] at short
        omega
      split
      · simpa using cut
      · simpa [LadderWalk.followedBy] using .inl (lt_min_iff.mp cut)
  · left
    split
    · simpa using enough
    · simp [LadderWalk.followedBy, not_le.mp enough]

/-! ## The execution of an order that the guards admit -/

/-- An exhausted cap is an empty one. -/
theorem walk_max : executor.walk side limit remaining (headroom.map (max 0)) levels =
    executor.walk side limit remaining headroom levels := by
  cases headroom with
  | none => rfl
  | some bound =>
    rcases le_total 0 bound with funded | overdrawn
    · rw [Option.map_some, max_eq_right funded]
    · cases levels with
      | nil => rfl
      | cons level rest =>
        have same : executor.visited side limit remaining (some 0) level =
            executor.visited side limit remaining (some bound) level := by
          simp only [visited, Option.elim_some, Option.any_some, max_eq_left overdrawn, overdrawn,
            max_self, le_refl]
        have stops : (executor.visited side limit remaining (some bound) level).2 = true := by
          simp only [visited, Option.elim_some, Option.any_some, max_eq_left overdrawn, overdrawn,
            decide_true]
          split
          · rfl
          · rw [if_pos (min_le_right _ _)]
        rw [Option.map_some, max_eq_left overdrawn]
        simp only [walk, same, stops, if_true]

variable (executor)

/-- What the guards before the walk let through. -/
structure Admits (order : TakerOrder) : Prop where
  requested : 0 < order.requestedSharesScaled
  ladder : order.ladder ≠ []
  minimum : order.minimumOrderSizeScaled ≤ order.requestedSharesScaled
  fresh : (executor.realism.staleBookMaxAgeMs.any fun age => age * 1000000 < order.bookAgeNs) = false

/-- The best price of the ladder. -/
def touchOf (order : TakerOrder) : ℤ := (order.ladder.head?.map Prod.fst).getD 0

def limitOf (order : TakerOrder) : Option ℤ × Option ExecutionReason :=
  executor.effectiveLimit order.side (touchOf order) order.limitPriceScaled order.tickSizeScaled

def capOf (order : TakerOrder) : Option ℤ :=
  executor.volumeCap order.realisedVolumeScaled order.minimumOrderSizeScaled

def visible (order : TakerOrder) : List RankedLevel := (executor.visibleLadder order.ladder).zipIdx

/-- The walk of an order over its ladder. -/
def walkOf (order : TakerOrder) : LadderWalk :=
  executor.walk order.side (executor.limitOf order).1 order.requestedSharesScaled
    (executor.capOf order) (executor.visible order)

/-- The sweep of an order once its takes are priced. -/
def sweepOf (order : TakerOrder) (slices : List FillSlice) : Sweep :=
  Sweep.extend ⟨order.requestedSharesScaled, [], 0, false, false, false⟩ (executor.walkOf order) slices

/-- What the executor reports of a sweep. -/
def report (order : TakerOrder) (sweep : Sweep) : ExecutionOutcome :=
  let binding := executor.bindingOf order (executor.limitOf order).2 sweep
  if sliceShares sweep.slices = 0 then refuse order (binding.getD .noExecutableLiquidity)
  else
    { refuse order .noExecutableLiquidity with
      rejectedReason := none
      slices := sweep.slices
      filledSharesScaled := sliceShares sweep.slices
      notionalScaled := sliceNotional sweep.slices
      feesScaled := sliceFees sweep.slices
      bindingConstraint := binding }

variable {executor} {order : TakerOrder}

/-- An admitted order prices what its walk takes, and reports it. -/
theorem execute_admitted (admitted : executor.Admits order) :
    executor.execute order =
      (fun slices => executor.report order (executor.sweepOf order slices)) <$>
        (executor.walkOf order).taken.mapM executor.priced := by
  have ladder := admitted.ladder
  unfold execute
  rw [if_neg (not_le.mpr admitted.requested)]
  split
  · contradiction
  next touch size rest shown =>
  have best : touchOf order = touch := by simp [touchOf, shown]
  rw [if_neg (not_lt.mpr admitted.minimum), if_neg (by simp [admitted.fresh])]
  dsimp only
  rw [forLoop_sweepLevel]
  simp only [sub_zero, Option.map_id', ← best]
  change (do
    let sweep ← executor.sweepOf order <$> (executor.walkOf order).taken.mapM executor.priced
    _) = _
  cases (executor.walkOf order).taken.mapM executor.priced with
  | error e => rfl
  | ok slices =>
    simp only [report, limitOf, Functor.map, Except.map, bind, Except.bind]
    split <;> rfl

end TakerExecutor

end PolymarketBt
