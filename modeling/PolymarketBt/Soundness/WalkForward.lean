import PolymarketBt.Model.WalkForward
import PolymarketBt.Proofs.Selection
import PolymarketBt.Soundness.SweepIsolation

/-! # Walk-forward selection is out of sample

A selection that returns has scored every fold: on a block of its own that starts no earlier than any
episode it selected on, and with a candidate that no other beat there. What a fold selects depends on
nothing but the episodes before its block and their tapes, so no result of the block can have chosen
the variant it is a test of.
-/

namespace PolymarketBt

open Machine StableSort

namespace SweepRunner

/-- A sweep reads no tape but those of its episodes. -/
theorem run_congr {runner other : SweepRunner} {variants : List Variant}
    (episodes : runner.episodes = other.episodes) (draws : runner.draws = other.draws)
    (tapes : ∀ episode ∈ runner.episodes, runner.loadTape episode = other.loadTape episode) :
    runner.run variants = other.run variants := by
  have same : ∀ (past : List Episode) table, (∀ episode ∈ past, episode ∈ runner.episodes) →
      past.foldlM (runner.runEpisode variants) table =
        past.foldlM (other.runEpisode variants) table := by
    intro past
    induction past with
    | nil => exact fun _ _ => rfl
    | cons episode rest ih =>
      intro table member
      have here : runner.runEpisode variants table episode =
          other.runEpisode variants table episode := by
        unfold runEpisode simulateInto simulate
        rw [tapes episode (member episode (List.mem_cons_self ..)), draws]
      rw [List.foldlM_cons, List.foldlM_cons, here]
      exact bind_congr fun after => ih after fun other later =>
        member other (List.mem_cons_of_mem _ later)
  unfold run
  rw [same _ _ fun _ member => member, episodes]

end SweepRunner

namespace WalkForward

variable {walk other : WalkForward} {outcomes others : List WalkForwardFold} {fold : ℕ}

/-! ## Blocks -/

theorem ordered_eligible : ∀ episode ∈ walk.ordered, episode.eligible := by
  intro episode member
  exact (List.mem_filter.mp (mem_sortByKey.mp member)).2

/-- A sweep over some of the ordered episodes takes them as they are. -/
theorem runner_episodes {episodes : List Episode} (part : episodes.Sublist walk.ordered) :
    (walk.runner episodes).episodes = episodes := by
  have eligible : episodes.filter (·.eligible) = episodes :=
    List.filter_eq_self.mpr fun episode member => ordered_eligible episode (part.subset member)
  have inOrder : InOrder Episode.startUtcNs episodes :=
    (sortByKey_inOrder Episode.startUtcNs _).sublist part
  change sortByKey _ _ = _
  rw [eligible, inOrder.sortByKey_eq]

theorem train_sublist : (walk.train fold).Sublist walk.ordered := List.take_sublist ..

theorem test_sublist : (walk.test fold).Sublist walk.ordered :=
  (List.drop_sublist ..).trans (List.take_sublist ..)

/-- The block of a fold follows the episodes it selects on. -/
theorem train_append_test : walk.train fold ++ walk.test fold =
    walk.ordered.take (walk.block * (fold + 2)) := by
  have le : walk.block * (fold + 1) ≤ walk.block * (fold + 2) := Nat.mul_le_mul_left _ (by omega)
  have past : walk.train fold =
      (walk.ordered.take (walk.block * (fold + 2))).take (walk.block * (fold + 1)) := by
    rw [List.take_take, Nat.min_eq_left le, train]
  rw [past, test, List.take_append_drop]

/-- The fold has as many blocks before it as its number, and one of its own. -/
structure Cut (walk : WalkForward) (fold : ℕ) : Prop where
  block : 0 < walk.block
  train : (walk.train fold).length = walk.block * (fold + 1)
  test : (walk.test fold).length = walk.block

theorem cut (two : 2 ≤ walk.folds) (enough : walk.folds * 2 ≤ walk.ordered.length)
    (bound : fold < walk.folds) : Cut walk fold := by
  have whole : walk.block * (walk.folds + 1) ≤ walk.ordered.length := Nat.div_mul_le_self _ _
  have until_ : walk.block * (fold + 2) ≤ walk.ordered.length :=
    (Nat.mul_le_mul_left _ (by omega)).trans whole
  have next : walk.block * (fold + 2) = walk.block * (fold + 1) + walk.block := by ring
  have train : (walk.train fold).length = walk.block * (fold + 1) := by
    rw [WalkForward.train, List.length_take]
    omega
  refine ⟨Nat.div_pos (by omega) (by omega), train, ?_⟩
  have split := congrArg List.length (@train_append_test walk fold)
  rw [List.length_append, List.length_take, train] at split
  omega

/-! ## Folds -/

/-- A loop over folds whose blocks are not empty scores each of them. -/
theorem scored_of_forLoop {folds : List ℕ} {past final : List WalkForwardFold}
    (some_ : ∀ fold ∈ folds, walk.test fold ≠ [])
    (ran : forLoop walk.scoreInto past folds = .ok final) :
    ∃ later, final = past ++ later ∧
      List.Forall₂ (fun fold outcome => walk.score fold = .ok outcome) folds later := by
  induction folds generalizing past with
  | nil =>
    cases ran
    exact ⟨[], (List.append_nil _).symm, .nil⟩
  | cons fold rest ih =>
    rcases forLoop_cons_eq_ok.mp ran with stopped | ⟨after, went, ran⟩
    · rw [scoreInto, if_neg (some_ fold (List.mem_cons_self ..))] at stopped
      obtain ⟨outcome, -, stopped⟩ := Except.bind_eq_ok.mp stopped
      cases Except.pure_eq_ok.mp stopped
    · rw [scoreInto, if_neg (some_ fold (List.mem_cons_self ..))] at went
      obtain ⟨outcome, scored, went⟩ := Except.bind_eq_ok.mp went
      cases Except.pure_eq_ok.mp went
      obtain ⟨later, rfl, each⟩ := ih (fun other member => some_ other
        (List.mem_cons_of_mem _ member)) ran
      exact ⟨outcome :: later, by simp, .cons scored each⟩

/-- A selection that returns has scored every fold. -/
theorem run_scored (ran : walk.run = .ok outcomes) :
    (∀ fold < walk.folds, Cut walk fold) ∧
      List.Forall₂ (fun fold outcome => walk.score fold = .ok outcome) (List.range walk.folds)
        outcomes := by
  unfold run at ran
  split_ifs at ran with few none
  obtain ⟨two, enough⟩ := not_or.mp few
  have cuts : ∀ fold < walk.folds, Cut walk fold := fun fold bound =>
    cut (not_lt.mp two) (not_lt.mp enough) bound
  refine ⟨cuts, ?_⟩
  obtain ⟨later, rfl, each⟩ := scored_of_forLoop (fun fold member empty => by
    have sized := (cuts fold (List.mem_range.mp member)).test
    rw [empty] at sized
    exact (cuts fold (List.mem_range.mp member)).block.ne sized) ran
  exact each

/-- What one candidate earned over some episodes. -/
def netPnl (results : List EpisodeResult) : ℤ :=
  ((results.filter (·.entered)).map EpisodeResult.netPnlScaled).sum

/-- An out-of-sample score of the fold. -/
structure OutOfSample (walk : WalkForward) (fold : ℕ) (outcome : WalkForwardFold) : Prop where
  sizes : outcome.fold = fold ∧ 0 < outcome.testEpisodes ∧
    outcome.trainEpisodes = outcome.testEpisodes * (fold + 1)
  /-- The block starts no earlier than anything the fold selects on. -/
  later : ∀ seen ∈ walk.train fold, ∀ unseen ∈ walk.test fold,
    seen.startUtcNs ≤ unseen.startUtcNs
  /-- Some candidate earned most in training and is the one that is tested. -/
  selected : ∃ best ∈ walk.candidates, outcome.selectedLabel = best.label ∧
    (∃ results, (walk.runner (walk.train fold)).alone best = .ok results ∧
      netPnl results = outcome.trainNetPnlScaled) ∧
    (∀ candidate ∈ walk.candidates, ∃ results,
      (walk.runner (walk.train fold)).alone candidate = .ok results ∧
        netPnl results ≤ outcome.trainNetPnlScaled) ∧
    ∃ results, (walk.runner (walk.test fold)).alone best = .ok results ∧
      netPnl results = outcome.testNetPnlScaled ∧
      (results.filter (·.entered)).length = outcome.testEntries

/-- The metrics that a sweep of variants with labels of their own returns. -/
theorem alone_of_run {runner : SweepRunner} {variants : List Variant} {metrics : List VariantMetrics}
    {table : ResultTable} (distinct : (variants.map Variant.label).Nodup)
    (ran : runner.run variants = .ok (metrics, table)) :
    List.Forall₂ (fun variant reported => ∃ results, runner.alone variant = .ok results ∧
      reported = variant.aggregate results) variants metrics := by
  have isolated := (SweepRunner.isolated_iff ran).mpr (.inr distinct)
  have length : metrics.length = variants.length := by
    obtain ⟨-, rfl⟩ := SweepRunner.run_collected ran
    exact List.length_map ..
  refine List.forall₂_iff_get.mpr ⟨length.symm, fun index bound reported => ?_⟩
  obtain ⟨results, alone, at_⟩ := isolated index bound
  refine ⟨results, alone, ?_⟩
  rw [List.getElem?_eq_getElem reported] at at_
  exact Option.some.inj at_

theorem trained_spec {trained : VariantMetrics} {best : Variant}
    (distinct : (walk.candidates.map Variant.label).Nodup)
    (ran : walk.trained fold = .ok (trained, best)) :
    best ∈ walk.candidates ∧
    (∃ results, (walk.runner (walk.train fold)).alone best = .ok results ∧
      netPnl results = trained.netPnlScaled) ∧
    ∀ candidate ∈ walk.candidates, ∃ results,
      (walk.runner (walk.train fold)).alone candidate = .ok results ∧
        netPnl results ≤ trained.netPnlScaled := by
  obtain ⟨⟨metrics, table⟩, swept, ran⟩ := Except.bind_eq_ok.mp ran
  have each := alone_of_run distinct swept
  simp only at ran
  split at ran
  · cases ran
  · next selected chosen =>
    cases Except.pure_eq_ok.mp ran
    obtain ⟨member, greatest⟩ := maxBy_spec chosen
    have reported : ∀ entry ∈ metrics.zip walk.candidates, ∃ results,
        (walk.runner (walk.train fold)).alone entry.2 = .ok results ∧
          netPnl results = entry.1.netPnlScaled := by
      intro entry member
      obtain ⟨index, bound, rfl⟩ := List.getElem_of_mem member
      rw [List.length_zip] at bound
      obtain ⟨results, alone, same⟩ := (List.forall₂_iff_get.mp each).2 index (by omega) (by omega)
      refine ⟨results, by simpa using alone, ?_⟩
      have shown : metrics[index] = _ := same
      rw [List.getElem_zip, shown]
      rfl
    obtain ⟨results, alone, earned⟩ := reported _ member
    refine ⟨(List.of_mem_zip member).2, ⟨results, alone, earned⟩, fun candidate listed => ?_⟩
    obtain ⟨index, bound, rfl⟩ := List.getElem_of_mem listed
    have length := each.length_eq
    have within : index < (metrics.zip walk.candidates).length := by
      rw [List.length_zip]
      omega
    have entered : (metrics[index], walk.candidates[index]) ∈ metrics.zip walk.candidates :=
      List.getElem_zip (h := within) ▸ List.getElem_mem within
    obtain ⟨results, alone, earned⟩ := reported _ entered
    exact ⟨results, alone, earned ▸ greatest _ entered⟩

theorem score_outOfSample {outcome : WalkForwardFold} (cut : Cut walk fold)
    (distinct : (walk.candidates.map Variant.label).Nodup)
    (scored : walk.score fold = .ok outcome) : OutOfSample walk fold outcome := by
  obtain ⟨⟨trained, best⟩, selected, scored⟩ := Except.bind_eq_ok.mp scored
  obtain ⟨⟨metrics, table⟩, swept, scored⟩ := Except.bind_eq_ok.mp scored
  have each := alone_of_run (by simp) swept
  simp only at scored
  split at scored
  · cases scored
  · next tested rest =>
    cases Except.pure_eq_ok.mp scored
    obtain ⟨member, own, greatest⟩ := trained_spec distinct selected
    cases each with
    | cons head none =>
      obtain ⟨results, alone, reported⟩ := head
      refine ⟨⟨rfl, cut.test ▸ cut.block, ?_⟩, ?_, best, member, rfl, own, greatest, results, alone,
        ?_, ?_⟩
      · rw [cut.train, cut.test]
      · have inOrder : InOrder Episode.startUtcNs (walk.train fold ++ walk.test fold) := by
          rw [train_append_test]
          exact (sortByKey_inOrder Episode.startUtcNs _).sublist (List.take_sublist ..)
        exact fun seen first unseen second => (List.pairwise_append.mp inOrder).2.2 seen first
          unseen second
      · rw [reported]
        rfl
      · rw [reported]
        rfl

/-- A walk-forward selection that returns has an out-of-sample score of every fold, provided no two
candidates share a label. -/
theorem walkForward_outOfSample (walk : WalkForward) (outcomes : List WalkForwardFold)
    (distinct : (walk.candidates.map Variant.label).Nodup) (ran : walk.run = .ok outcomes) :
    List.Forall₂ (OutOfSample walk) (List.range walk.folds) outcomes := by
  obtain ⟨cuts, each⟩ := run_scored ran
  refine List.forall₂_iff_get.mpr ⟨each.length_eq, fun index bound reported => ?_⟩
  have scored := (List.forall₂_iff_get.mp each).2 index bound reported
  refine score_outOfSample (cuts _ ?_) distinct scored
  exact List.mem_range.mp (List.get_mem ..)

/-! ## Two selections -/

/-- The selections differ at most in their episodes and tapes, and cut them into blocks of one
size. -/
structure Alike (walk other : WalkForward) : Prop where
  draws : walk.draws = other.draws
  variants : walk.variants = other.variants
  folds : walk.folds = other.folds
  realism : walk.selectionRealism = other.selectionRealism
  block : walk.block = other.block

/-- The first episodes agree, with their tapes. -/
structure Agree (walk other : WalkForward) (count : ℕ) : Prop where
  episodes : walk.ordered.take count = other.ordered.take count
  tapes : ∀ episode ∈ walk.ordered.take count, walk.loadTape episode = other.loadTape episode

theorem Agree.mono {count least : ℕ} (agree : Agree walk other count) (le : least ≤ count) :
    Agree walk other least := by
  have shorter : ∀ episodes : List Episode, episodes.take least = (episodes.take count).take least :=
    fun episodes => by rw [List.take_take, Nat.min_eq_left le]
  refine ⟨?_, fun episode member => agree.tapes episode ?_⟩
  · rw [shorter, shorter other.ordered, agree.episodes]
  · exact List.mem_of_mem_take (shorter walk.ordered ▸ member)

/-- A sweep of the same episodes with the same tapes is the same sweep. -/
theorem runner_congr {episodes : List Episode} {variants : List Variant} (alike : Alike walk other)
    (part : episodes.Sublist walk.ordered) (again : episodes.Sublist other.ordered)
    (tapes : ∀ episode ∈ episodes, walk.loadTape episode = other.loadTape episode) :
    (walk.runner episodes).run variants = (other.runner episodes).run variants := by
  refine SweepRunner.run_congr ?_ alike.draws ?_
  · rw [runner_episodes part, runner_episodes again]
  · rw [runner_episodes part]
    exact tapes

/-- What a fold selects depends on nothing but the episodes before its block. -/
theorem trained_congr (alike : Alike walk other)
    (past : Agree walk other (walk.block * (fold + 1))) : walk.trained fold = other.trained fold := by
  have train : walk.train fold = other.train fold := by
    rw [WalkForward.train, past.episodes, alike.block, WalkForward.train]
  have candidates : walk.candidates = other.candidates := by
    rw [WalkForward.candidates, alike.variants, alike.realism, WalkForward.candidates]
  unfold trained
  rw [runner_congr alike train_sublist (train ▸ train_sublist) past.tapes, train, candidates]

/-- The score of a fold depends on nothing but its block and the episodes before it. -/
theorem score_congr (alike : Alike walk other)
    (past : Agree walk other (walk.block * (fold + 2))) : walk.score fold = other.score fold := by
  have before : Agree walk other (walk.block * (fold + 1)) :=
    past.mono (Nat.mul_le_mul_left _ (by omega))
  have train : walk.train fold = other.train fold := by
    rw [WalkForward.train, before.episodes, alike.block, WalkForward.train]
  have test : walk.test fold = other.test fold := by
    rw [WalkForward.test, past.episodes, alike.block, WalkForward.test]
  have tapes : ∀ episode ∈ walk.test fold, walk.loadTape episode = other.loadTape episode :=
    fun episode member => past.tapes episode (List.mem_of_mem_drop member)
  unfold score
  rw [trained_congr alike before, train]
  refine bind_congr fun ⟨trained, best⟩ => ?_
  simp only
  rw [runner_congr alike test_sublist (test ▸ test_sublist) tapes, test]

/-- What a fold tells before its block is played. -/
def selection (outcome : WalkForwardFold) : String × ℤ :=
  (outcome.selectedLabel, outcome.trainNetPnlScaled)

theorem selection_congr {outcome again : WalkForwardFold}
    (same : walk.trained fold = other.trained fold) (scored : walk.score fold = .ok outcome)
    (rescored : other.score fold = .ok again) : selection outcome = selection again := by
  obtain ⟨chosen, selected, scored⟩ := Except.bind_eq_ok.mp scored
  obtain ⟨rechosen, reselected, rescored⟩ := Except.bind_eq_ok.mp rescored
  cases Except.ok.inj (selected.symm.trans (same.trans reselected))
  obtain ⟨⟨metrics, _⟩, -, scored⟩ := Except.bind_eq_ok.mp scored
  obtain ⟨⟨remetrics, _⟩, -, rescored⟩ := Except.bind_eq_ok.mp rescored
  simp only at scored rescored
  split at scored
  · cases scored
  split at rescored
  · cases rescored
  cases Except.pure_eq_ok.mp scored
  cases Except.pure_eq_ok.mp rescored
  rfl

/-- Two selections whose first blocks agree report the same folds as long as these last, and the next
fold selects the same variant on the same profit, whatever its own block and those after it hold. -/
theorem walkForward_causal (walk other : WalkForward) (outcomes others : List WalkForwardFold)
    (fold : ℕ) (alike : Alike walk other) (past : Agree walk other (walk.block * (fold + 1)))
    (ran : walk.run = .ok outcomes) (reran : other.run = .ok others) :
    outcomes.take fold = others.take fold ∧
      outcomes[fold]?.map selection = others[fold]?.map selection := by
  obtain ⟨-, each⟩ := run_scored ran
  obtain ⟨-, again⟩ := run_scored reran
  have length : outcomes.length = others.length := by
    rw [← each.length_eq, ← again.length_eq, alike.folds]
  have scoredAt : ∀ index (bound : index < outcomes.length), walk.score index = .ok outcomes[index] :=
    fun index bound => by
      simpa using (List.forall₂_iff_get.mp each).2 index (each.length_eq ▸ bound) bound
  have rescoredAt : ∀ index (bound : index < others.length), other.score index = .ok others[index] :=
    fun index bound => by
      simpa using (List.forall₂_iff_get.mp again).2 index (again.length_eq ▸ bound) bound
  refine ⟨List.ext_getElem (by rw [List.length_take, List.length_take, length])
    fun index bound within => ?_, ?_⟩
  · obtain ⟨before, short⟩ := lt_min_iff.mp (List.length_take ▸ bound)
    rw [List.getElem_take, List.getElem_take]
    have whole : Agree walk other (walk.block * (index + 2)) :=
      past.mono (Nat.mul_le_mul_left _ (by omega))
    exact Except.ok.inj ((scoredAt index short).symm.trans
      ((score_congr alike whole).trans (rescoredAt index (length ▸ short))))
  · by_cases bound : fold < outcomes.length
    · rw [List.getElem?_eq_getElem bound, List.getElem?_eq_getElem (length ▸ bound)]
      exact congrArg some (selection_congr (trained_congr alike past) (scoredAt fold bound)
        (rescoredAt fold (length ▸ bound)))
    · rw [List.getElem?_eq_none (not_lt.mp bound), List.getElem?_eq_none (length ▸ not_lt.mp bound)]

/-! ## Two selections over four markets -/

/-- A variant that waits for a higher price. -/
def lateVariant : Variant :=
  { SweepRunner.cooldownVariant 30000000000 with
    params := { SweepRunner.defaultParams 30000000000 with
      params := { (SweepRunner.defaultParams 30000000000).params with
        entryTriggerPriceScaled := 900000
        entryLimitPriceScaled := 950000 } } }

def market (conditionId : String) : Episode :=
  { TapeBuilder.exampleEpisode with conditionId := conditionId }

def markets : WalkForward where
  loadTape := fun episode => .ok ⟨episode, none, [SweepRunner.offeredRow], [], []⟩
  draws := fun _ => ⟨fun _ => 0, fun _ => 0⟩
  episodes := [market "a", market "b", market "c", market "d"]
  variants := [lateVariant, SweepRunner.cooldownVariant 30000000000]
  folds := 2

/-- The same markets, the third never quoted. -/
def quietMarkets : WalkForward :=
  { markets with
    loadTape := fun episode =>
      if episode.conditionId = "c" then .ok ⟨episode, none, [], [], []⟩
      else markets.loadTape episode }

theorem walkForward_outOfSample_markets : ∃ outcomes, markets.run = .ok outcomes ∧
    List.Forall₂ (OutOfSample markets) [0, 1] outcomes ∧
    outcomes.map WalkForwardFold.testNetPnlScaled = [1321600, 1321600] := by
  have net : markets.run.toOption.map (·.map WalkForwardFold.testNetPnlScaled) =
      some [1321600, 1321600] := by decide +kernel
  cases ran : markets.run with
  | error e =>
    rw [ran] at net
    cases net
  | ok outcomes =>
    rw [ran] at net
    exact ⟨outcomes, rfl, walkForward_outOfSample markets outcomes (by decide +kernel) ran,
      Option.some.inj net⟩

theorem markets_alike : Alike markets quietMarkets := ⟨rfl, rfl, rfl, rfl, rfl⟩

theorem markets_agree : Agree markets quietMarkets (markets.block * (1 + 1)) where
  episodes := rfl
  tapes := by
    have first : markets.ordered.take (markets.block * (1 + 1)) = [market "a", market "b"] := by
      decide +kernel
    rw [first]
    simp [quietMarkets, market]

/-- The second fold selects alike in both, and the scores of its block differ. -/
theorem walkForward_causal_markets : ∃ outcomes others,
    markets.run = .ok outcomes ∧ quietMarkets.run = .ok others ∧
    outcomes.take 1 = others.take 1 ∧ outcomes[1]?.map selection = others[1]?.map selection ∧
    outcomes[1]?.map WalkForwardFold.testNetPnlScaled ≠
      others[1]?.map WalkForwardFold.testNetPnlScaled := by
  have net : markets.run.toOption.map (·.map WalkForwardFold.testNetPnlScaled) =
      some [1321600, 1321600] := by decide +kernel
  have quiet : quietMarkets.run.toOption.map (·.map WalkForwardFold.testNetPnlScaled) =
      some [1321600, 0] := by decide +kernel
  cases ran : markets.run with
  | error e =>
    rw [ran] at net
    cases net
  | ok outcomes =>
    cases reran : quietMarkets.run with
    | error e =>
      rw [reran] at quiet
      cases quiet
    | ok others =>
      obtain ⟨earlier, next⟩ := walkForward_causal markets quietMarkets outcomes others 1
        markets_alike markets_agree ran reran
      rw [ran] at net
      rw [reran] at quiet
      have earned : outcomes.map WalkForwardFold.testNetPnlScaled = _ := Option.some.inj net
      have missed : others.map WalkForwardFold.testNetPnlScaled = _ := Option.some.inj quiet
      refine ⟨outcomes, others, rfl, rfl, earlier, next, ?_⟩
      rw [← List.getElem?_map, ← List.getElem?_map, earned, missed]
      decide

end WalkForward

end PolymarketBt
