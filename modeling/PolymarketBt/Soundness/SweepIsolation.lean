import PolymarketBt.Machine.Loop
import PolymarketBt.Model.Sweep
import PolymarketBt.Soundness.EpisodeLedger

/-! # Variants of a sweep do not mix

The results of a variant are collected under its label. The metrics of every variant are those of
its own simulations exactly when no two variants share a label; a label omits most parameters, so
two variants of one sweep can share theirs, and each is then judged on the results of both.
-/

namespace PolymarketBt

namespace ResultTable

variable {table : ResultTable} {label other : String} {result : EpisodeResult}

theorem lookup_append_self :
    (table.append label result).lookup label = (table.lookup label).map (· ++ [result]) :=
  KeyedList.lookup_replace_self (· ++ [result])

theorem lookup_append_of_ne (apart : other ≠ label) :
    (table.append label result).lookup other = table.lookup other :=
  KeyedList.lookup_replace_of_ne apart (· ++ [result])

theorem isSome_lookup_append :
    ((table.append label result).lookup other).isSome = (table.lookup other).isSome := by
  by_cases same : other = label
  · subst same
    rw [lookup_append_self, Option.isSome_map]
  · rw [lookup_append_of_ne same]

theorem resultsOf_append_self (present : (table.lookup label).isSome) :
    (table.append label result).resultsOf label = table.resultsOf label ++ [result] := by
  obtain ⟨results, found⟩ := Option.isSome_iff_exists.mp present
  unfold resultsOf
  rw [lookup_append_self, found]
  rfl

theorem resultsOf_append_of_ne (apart : other ≠ label) :
    (table.append label result).resultsOf other = table.resultsOf other := by
  unfold resultsOf
  rw [lookup_append_of_ne apart]

end ResultTable

namespace SweepRunner

variable {runner : SweepRunner} {variants : List Variant} {table after : ResultTable}

/-- Every label of the sweep starts with an empty list, and nothing else is in the table. -/
theorem emptyTable_spec (variants : List Variant) :
    (∀ variant ∈ variants, ((emptyTable variants).lookup variant.label).isSome) ∧
      ∀ label, (emptyTable variants).resultsOf label = [] := by
  induction variants using List.reverseRecOn with
  | nil => exact ⟨fun _ member => absurd member List.not_mem_nil, fun _ => rfl⟩
  | append_singleton earlier variant ih =>
    have grown : emptyTable (earlier ++ [variant]) =
        KeyedList.assign variant.label [] (emptyTable earlier) := List.foldl_append
    rw [grown]
    refine ⟨fun other member => ?_, fun label => ?_⟩
    · by_cases same : other.label = variant.label
      · rw [same, KeyedList.lookup_assign_self]
        rfl
      · rw [KeyedList.lookup_assign_of_ne same]
        refine ih.1 other ((List.mem_append.mp member).resolve_right fun last => same ?_)
        rw [List.mem_singleton.mp last]
    · by_cases same : label = variant.label
      · rw [same, ResultTable.resultsOf, KeyedList.lookup_assign_self]
        rfl
      · rw [ResultTable.resultsOf, KeyedList.lookup_assign_of_ne same]
        exact ih.2 label

/-- The simulation of one variant on one episode. -/
def evaluate (runner : SweepRunner) (variant : Variant) (episode : Episode) :
    Except PyError EpisodeResult := do
  let tape ← runner.loadTape episode
  runner.simulate variant tape

/-- One variant simulated alone, over the episodes in their order. -/
def alone (runner : SweepRunner) (variant : Variant) : Except PyError (List EpisodeResult) :=
  runner.episodes.mapM (runner.evaluate variant)

/-- The results that an episode adds under a label. -/
def added (variants : List Variant) (results : List EpisodeResult) (label : String) :
    List EpisodeResult :=
  ((variants.zip results).filter (·.1.label = label)).map Prod.snd

theorem simulateInto_foldlM {tape : EpisodeTape}
    (present : ∀ variant ∈ variants, (table.lookup variant.label).isSome)
    (ran : variants.foldlM (runner.simulateInto tape) table = .ok after) :
    (∀ label, (after.lookup label).isSome = (table.lookup label).isSome) ∧
      ∃ results, List.Forall₂ (fun variant result => runner.simulate variant tape = .ok result)
          variants results ∧
        ∀ label, after.resultsOf label = table.resultsOf label ++ added variants results label := by
  induction variants generalizing table with
  | nil =>
    obtain rfl := Except.pure_eq_ok.mp ran
    exact ⟨fun _ => rfl, [], .nil, fun label => (List.append_nil _).symm⟩
  | cons variant rest ih =>
    rw [List.foldlM_cons] at ran
    obtain ⟨middle, stepped, ran⟩ := Except.bind_eq_ok.mp ran
    obtain ⟨result, simulated, stepped⟩ := Except.bind_eq_ok.mp stepped
    obtain rfl := Except.pure_eq_ok.mp stepped
    have here := present variant (List.mem_cons_self ..)
    obtain ⟨keys, results, each, grown⟩ := ih (fun other member => by
      rw [ResultTable.isSome_lookup_append]
      exact present other (List.mem_cons_of_mem _ member)) ran
    refine ⟨fun label => (keys label).trans ResultTable.isSome_lookup_append, result :: results, .cons simulated each,
      fun label => ?_⟩
    rw [grown]
    unfold added
    rw [List.zip_cons_cons, List.filter_cons]
    by_cases same : variant.label = label
    · subst same
      rw [ResultTable.resultsOf_append_self here, if_pos (decide_eq_true rfl), List.map_cons,
        List.append_assoc, List.singleton_append]
    · rw [ResultTable.resultsOf_append_of_ne (Ne.symm same), if_neg (by simpa using same)]

theorem length_added {results : List EpisodeResult} {label : String}
    {related : Variant → EpisodeResult → Prop} (each : List.Forall₂ related variants results) :
    (added variants results label).length = (variants.map Variant.label).count label := by
  unfold added
  induction each with
  | nil => rfl
  | @cons variant result rest others _ _ ih =>
    rw [List.length_map] at ih ⊢
    rw [List.zip_cons_cons, List.filter_cons, List.map_cons, List.count_cons, ← ih]
    by_cases same : variant.label = label
    · simp [same]
    · simp [same]

theorem added_eq_singleton {results : List EpisodeResult} {variant : Variant}
    {related : Variant → EpisodeResult → Prop} (each : List.Forall₂ related variants results)
    (distinct : (variants.map Variant.label).Nodup) (member : variant ∈ variants) :
    ∃ result, related variant result ∧ added variants results variant.label = [result] := by
  induction each with
  | nil => exact absurd member List.not_mem_nil
  | @cons head result rest others holds later ih =>
    obtain ⟨unique, distinct⟩ := List.nodup_cons.mp distinct
    have split : added (head :: rest) (result :: others) variant.label =
        (if head.label = variant.label then [result] else []) ++
          added rest others variant.label := by
      unfold added
      rw [List.zip_cons_cons, List.filter_cons]
      by_cases same : head.label = variant.label
      · simp [same]
      · simp [same]
    rw [split]
    rcases List.mem_cons.mp member with rfl | member
    · have none : added rest others variant.label = [] := by
        rw [← List.length_eq_zero_iff, length_added later, List.count_eq_zero]
        exact unique
      exact ⟨result, holds, by rw [none, if_pos rfl, List.append_nil]⟩
    · have apart : head.label ≠ variant.label := fun same =>
        unique (List.mem_map.mpr ⟨variant, member, same.symm⟩)
      rw [if_neg apart, List.nil_append]
      exact ih distinct member

/-- The table after some episodes: every label has one result for each of its variants and each
episode, and a variant with a label of its own has exactly its own results. -/
structure Collected (runner : SweepRunner) (variants : List Variant) (past : List Episode)
    (table : ResultTable) : Prop where
  present : ∀ variant ∈ variants, (table.lookup variant.label).isSome
  length : ∀ label, (table.resultsOf label).length =
    past.length * (variants.map Variant.label).count label
  own : (variants.map Variant.label).Nodup → ∀ variant ∈ variants,
    List.Forall₂ (fun episode result => runner.evaluate variant episode = .ok result) past
      (table.resultsOf variant.label)

theorem Collected.runEpisode {past : List Episode} {episode : Episode}
    (collected : Collected runner variants past table)
    (ran : runner.runEpisode variants table episode = .ok after) :
    Collected runner variants (past ++ [episode]) after := by
  obtain ⟨tape, loaded, ran⟩ := Except.bind_eq_ok.mp ran
  obtain ⟨keys, results, each, grown⟩ := simulateInto_foldlM collected.present ran
  refine ⟨fun variant member => ?_, fun label => ?_, fun distinct variant member => ?_⟩
  · rw [keys]
    exact collected.present variant member
  · rw [grown, List.length_append, collected.length, length_added each, List.length_append,
      List.length_singleton, Nat.add_one_mul]
  · obtain ⟨result, simulated, added⟩ := added_eq_singleton each distinct member
    rw [grown, added]
    refine List.rel_append (collected.own distinct variant member) (.cons ?_ .nil)
    exact Except.bind_eq_ok.mpr ⟨tape, loaded, simulated⟩

theorem run_collected {metrics : List VariantMetrics}
    (ran : runner.run variants = .ok (metrics, table)) :
    Collected runner variants runner.episodes table ∧
      metrics = variants.map fun variant => variant.aggregate (table.resultsOf variant.label) := by
  obtain ⟨final, folded, ran⟩ := Except.bind_eq_ok.mp ran
  obtain ⟨rfl, rfl⟩ := Prod.mk.inj (Except.pure_eq_ok.mp ran)
  obtain ⟨present, empty⟩ := emptyTable_spec variants
  refine ⟨Except.foldlM_history (Collected runner variants) ?_ ?_ folded, rfl⟩
  · refine ⟨present, fun label => ?_, fun _ variant _ => ?_⟩
    · rw [empty]
      exact (Nat.zero_mul _).symm
    · rw [empty]
      exact .nil
  · exact fun past episode state after _ collected stepped => collected.runEpisode stepped

/-- The metrics of every variant are those of its own results. -/
def Isolated (runner : SweepRunner) (variants : List Variant) (metrics : List VariantMetrics) :
    Prop :=
  ∀ index (bound : index < variants.length), ∃ results,
    runner.alone variants[index] = .ok results ∧
      metrics[index]? = some (variants[index].aggregate results)

theorem isolated_iff {metrics : List VariantMetrics}
    (ran : runner.run variants = .ok (metrics, table)) :
    runner.Isolated variants metrics ↔
      runner.episodes = [] ∨ (variants.map Variant.label).Nodup := by
  obtain ⟨collected, rfl⟩ := run_collected ran
  constructor
  · intro isolated
    by_contra mixed
    obtain ⟨nonempty, shared⟩ := not_or.mp mixed
    rw [List.nodup_iff_count_le_one] at shared
    obtain ⟨label, shared⟩ := not_forall.mp shared
    have member : label ∈ variants.map Variant.label := List.count_pos_iff.mp (by omega)
    obtain ⟨index, bound, labelled⟩ := List.getElem_of_mem member
    rw [List.length_map] at bound
    rw [List.getElem_map] at labelled
    obtain ⟨results, ran, reported⟩ := isolated index bound
    rw [List.getElem?_map, List.getElem?_eq_getElem bound, Option.map_some] at reported
    -- the number of episodes reported is that of all variants under the label
    have counted : (table.resultsOf variants[index].label).length = results.length :=
      congrArg VariantMetrics.episodes (Option.some.inj reported)
    have alone : runner.episodes.length = results.length :=
      (Except.mapM_eq_ok.mp ran).length_eq
    rw [collected.length, labelled, ← alone] at counted
    have positive := List.length_pos_iff.mpr nonempty
    exact shared (Nat.eq_of_mul_eq_mul_left positive (counted.trans (Nat.mul_one _).symm)).le
  · rintro (none | distinct)
    · intro index bound
      refine ⟨[], by rw [alone, none]; rfl, ?_⟩
      have empty : table.resultsOf variants[index].label = [] := by
        rw [← List.length_eq_zero_iff, collected.length, none, List.length_nil, Nat.zero_mul]
      rw [List.getElem?_map, List.getElem?_eq_getElem bound, Option.map_some, empty]
    · intro index bound
      refine ⟨table.resultsOf variants[index].label, ?_, ?_⟩
      · exact Except.mapM_eq_ok.mpr (collected.own distinct _ (List.getElem_mem bound))
      · rw [List.getElem?_map, List.getElem?_eq_getElem bound, Option.map_some]

/-- The default parameters with another cooldown. -/
def defaultParams (cooldownNs : ℤ) : VariantParams where
  params := {
    entryFromNs := 720000000000
    entryToNs := 840000000000
    entryTriggerPriceScaled := 800000
    entryLimitPriceScaled := 850000
    sideSelection := .favoured
    orderSharesScaled := some 100000000
    orderNotionalScaled := none
    allowPartialEntry := true
    maxEntriesPerEpisode := 1
    reentryCooldownNs := cooldownNs
    entryExecutionPolicy := .immediate
    executionHorizonNs := 2000000000
    executionSlices := 4
    executionParticipationPpm := 200000
    stopLossPriceScaled := some 750000
    stopLossFromNs := none
    stopLossFractionPpm := 1000000
    takeProfitPriceScaled := none
    takeProfitFractionPpm := 1000000
    stopRetryLimit := 3
    stopRetryIntervalMs := 250
    flattenBeforeEndNs := none }
  entryFromMinute := 12
  entryToMinute := 14
  stopLossFromMinute := none
  entryFrom_ns := by
    change 720000000000 = minutesToNs 12
    decide +kernel
  entryTo_ns := by
    change 840000000000 = minutesToNs 14
    decide +kernel
  stopLossFrom_ns := rfl

example : (defaultParams 0).label = "m12-14_e0.80_x0.75_s100_pimmediate" := by decide +kernel

def cooldownVariant (cooldownNs : ℤ) : Variant :=
  ⟨defaultParams cooldownNs, "base", ThresholdHoldSimulator.exampleRealism⟩

/-- The favoured token is offered at the trigger in the thirteenth minute. -/
def offeredRow : TapeRow :=
  { TapeBuilder.exampleRow none 780000 800000 with receivedUtcNs := 750000000000 }

def offeredRunner : SweepRunner :=
  init (fun episode => .ok ⟨episode, none, [offeredRow], [], []⟩) [TapeBuilder.exampleEpisode]
    fun _ => ⟨fun _ => 0, fun _ => 0⟩

end SweepRunner

end PolymarketBt
