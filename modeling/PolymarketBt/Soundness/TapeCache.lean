import PolymarketBt.Model.TapeCache

/-! # Coherence of the tape cache

Whatever the interleaving, the counter is the size of what is cached, the budget holds up to a single
entry, and a call returns the tape of its condition. A clear that falls between the load of a call and
its insertion does not reach the tape in its hands, so a later call can return a superseded tape; as
long as every insertion is of a tape loaded since the last clear, or finds its condition cached, none
does.
-/

namespace PolymarketBt

open Transition KeyedList

/-- The size of the cached tapes. -/
def residentBytes (entries : List (String × LoadedTape)) : ℤ :=
  (entries.map fun entry => entry.2.residentBytes).sum

theorem residentBytes_append (earlier later : List (String × LoadedTape)) :
    residentBytes (earlier ++ later) = residentBytes earlier + residentBytes later := by
  unfold residentBytes
  rw [List.map_append, List.sum_append]

theorem residentBytes_perm {entries other : List (String × LoadedTape)} (perm : entries.Perm other) :
    residentBytes entries = residentBytes other :=
  (perm.map _).sum_eq

/-- What a call knows of its tape. -/
def GetCall.Sound (clears : ℕ) : GetCall → Prop
  | .missed _ startedAt => startedAt ≤ clears
  | .loaded conditionId startedAt tape =>
    tape.conditionId = conditionId ∧ startedAt ≤ tape.loadedAt ∧ tape.loadedAt ≤ clears
  | .returned conditionId _ tape => tape.conditionId = conditionId
  | _ => True

theorem GetCall.Sound.mono {phase : GetCall} {clears later : ℕ} (sound : phase.Sound clears)
    (le : clears ≤ later) : phase.Sound later := by
  cases phase with
  | missed => exact Nat.le_trans sound le
  | loaded => exact ⟨sound.1, sound.2.1, sound.2.2.trans le⟩
  | returned => exact sound
  | idle => trivial
  | raised => trivial

namespace TapeCache

variable {Call : Type*} [DecidableEq Call] {budgetBytes : ℕ} {cache next : TapeCache Call}
  {call : Call} {conditionId : String} {startedAt : ℕ} {tape : LoadedTape}

/-- The counter is exact, the budget holds up to a single entry, and every call that has returned
has the tape of its condition. -/
structure Coherent (budgetBytes : ℕ) (cache : TapeCache Call) : Prop where
  counted : cache.bytes = residentBytes cache.entries
  bounded : cache.bytes ≤ budgetBytes ∨ cache.entries.length = 1
  requested : ∀ call conditionId startedAt tape,
    cache.calls call = .returned conditionId startedAt tape → tape.conditionId = conditionId

/-- No call has returned a tape that was loaded before a clear that had returned when it began. -/
def NeverSuperseded (cache : TapeCache Call) : Prop :=
  ∀ call conditionId startedAt tape,
    cache.calls call = .returned conditionId startedAt tape → startedAt ≤ tape.loadedAt

/-- A tape that is inserted was loaded since the last clear, or its condition is cached already. -/
def InsertsCurrent (cache : TapeCache Call) : CacheAction Call → Prop
  | .insert call => ∀ conditionId startedAt tape,
    cache.calls call = .loaded conditionId startedAt tape →
      tape.loadedAt = cache.clears ∨ (cache.entries.lookup conditionId).isSome
  | _ => True

/-- What holds in every state of every run. -/
structure Accounted (budgetBytes : ℕ) (cache : TapeCache Call) : Prop where
  distinct : (cache.entries.map Prod.fst).Nodup
  own : ∀ entry ∈ cache.entries, entry.2.conditionId = entry.1 ∧ entry.2.loadedAt ≤ cache.clears
  counted : cache.bytes = residentBytes cache.entries
  bounded : cache.bytes ≤ budgetBytes ∨ cache.entries.length = 1
  calls : ∀ call, (cache.calls call).Sound cache.clears

/-- What holds as long as insertions are current. -/
structure Current (cache : TapeCache Call) : Prop where
  entries : ∀ entry ∈ cache.entries, entry.2.loadedAt = cache.clears
  returned : NeverSuperseded cache

@[simp] theorem goTo_entries (phase : GetCall) : (cache.goTo call phase).entries = cache.entries := rfl
@[simp] theorem goTo_bytes (phase : GetCall) : (cache.goTo call phase).bytes = cache.bytes := rfl
@[simp] theorem goTo_clears (phase : GetCall) : (cache.goTo call phase).clears = cache.clears := rfl

theorem calls_goTo {phase : GetCall} {sound : GetCall → Prop} (own : sound phase)
    (others : ∀ other, sound (cache.calls other)) : ∀ other, sound ((cache.goTo call phase).calls other) := by
  intro other
  by_cases same : other = call
  · subst same
    simpa [goTo] using own
  · simpa [goTo, same] using others other

/-! ## Eviction -/

section Eviction

variable (budgetBytes) (entries : List (String × LoadedTape)) (bytes : ℤ)

/-- Eviction drops the oldest entries and no others. -/
theorem evict_suffix : (evict budgetBytes entries bytes).1 <:+ entries := by
  fun_induction evict budgetBytes entries bytes with
  | case1 oldest next rest bytes _ ih => exact ih.trans (List.suffix_cons _ _)
  | case2 => exact List.suffix_rfl
  | case3 => exact List.suffix_rfl

theorem evict_counted (counted : bytes = residentBytes entries) :
    (evict budgetBytes entries bytes).2 = residentBytes (evict budgetBytes entries bytes).1 := by
  fun_induction evict budgetBytes entries bytes with
  | case1 oldest next rest bytes _ ih =>
    refine ih ?_
    rw [counted]
    simp [residentBytes]
  | case2 => exact counted
  | case3 => exact counted

theorem evict_bounded : (evict budgetBytes entries bytes).2 ≤ budgetBytes ∨
    (evict budgetBytes entries bytes).1.length ≤ 1 := by
  fun_induction evict budgetBytes entries bytes with
  | case1 _ _ _ _ _ ih => exact ih
  | case2 _ _ _ _ within => exact .inl (not_lt.mp within)
  | case3 entries bytes short =>
    match entries with
    | [] => exact .inr (Nat.zero_le _)
    | [_] => exact .inr le_rfl
    | oldest :: next :: rest => exact absurd rfl (short oldest next rest)

/-- The newest entry stays. -/
theorem evict_concat (entry : String × LoadedTape) :
    entry ∈ (evict budgetBytes (entries ++ [entry]) bytes).1 := by
  suffices newest : (evict budgetBytes (entries ++ [entry]) bytes).1.getLast? = some entry from
    List.mem_of_getLast? newest
  induction entries generalizing bytes with
  | nil => rfl
  | cons oldest rest ih =>
    obtain ⟨next, later, split⟩ := List.exists_cons_of_ne_nil (List.concat_ne_nil entry rest)
    rw [List.cons_append, split, evict]
    split
    · rw [← split]
      exact ih _
    · rw [← split, ← List.cons_append]
      exact List.getLast?_concat

end Eviction

/-! ## What one step preserves -/

namespace Accounted

variable (accounted : Accounted budgetBytes cache)

include accounted

theorem goTo {phase : GetCall} (sound : phase.Sound cache.clears) :
    Accounted budgetBytes (cache.goTo call phase) :=
  { accounted with calls := calls_goTo sound accounted.calls }

theorem lookup : Accounted budgetBytes (cache.lookup call conditionId) := by
  unfold TapeCache.lookup
  split
  · next tape found =>
    have perm := move_perm accounted.distinct found
    obtain ⟨before, after, split, -⟩ := List.lookup_eq_some_iff.mp found
    have owned := accounted.own (conditionId, tape) (split ▸ by simp)
    refine ⟨((perm.map _).nodup_iff).mpr accounted.distinct,
      fun entry member => accounted.own entry (perm.mem_iff.mp member), ?_, ?_,
      calls_goTo owned.1 accounted.calls⟩
    · exact accounted.counted.trans (residentBytes_perm perm).symm
    · exact accounted.bounded.imp_right perm.length_eq.trans
  · exact accounted.goTo le_rfl

theorem insert (loaded : cache.calls call = .loaded conditionId startedAt tape) :
    Accounted budgetBytes (cache.insert budgetBytes call conditionId startedAt tape) := by
  have sound := accounted.calls call
  rw [loaded] at sound
  unfold TapeCache.insert
  split
  · exact ⟨accounted.distinct, accounted.own, accounted.counted, accounted.bounded,
      calls_goTo sound.1 accounted.calls⟩
  · next missing =>
    have fresh : conditionId ∉ cache.entries.map Prod.fst := by
      intro cached
      obtain ⟨entry, member, same⟩ := List.mem_map.mp cached
      exact missing (List.lookup_isSome_iff.mpr ⟨entry, member, by simp [same]⟩)
    have counted : cache.bytes + tape.residentBytes =
        residentBytes (cache.entries ++ [(conditionId, tape)]) := by
      rw [residentBytes_append, accounted.counted]
      simp [residentBytes]
    have suffix := evict_suffix budgetBytes (cache.entries ++ [(conditionId, tape)])
      (cache.bytes + tape.residentBytes)
    refine ⟨?_, fun entry member => ?_, evict_counted _ _ _ counted, ?_,
      calls_goTo sound.1 accounted.calls⟩
    · refine (suffix.sublist.map Prod.fst).nodup ?_
      rw [List.map_append, List.map_singleton, List.nodup_append]
      refine ⟨accounted.distinct, List.nodup_singleton _, fun key cached other only same => fresh ?_⟩
      have key_eq : key = conditionId := same.trans (List.mem_singleton.mp only)
      exact key_eq ▸ cached
    · rcases List.mem_append.mp (suffix.subset member) with old | new
      · exact accounted.own entry old
      · obtain rfl := List.mem_singleton.mp new
        exact ⟨sound.1, sound.2.2⟩
    · refine (evict_bounded _ _ _).imp_right fun short => le_antisymm short ?_
      exact List.length_pos_of_mem (evict_concat _ _ _ _)

omit [DecidableEq Call] in
theorem clear : Accounted budgetBytes cache.clear :=
  ⟨List.nodup_nil, by simp [TapeCache.clear], rfl, .inl (Int.natCast_nonneg _),
    fun call => (accounted.calls call).mono (Nat.le_succ _)⟩

theorem step {action : CacheAction Call} (stepped : cache.step budgetBytes action = some next) :
    Accounted budgetBytes next := by
  cases action with
  | lookup call conditionId =>
    simp only [TapeCache.step] at stepped
    split at stepped <;> cases stepped
    exact accounted.lookup
  | load call rows trades =>
    simp only [TapeCache.step] at stepped
    split at stepped <;> cases stepped
    next conditionId startedAt missed =>
      have sound := accounted.calls call
      rw [missed] at sound
      exact accounted.goTo ⟨rfl, sound, le_rfl⟩
  | loadFails call =>
    simp only [TapeCache.step] at stepped
    split at stepped <;> cases stepped
    exact accounted.goTo trivial
  | insert call =>
    simp only [TapeCache.step] at stepped
    split at stepped <;> cases stepped
    next loaded => exact accounted.insert loaded
  | episodes mtime readable =>
    cases stepped
    unfold TapeCache.episodes
    split
    · exact accounted
    · split
      · exact ⟨accounted.clear.distinct, accounted.clear.own, accounted.clear.counted,
          accounted.clear.bounded, accounted.clear.calls⟩
      · exact accounted

omit [DecidableEq Call] in
theorem coherent : Coherent budgetBytes cache :=
  ⟨accounted.counted, accounted.bounded, fun call _ _ _ returned => by
    have sound := accounted.calls call
    rwa [returned] at sound⟩

end Accounted

omit [DecidableEq Call] in
theorem accounted_init : Accounted budgetBytes (init Call) :=
  ⟨List.nodup_nil, by simp [init], rfl, .inl (Int.natCast_nonneg _), fun _ => trivial⟩

/-! ## Superseded tapes -/

/-- A call that has not returned changes nothing about the returned ones. -/
theorem neverSuperseded_goTo {phase : GetCall} (never : NeverSuperseded cache)
    (own : ∀ conditionId startedAt tape, phase = .returned conditionId startedAt tape →
      startedAt ≤ tape.loadedAt) : NeverSuperseded (cache.goTo call phase) :=
  @calls_goTo Call _ cache call phase (fun phase => ∀ conditionId startedAt tape,
    phase = .returned conditionId startedAt tape → startedAt ≤ tape.loadedAt) own never

namespace Current

theorem lookup (current : Current cache) : Current (cache.lookup call conditionId) := by
  unfold TapeCache.lookup
  split
  · next tape found =>
    obtain ⟨before, after, split, -⟩ := List.lookup_eq_some_iff.mp found
    have inEntries : (conditionId, tape) ∈ cache.entries := split ▸ by simp
    refine ⟨fun entry member => ?_, neverSuperseded_goTo current.returned ?_⟩
    · rcases List.mem_append.mp member with old | moved
      · exact current.entries entry (List.mem_of_mem_filter old)
      · obtain rfl := List.mem_singleton.mp moved
        exact current.entries _ inEntries
    · rintro _ _ _ ⟨⟩
      exact (current.entries _ inEntries).ge
  · exact ⟨current.entries, neverSuperseded_goTo current.returned (by simp)⟩

theorem insert (current : Current cache) (sound : startedAt ≤ tape.loadedAt)
    (fresh : tape.loadedAt = cache.clears ∨ (cache.entries.lookup conditionId).isSome) :
    Current (cache.insert budgetBytes call conditionId startedAt tape) := by
  have own : ∀ otherId other otherTape, GetCall.returned conditionId startedAt tape =
      .returned otherId other otherTape → other ≤ otherTape.loadedAt := by
    rintro _ _ _ ⟨⟩
    exact sound
  unfold TapeCache.insert
  split
  · exact ⟨current.entries, neverSuperseded_goTo current.returned own⟩
  · next missing =>
    refine ⟨fun entry member => ?_, neverSuperseded_goTo current.returned own⟩
    rcases List.mem_append.mp ((evict_suffix _ _ _).subset member) with old | new
    · exact current.entries entry old
    · obtain rfl := List.mem_singleton.mp new
      exact fresh.resolve_right missing

omit [DecidableEq Call] in
theorem clear (current : Current cache) : Current cache.clear :=
  ⟨by simp [TapeCache.clear], current.returned⟩

/-- A step keeps the entries current as long as it inserts current tapes. -/
theorem step {action : CacheAction Call} (current : Current cache)
    (accounted : Accounted budgetBytes cache) (inserts : InsertsCurrent cache action)
    (stepped : cache.step budgetBytes action = some next) : Current next := by
  cases action with
  | lookup call conditionId =>
    simp only [TapeCache.step] at stepped
    split at stepped <;> cases stepped
    exact current.lookup
  | load call rows trades =>
    simp only [TapeCache.step] at stepped
    split at stepped <;> cases stepped
    exact ⟨current.entries, neverSuperseded_goTo current.returned (by simp)⟩
  | loadFails call =>
    simp only [TapeCache.step] at stepped
    split at stepped <;> cases stepped
    exact ⟨current.entries, neverSuperseded_goTo current.returned (by simp)⟩
  | insert call =>
    simp only [TapeCache.step] at stepped
    split at stepped <;> cases stepped
    next conditionId startedAt tape loaded =>
      have sound := accounted.calls call
      rw [loaded] at sound
      exact current.insert sound.2.1 (inserts _ _ _ loaded)
  | episodes mtime readable =>
    cases stepped
    unfold TapeCache.episodes
    split
    · exact current
    · split
      · exact ⟨current.clear.entries, current.clear.returned⟩
      · exact current

end Current

theorem insert_lookup (accounted : Accounted budgetBytes cache)
    (loaded : cache.calls call = .loaded conditionId startedAt tape)
    (missing : ¬(cache.entries.lookup conditionId).isSome) :
    (cache.insert budgetBytes call conditionId startedAt tape).entries.lookup conditionId =
      some tape := by
  refine lookup_of_mem (accounted.insert loaded).distinct ?_
  unfold TapeCache.insert
  rw [if_neg missing]
  exact evict_concat _ _ _ _

/-- A tape that is inserted although a clear followed its load is returned by the next call. -/
theorem superseded_next {other : Call} (accounted : Accounted budgetBytes cache)
    (loaded : cache.calls call = .loaded conditionId startedAt tape)
    (superseded : tape.loadedAt < cache.clears) (missing : ¬(cache.entries.lookup conditionId).isSome)
    (idle : cache.calls other = .idle) :
    ∃ final, Run (step budgetBytes) (fun _ _ => True) cache
      [.insert call, .lookup other conditionId] final ∧ ¬NeverSuperseded final := by
  have apart : other ≠ call := by
    rintro rfl
    rw [loaded] at idle
    cases idle
  have found := insert_lookup accounted loaded missing
  have clears : (cache.insert budgetBytes call conditionId startedAt tape).clears = cache.clears := by
    unfold TapeCache.insert
    rw [if_neg missing]
    rfl
  have waiting : (cache.insert budgetBytes call conditionId startedAt tape).calls other = .idle := by
    unfold TapeCache.insert
    rw [if_neg missing]
    exact (Function.update_of_ne apart _ _).trans idle
  have inserts : cache.step budgetBytes (.insert call) =
      some (cache.insert budgetBytes call conditionId startedAt tape) := by simp only [step, loaded]
  have hits : (cache.insert budgetBytes call conditionId startedAt tape).step budgetBytes
      (.lookup other conditionId) =
        some ((cache.insert budgetBytes call conditionId startedAt tape).lookup other conditionId) := by
    simp only [step, waiting]
  have returned : ((cache.insert budgetBytes call conditionId startedAt tape).lookup other
      conditionId).calls other = .returned conditionId cache.clears tape := by
    unfold TapeCache.lookup
    rw [found, clears]
    exact Function.update_self ..
  exact ⟨_, .cons trivial inserts (.cons trivial hits (.nil _)), fun never =>
    absurd (never _ _ _ _ returned) (not_le.mpr superseded)⟩

/-- In every run the counter, the budget and the conditions are right. No call returns a superseded
tape as long as every insertion is of a tape loaded since the last clear or finds its condition
cached; after any other insertion a call can. -/
theorem tapeCache_coherent (budgetBytes : ℕ) :
    (∀ actions final, Run (step budgetBytes) (fun _ _ => True) (init Call) actions final →
      Coherent budgetBytes final) ∧
    (∀ actions final, Run (step budgetBytes) InsertsCurrent (init Call) actions final →
      NeverSuperseded final) ∧
    ∀ actions middle call other, Run (step budgetBytes) (fun _ _ => True) (init Call) actions middle →
      ¬InsertsCurrent middle (.insert call) → middle.calls other = .idle →
      ∃ conditionId final, Run (step budgetBytes) (fun _ _ => True) middle
        [.insert call, .lookup other conditionId] final ∧ ¬NeverSuperseded final := by
  have accounted {allowed : TapeCache Call → CacheAction Call → Prop} {actions final}
      (run : Run (step budgetBytes) allowed (init Call) actions final) :
      Accounted budgetBytes final :=
    run.invariant accounted_init fun _ _ _ _ stepped accounted => accounted.step stepped
  refine ⟨fun actions final run => (accounted run).coherent, fun actions final run => ?_, ?_⟩
  · have start : Accounted budgetBytes (init Call) ∧ Current (init Call) :=
      ⟨accounted_init, by simp [init], by simp [init, NeverSuperseded]⟩
    have both : Accounted budgetBytes final ∧ Current final := by
      refine @Run.invariant _ _ _ _ _ _ _ (fun cache => Accounted budgetBytes cache ∧ Current cache)
        run start ?_
      intro before action after inserts stepped ⟨accounted, current⟩
      exact ⟨accounted.step stepped, current.step accounted inserts stepped⟩
    exact both.2.returned
  · intro actions middle call other run superseded idle
    simp only [InsertsCurrent, not_forall, not_or] at superseded
    obtain ⟨conditionId, startedAt, tape, loaded, apart, missing⟩ := superseded
    have sound := (accounted run).calls call
    rw [loaded] at sound
    exact ⟨conditionId, superseded_next (accounted run) loaded (lt_of_le_of_ne sound.2.2 apart)
      missing idle⟩

/-- Two calls for one condition; the second is a hit. -/
def repeatedGet : List (CacheAction ℕ) :=
  [.episodes (some 1) true, .lookup 0 "0xa", .load 0 1000 10, .insert 0, .lookup 1 "0xa"]

/-- The index is refreshed while the first call has its tape in hands. -/
def refreshedMeanwhile : List (CacheAction ℕ) :=
  [.episodes (some 1) true, .lookup 0 "0xa", .load 0 1000 10, .episodes (some 2) true]

theorem tapeCache_coherent_repeated :
    (∃ final : TapeCache ℕ, Run (step 100000) (fun _ _ => True) (init ℕ) repeatedGet final ∧
      Coherent 100000 final) ∧
    (∃ final : TapeCache ℕ, Run (step 100000) InsertsCurrent (init ℕ) repeatedGet final ∧
      NeverSuperseded final) ∧
    ∃ conditionId, ∃ middle final : TapeCache ℕ,
      Run (step 100000) (fun _ _ => True) (init ℕ) refreshedMeanwhile middle ∧
      Run (step 100000) (fun _ _ => True) middle [.insert 0, .lookup 1 conditionId] final ∧
      ¬NeverSuperseded final := by
  have coherent := @tapeCache_coherent ℕ _ 100000
  refine ⟨?_, ?_, ?_⟩
  · obtain ⟨final, run⟩ : ∃ final,
        Run (step 100000) (fun _ _ => True) (init ℕ) repeatedGet final :=
      ⟨_, .cons trivial rfl (.cons trivial rfl (.cons trivial rfl (.cons trivial rfl
        (.cons trivial rfl (.nil _)))))⟩
    exact ⟨final, run, coherent.1 _ _ run⟩
  · obtain ⟨final, run⟩ : ∃ final, Run (step 100000) InsertsCurrent (init ℕ) repeatedGet final := by
      refine ⟨_, .cons trivial rfl (.cons trivial rfl (.cons trivial rfl (.cons ?_ rfl
        (.cons trivial rfl (.nil _)))))⟩
      rintro _ _ _ ⟨⟩
      exact .inl rfl
    exact ⟨final, run, coherent.2.1 _ _ run⟩
  · obtain ⟨middle, run, missing, idle⟩ : ∃ middle,
        Run (step 100000) (fun _ _ => True) (init ℕ) refreshedMeanwhile middle ∧
        ¬InsertsCurrent middle (.insert 0) ∧ middle.calls 1 = .idle := by
      refine ⟨_, .cons trivial rfl (.cons trivial rfl (.cons trivial rfl (.cons trivial rfl
        (.nil _)))), fun current => ?_, rfl⟩
      exact absurd (current _ _ _ rfl) (by decide)
    obtain ⟨conditionId, final, later, superseded⟩ := coherent.2.2 _ _ 0 1 run missing idle
    exact ⟨conditionId, middle, final, run, later, superseded⟩

theorem superseded_tape_returned :
    ∃ final : TapeCache ℕ, Run (step 100000) (fun _ _ => True) (init ℕ)
        (refreshedMeanwhile ++ [.insert 0, .lookup 1 "0xa"]) final ∧
      final.calls 1 = .returned "0xa" 2 ⟨"0xa", 1000, 10, 1⟩ ∧ ¬NeverSuperseded final := by
  refine ⟨_, .cons trivial rfl (.cons trivial rfl (.cons trivial rfl (.cons trivial rfl
    (.cons trivial rfl (.cons trivial rfl (.nil _)))))), rfl, fun never => ?_⟩
  exact absurd (never 1 _ _ _ rfl) (by decide)

end TapeCache

end PolymarketBt
