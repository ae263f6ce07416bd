import PolymarketBt.Machine.Loop
import PolymarketBt.Proofs.Selection

/-! # Causality of the venue parameters

Each parameter of a selection is that of the newest observation by the open that has the authority
for it and carries it, so an endpoint that answers later without a field does not erase it, and
nothing that was observed after the open has a part in the selection.
-/

namespace PolymarketBt

open KeyedList StableSort

theorem JsonValue.eq_null_of_absent {value : JsonValue} (absent : ¬value.isPresent) :
    value = .null := by
  cases value <;> simp_all [isPresent]

/-- The value a field has to have: that of the newest observation of the order book that carries it,
or else that of the newest of the listing. -/
def NewestValue (clobObserved gammaObserved : List MetadataRow) (field : MergeField)
    (value : JsonValue) : Prop :=
  (∃ row ∈ clobObserved, (row.fields field).isPresent ∧ value = row.fields field ∧
    ∀ other ∈ clobObserved, (other.fields field).isPresent →
      other.observationOrder ≤ row.observationOrder) ∨
  (∀ row ∈ clobObserved, row.fields field = .null) ∧
    ((∃ row ∈ gammaObserved, value = row.fields field ∧
      ∀ other ∈ gammaObserved, other.observationOrder ≤ row.observationOrder) ∨
    gammaObserved = [] ∧ value = .null)

/-- The delay it has to have: that of the newest market detail, known or not, or else that of the
newest observation of the order book. -/
def NewestDelay (clobObserved : List MetadataRow) (delay : Option ℤ) : Prop :=
  (∃ row ∈ clobObserved, row.source = some "clob_rest_market" ∧ delay = row.takerOrderDelayMs ∧
    ∀ other ∈ clobObserved, other.source = some "clob_rest_market" →
      other.observationOrder ≤ row.observationOrder) ∨
  (∀ row ∈ clobObserved, row.source ≠ some "clob_rest_market") ∧
    ∃ row ∈ clobObserved, delay = row.takerOrderDelayMs ∧
      ∀ other ∈ clobObserved, other.observationOrder ≤ row.observationOrder

/-- The first present value from the newest on is that of the newest row that carries one. -/
theorem find_newest {rows : List MetadataRow} {field : MergeField} {value : JsonValue}
    (found : ((sortByKey (fun row => OrderDual.toDual row.observationOrder) rows).map
      fun row => row.fields field).find? JsonValue.isPresent = some value) :
    ∃ row ∈ rows, (row.fields field).isPresent ∧ value = row.fields field ∧
      ∀ other ∈ rows, (other.fields field).isPresent →
        other.observationOrder ≤ row.observationOrder := by
  obtain ⟨present, before, after, split, absent⟩ := List.find?_eq_some_iff_append.mp found
  obtain ⟨newer, rest, sorted, rfl, restSplit⟩ := List.map_eq_append_iff.mp split
  obtain ⟨row, older, rfl, rfl, rfl⟩ := List.map_eq_cons_iff.mp restSplit
  have order := sortByKey_inOrder (fun row : MetadataRow => OrderDual.toDual row.observationOrder) rows
  have perm := sortByKey_perm (fun row : MetadataRow => OrderDual.toDual row.observationOrder) rows
  rw [sorted] at order perm
  obtain ⟨-, orderRest, -⟩ := List.pairwise_append.mp order
  refine ⟨row, perm.mem_iff.mp (by simp), present, rfl, fun other member carries => ?_⟩
  rcases List.mem_append.mp (perm.mem_iff.mpr member) with isNewer | inRest
  · have lacks := absent _ (List.mem_map_of_mem isNewer)
    rw [carries] at lacks
    cases lacks
  · rcases List.mem_cons.mp inRest with rfl | isOlder
    · exact le_rfl
    · exact (List.pairwise_cons.mp orderRest).1 other isOlder

theorem mergeClob_fields {clobObserved : List MetadataRow} {latest : MetadataRow}
    (member : latest ∈ clobObserved) (field : MergeField) :
    (∃ row ∈ clobObserved, (row.fields field).isPresent ∧
      (mergeClob clobObserved latest).fields field = row.fields field ∧
      ∀ other ∈ clobObserved, (other.fields field).isPresent →
        other.observationOrder ≤ row.observationOrder) ∨
    (∀ row ∈ clobObserved, row.fields field = .null) ∧
      (mergeClob clobObserved latest).fields field = .null := by
  simp only [mergeClob]
  cases found : ((sortByKey (fun row => OrderDual.toDual row.observationOrder) clobObserved).map
      fun row => row.fields field).find? JsonValue.isPresent with
  | some value =>
    obtain ⟨row, own, present, same, newest⟩ := find_newest found
    exact .inl ⟨row, own, present, same, newest⟩
  | none =>
    have absent (row : MetadataRow) (own : row ∈ clobObserved) : row.fields field = .null := by
      refine JsonValue.eq_null_of_absent (List.find?_eq_none.mp found _ ?_)
      exact List.mem_map_of_mem (mem_sortByKey.mpr own)
    exact .inr ⟨absent, absent latest member⟩

theorem mergeClob_delay {clobObserved : List MetadataRow} (latest : MetadataRow)
    (nonempty : clobObserved ≠ []) :
    NewestDelay clobObserved (mergeClob clobObserved latest).takerOrderDelayMs := by
  simp only [mergeClob]
  split
  · next details =>
    obtain ⟨row, found⟩ := exists_maxBy MetadataRow.observationOrder details
    obtain ⟨member, newest⟩ := maxBy_spec found
    obtain ⟨own, detail⟩ := List.mem_filter.mp member
    refine .inl ⟨row, own, of_decide_eq_true detail, by rw [found]; rfl, fun other inClob kind => ?_⟩
    exact newest other (List.mem_filter.mpr ⟨inClob, decide_eq_true kind⟩)
  · next details =>
    obtain ⟨row, found⟩ := exists_maxBy MetadataRow.observationOrder nonempty
    obtain ⟨own, newest⟩ := maxBy_spec found
    refine .inr ⟨fun other inClob kind => ?_, row, own, by rw [found]; rfl, newest⟩
    have none := List.filter_eq_nil_iff.mp (not_ne_iff.mp details) other inClob
    exact none (decide_eq_true kind)

@[simp] theorem fillFromGamma_delay (gammaObserved : List MetadataRow) (selected : MetadataRow) :
    (fillFromGamma gammaObserved selected).takerOrderDelayMs = selected.takerOrderDelayMs := by
  unfold fillFromGamma
  split <;> rfl

theorem fillFromGamma_of_present {gammaObserved : List MetadataRow} {selected : MetadataRow}
    {field : MergeField} (present : (selected.fields field).isPresent) :
    (fillFromGamma gammaObserved selected).fields field = selected.fields field := by
  unfold fillFromGamma
  split
  · rfl
  · exact if_pos present

theorem fillFromGamma_of_null {gammaObserved : List MetadataRow} {selected : MetadataRow}
    {field : MergeField} (null : selected.fields field = .null) :
    (∃ row ∈ gammaObserved, (fillFromGamma gammaObserved selected).fields field = row.fields field ∧
      ∀ other ∈ gammaObserved, other.observationOrder ≤ row.observationOrder) ∨
    gammaObserved = [] ∧ (fillFromGamma gammaObserved selected).fields field = .null := by
  unfold fillFromGamma
  split
  · next none => exact .inr ⟨List.argmax_eq_none.mp none, null⟩
  · next fallback found =>
    obtain ⟨member, newest⟩ := maxBy_spec found
    exact .inl ⟨fallback, member, if_neg (by rw [null]; decide), newest⟩

/-- With an observation of the order book, every field and the delay are the newest. -/
theorem selectObserved_newest {observed : List MetadataRow}
    (clob : observed.filter MetadataRow.isClob ≠ []) :
    ∃ selected, selectObserved observed = some selected ∧
      (∀ field, NewestValue (observed.filter MetadataRow.isClob)
        (observed.filter fun row => row.source = some "gamma") field (selected.fields field)) ∧
      NewestDelay (observed.filter MetadataRow.isClob) selected.takerOrderDelayMs := by
  obtain ⟨latest, found⟩ := exists_maxBy MetadataRow.observationOrder clob
  have member := (maxBy_spec found).1
  refine ⟨fillFromGamma (observed.filter fun row => row.source = some "gamma")
    (mergeClob (observed.filter MetadataRow.isClob) latest), ?_, fun field => ?_, ?_⟩
  · simp only [selectObserved, if_pos clob, found, Option.map_some]
  · rcases mergeClob_fields member field with ⟨row, own, present, same, newest⟩ | ⟨absent, null⟩
    · refine .inl ⟨row, own, present, ?_, newest⟩
      rw [fillFromGamma_of_present (by rw [same]; exact present), same]
    · exact .inr ⟨absent, fillFromGamma_of_null null⟩
  · rw [fillFromGamma_delay]
    exact mergeClob_delay latest clob

/-! ## The selections of all markets -/

section Markets

variable {library : MetadataLibrary} {candidates : List (String × MetadataRow)}
  {gammaRows : List (String × GammaRow)} {result final : List (String × MetadataRow)}
  {market : MarketOpen} {markets : List MarketOpen}

/-- A market's entry is its own selection; other entries stay. -/
theorem recordMetadata_lookup (recorded : recordMetadata library candidates gammaRows result market =
    .ok final) (fresh : result.lookup market.conditionId = none) :
    selectMetadata library (rowsOf market.conditionId candidates)
      (rowsOf market.conditionId gammaRows) market.marketStartUtcNs =
        .ok (final.lookup market.conditionId) ∧
    ∀ conditionId, conditionId ≠ market.conditionId →
      final.lookup conditionId = result.lookup conditionId := by
  obtain ⟨selection, selected, recorded⟩ := Except.bind_eq_ok.mp recorded
  cases selection with
  | none =>
    cases recorded
    refine ⟨?_, fun _ _ => rfl⟩
    rw [fresh]
    exact selected
  | some row =>
    cases recorded
    refine ⟨?_, fun conditionId apart => lookup_assign_of_ne apart⟩
    rw [lookup_assign_self]
    exact selected

theorem foldlM_recordMetadata (recorded : markets.foldlM (recordMetadata library candidates gammaRows)
    result = .ok final) (distinct : (markets.map MarketOpen.conditionId).Nodup)
    (fresh : ∀ market ∈ markets, result.lookup market.conditionId = none) :
    (∀ market ∈ markets, selectMetadata library (rowsOf market.conditionId candidates)
      (rowsOf market.conditionId gammaRows) market.marketStartUtcNs =
        .ok (final.lookup market.conditionId)) ∧
    ∀ conditionId ∉ markets.map MarketOpen.conditionId,
      final.lookup conditionId = result.lookup conditionId := by
  induction markets generalizing result with
  | nil =>
    cases recorded
    exact ⟨by simp, fun _ _ => rfl⟩
  | cons market rest ih =>
    obtain ⟨unique, distinctRest⟩ := List.nodup_cons.mp distinct
    rw [List.foldlM_cons] at recorded
    obtain ⟨next, step, later⟩ := Except.bind_eq_ok.mp recorded
    obtain ⟨own, others⟩ := recordMetadata_lookup step (fresh market List.mem_cons_self)
    have apart (other : MarketOpen) (member : other ∈ rest) :
        other.conditionId ≠ market.conditionId :=
      fun same => unique (same ▸ List.mem_map_of_mem member)
    obtain ⟨selected, kept⟩ := ih later distinctRest fun other member => by
      rw [others _ (apart other member)]
      exact fresh other (List.mem_cons_of_mem _ member)
    refine ⟨fun other member => ?_, fun conditionId foreign => ?_⟩
    · rcases List.mem_cons.mp member with rfl | inRest
      · rw [kept _ unique]
        exact own
      · exact selected other inRest
    · rw [List.map_cons, List.mem_cons, not_or] at foreign
      rw [kept _ foreign.2, others _ foreign.1]

/-- What is returned holds for each market the selection from its own rows. -/
theorem executionMetadata_lookup {rows : List (String × MetadataRow)}
    (returned : executionMetadata library rows gammaRows markets = .ok final)
    (distinct : (markets.map MarketOpen.conditionId).Nodup) :
    ∃ candidates, (rows.mapM fun row => do return (row.1, ← row.2.normalized library)) =
      Except.ok candidates ∧
    ∀ market ∈ markets, selectMetadata library (rowsOf market.conditionId candidates)
      (rowsOf market.conditionId gammaRows) market.marketStartUtcNs =
        .ok (final.lookup market.conditionId) := by
  obtain ⟨candidates, read, recorded⟩ := Except.bind_eq_ok.mp returned
  exact ⟨candidates, read, (foldlM_recordMetadata recorded distinct fun _ _ => rfl).1⟩

end Markets

/-- Where an observation of the order book was received by the open, every field and the delay are the
newest received by then; the selection is a function of what was observed by then; and what is
returned for a market is its selection. -/
theorem executionMetadata_newest_by_open (library : MetadataLibrary) :
    (∀ (candidates : List MetadataRow) (gammaHistory : List GammaRow) (start : ℤ),
      (∃ row ∈ candidates, row.isClob ∧ row.receivedUtcNs ≤ start) →
      ∃ selected, selectMetadata library candidates gammaHistory start = .ok (some selected) ∧
        (∀ field, NewestValue
          ((candidates.filter fun row => row.receivedUtcNs ≤ start).filter MetadataRow.isClob)
          ((candidates.filter fun row => row.receivedUtcNs ≤ start).filter fun row =>
            row.source = some "gamma") field (selected.fields field)) ∧
        NewestDelay
          ((candidates.filter fun row => row.receivedUtcNs ≤ start).filter MetadataRow.isClob)
          selected.takerOrderDelayMs) ∧
    (∀ (candidates others : List MetadataRow) (gammaHistory otherHistory : List GammaRow) (start : ℤ),
      candidates.filter (fun row => row.receivedUtcNs ≤ start) =
        others.filter (fun row => row.receivedUtcNs ≤ start) →
      gammaHistory.filter (fun row => row.discoveredUtcNs ≤ start) =
        otherHistory.filter (fun row => row.discoveredUtcNs ≤ start) →
      selectMetadata library candidates gammaHistory start =
        selectMetadata library others otherHistory start) ∧
    ∀ (rows : List (String × MetadataRow)) (gammaRows : List (String × GammaRow))
      (markets : List MarketOpen) (final : List (String × MetadataRow)),
      executionMetadata library rows gammaRows markets = .ok final →
      (markets.map MarketOpen.conditionId).Nodup →
      ∃ candidates, (rows.mapM fun row => do return (row.1, ← row.2.normalized library)) =
        Except.ok candidates ∧
      ∀ market ∈ markets, selectMetadata library (rowsOf market.conditionId candidates)
        (rowsOf market.conditionId gammaRows) market.marketStartUtcNs =
          .ok (final.lookup market.conditionId) := by
  refine ⟨?_, ?_, fun _ _ _ _ returned distinct => executionMetadata_lookup returned distinct⟩
  · rintro candidates gammaHistory start ⟨row, member, clob, received⟩
    have observed : row ∈ candidates.filter fun row => row.receivedUtcNs ≤ start :=
      List.mem_filter.mpr ⟨member, decide_eq_true received⟩
    have own : (candidates.filter fun row => row.receivedUtcNs ≤ start).filter
        MetadataRow.isClob ≠ [] := List.ne_nil_of_mem (List.mem_filter.mpr ⟨observed, clob⟩)
    obtain ⟨selected, found, newest⟩ := selectObserved_newest own
    refine ⟨selected, ?_, newest⟩
    simp only [selectMetadata, if_pos (List.ne_nil_of_mem observed), found]
  · intro candidates others gammaHistory otherHistory start rows versions
    simp only [selectMetadata, rows, versions]

/-- An observation at a time, with a fee rate. -/
def feeRow (source : String) (receivedUtcNs : ℤ) (delay : Option ℤ) (feeRate : JsonValue) :
    MetadataRow where
  receivedUtcNs := receivedUtcNs
  sequence := some 1
  source := some source
  metadataJson := none
  takerOrderDelayMs := delay
  fields
    | .feeRate => feeRate
    | _ => .null

/-- The fee curve of one endpoint, the unknown delay of the other after it, and a later fee. -/
def feeHistory : List MetadataRow :=
  [feeRow "gamma" 5 (some 250) (.text "0.1"), feeRow "clob_rest_market_info" 10 (some 0) (.text "0.07"),
    feeRow "clob_rest_market" 20 none .null, feeRow "clob_rest_market_info" 31 none (.text "0.2")]

/-- A reader of the empty object. -/
def emptyPayloads : MetadataLibrary where
  loads text := .error ⟨.valueError, text⟩
  render _ := ""
  repr _ := ""
  decimal _ := none
  looksNumeric _ := false
  isoparse text := .error ⟨.valueError, text⟩
  upper := id
  uuid5 := id
  jsonLoads text := .ok (if text = "{}" then some (.object []) else none)
  toInt _ := .error ⟨.valueError, "invalid literal for int()"⟩
  stripLower := id

/-- The fee that was observed after the open has no part in the selection, and the detail without a
fee does not erase the one observed before. -/
theorem executionMetadata_newest_by_open_fees :
    (∃ selected, selectMetadata emptyPayloads feeHistory [] 30 = .ok (some selected) ∧
      NewestValue
        [feeRow "clob_rest_market_info" 10 (some 0) (.text "0.07"), feeRow "clob_rest_market" 20 none .null]
        [feeRow "gamma" 5 (some 250) (.text "0.1")] .feeRate (selected.fields .feeRate) ∧
      NewestDelay
        [feeRow "clob_rest_market_info" 10 (some 0) (.text "0.07"), feeRow "clob_rest_market" 20 none .null]
        selected.takerOrderDelayMs) ∧
    selectMetadata emptyPayloads feeHistory [] 30 =
      selectMetadata emptyPayloads (feeHistory.take 3) [] 30 ∧
    ∃ final candidates, executionMetadata emptyPayloads
        (feeHistory.map fun row => ("condition", row)) [] [⟨"condition", 30⟩] = .ok final ∧
      selectMetadata emptyPayloads (rowsOf "condition" candidates) [] 30 =
        .ok (final.lookup "condition") := by
  have newest := executionMetadata_newest_by_open emptyPayloads
  refine ⟨?_, newest.2.1 _ _ [] [] 30 rfl rfl, ?_⟩
  · obtain ⟨selected, found, fields, delay⟩ := newest.1 feeHistory [] 30
      ⟨feeRow "clob_rest_market_info" 10 (some 0) (.text "0.07"), by simp [feeHistory], by decide, by decide⟩
    exact ⟨selected, found, fields .feeRate, delay⟩
  · obtain ⟨final, returned⟩ : ∃ final, executionMetadata emptyPayloads
        (feeHistory.map fun row => ("condition", row)) [] [⟨"condition", 30⟩] = .ok final := ⟨_, rfl⟩
    obtain ⟨candidates, -, selected⟩ := newest.2.2 _ _ _ _ returned (by decide)
    exact ⟨final, candidates, returned, selected _ List.mem_cons_self⟩

end PolymarketBt
