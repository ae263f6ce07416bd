import Mathlib.Data.List.ReduceOption
import PolymarketBt.Machine.Loop
import PolymarketBt.Model.Reconciliation
import PolymarketBt.ToMathlib.ClassMatching

/-! # One result for each trade, and how many of them are exact

A pass over the trades gives each one result and takes each row at most once. An exact match needs
the same market, token, transaction, price and size, so trades with a common exact row have the same
exact rows, and the pass finds as many exact matches as there can be unless it spends a row of one
trade on a weaker match of an earlier one.
-/

namespace PolymarketBt

namespace ReconciliationLibrary

open JsonValue StableSort ClassMatching

variable {library : ReconciliationLibrary} {trade other : TradeEvent} {row otherRow : Members}
  {rows : List Members} {usedApi : Finset ℕ}

/-! ## One trade and one row -/

/-- The row tells of the trade: its market, token, transaction, price and size are the trade's. -/
structure ExactMatch (library : ReconciliationLibrary) (trade : TradeEvent) (row : Members) :
    Prop where
  concerns : library.Concerns trade row
  transaction : ∃ hash, library.transactionHash row = some hash ∧ trade.transactionHash = some hash
  price : ∃ price, (library.rawDecimal (get row "price") "price").1 = some price ∧
    scaledToDecimal trade.priceScaled polymarketPriceScale = .ok price
  size : ∃ size, (library.rawDecimal (get row "size") "size").1 = some size ∧
    ∃ sizeScaled, trade.sizeScaled = some sizeScaled ∧
      scaledToDecimal sizeScaled shareSizeScale = .ok size

/-- Two trades with a common exact row have the same exact rows. -/
theorem ExactMatch.trans (first : library.ExactMatch trade row)
    (second : library.ExactMatch other row) (third : library.ExactMatch other otherRow) :
    library.ExactMatch trade otherRow := by
  obtain ⟨hash, rowHash, tradeHash⟩ := first.transaction
  obtain ⟨_, sameHash, otherHash⟩ := second.transaction
  obtain ⟨_, lastHash, keptHash⟩ := third.transaction
  obtain ⟨price, rowPrice, tradePrice⟩ := first.price
  obtain ⟨_, samePrice, otherPrice⟩ := second.price
  obtain ⟨_, lastPrice, keptPrice⟩ := third.price
  obtain ⟨size, rowSize, tradeScaled, tradeSized, tradeSize⟩ := first.size
  obtain ⟨_, sameSize, _, otherSized, otherSize⟩ := second.size
  obtain ⟨_, lastSize, _, keptSized, keptSize⟩ := third.size
  obtain rfl := Option.some.inj (rowHash.symm.trans sameHash)
  obtain rfl := Option.some.inj (otherHash.symm.trans keptHash)
  obtain rfl := Option.some.inj (rowPrice.symm.trans samePrice)
  obtain rfl := Except.ok.inj (otherPrice.symm.trans keptPrice)
  obtain rfl := Option.some.inj (rowSize.symm.trans sameSize)
  obtain rfl := Option.some.inj (otherSized.symm.trans keptSized)
  obtain rfl := Except.ok.inj (otherSize.symm.trans keptSize)
  exact {
    concerns := ⟨third.concerns.1.trans (second.concerns.1.symm.trans first.concerns.1),
      third.concerns.2.trans (second.concerns.2.symm.trans first.concerns.2)⟩
    transaction := ⟨_, lastHash, tradeHash⟩
    price := ⟨_, lastPrice, tradePrice⟩
    size := ⟨_, lastSize, tradeScaled, tradeSized, tradeSize⟩ }

/-- The three flags of an exact match are the exact match of a row of the trade's token. -/
theorem compare_exact_iff {comparison : Comparison}
    (ran : library.compare trade row = .ok comparison) (concerns : library.Concerns trade row) :
    (comparison.transactionMatch && comparison.priceMatch && comparison.sizeMatch) = true ↔
      library.ExactMatch trade row := by
  unfold compare at ran
  rcases read : library.rawDecimal (get row "price") "price" with ⟨price, priceError⟩
  rcases sized : library.rawDecimal (get row "size") "size" with ⟨size, sizeError⟩
  rw [read, sized] at ran
  obtain ⟨⟨timestamp, timestampError⟩, _, ran⟩ := Except.bind_eq_ok.mp ran
  obtain ⟨expectedPrice, priced, ran⟩ := Except.bind_eq_ok.mp ran
  obtain ⟨expectedSize, expected, ran⟩ := Except.bind_eq_ok.mp ran
  obtain rfl := Except.pure_eq_ok.mp ran
  simp only [Bool.and_eq_true, decide_eq_true_eq, Option.isSome_iff_exists]
  constructor
  · rintro ⟨⟨⟨⟨hash, rowHash⟩, tradeHash⟩, samePrice⟩, ⟨amount, isSized⟩, sameSize⟩
    refine ⟨concerns, ⟨hash, rowHash, tradeHash ▸ rowHash⟩,
      ⟨expectedPrice, by rw [read]; exact samePrice, priced⟩, ⟨amount, by rw [sized]; exact isSized, ?_⟩⟩
    cases stated : trade.sizeScaled with
    | none =>
      rw [stated] at expected
      obtain rfl := Except.pure_eq_ok.mp expected
      rw [sameSize] at isSized
      cases isSized
    | some sizeScaled =>
      refine ⟨sizeScaled, rfl, ?_⟩
      rw [stated, Option.mapM_some] at expected
      obtain ⟨value, scaled, rfl⟩ := Except.map_eq_ok.mp expected
      rw [scaled]
      exact congrArg _ (Option.some.inj (sameSize.symm.trans isSized))
  · intro exactly
    obtain ⟨hash, rowHash, tradeHash⟩ := exactly.transaction
    obtain ⟨paid, rowPrice, tradePrice⟩ := exactly.price
    obtain ⟨amount, rowSize, sizeScaled, stated, tradeSize⟩ := exactly.size
    rw [read] at rowPrice
    rw [sized] at rowSize
    obtain rfl := Except.ok.inj (priced.symm.trans tradePrice)
    rw [stated, Option.mapM_some, tradeSize] at expected
    obtain rfl := Except.ok.inj expected
    exact ⟨⟨⟨⟨hash, rowHash⟩, rowHash.trans tradeHash.symm⟩, rowPrice⟩, ⟨amount, rowSize⟩, rowSize⟩

/-- A match is exact or weaker, and the exact ones have the highest priorities. -/
structure Candidate.Fits (library : ReconciliationLibrary) (trade : TradeEvent) (index : ℕ)
    (row : Members) (candidate : Candidate) : Prop where
  place : candidate.apiIndex = index
  stated : library.candidate trade index row = .ok (some candidate)
  isMatch : candidate.status ≠ .websocketOnly ∧ candidate.status ≠ .apiOnly
  isExact : candidate.status = .exactMatch ↔ library.ExactMatch trade row
  priority : candidate.status = .exactMatch ↔ 300 ≤ candidate.priority

theorem matchedFields_length_le (comparison : Comparison) :
    comparison.matchedFields.length ≤ 6 := by
  unfold Comparison.matchedFields
  split_ifs <;> simp

theorem candidate_fits {index : ℕ} {found : Option Candidate}
    (ran : library.candidate trade index row = .ok found) (concerns : library.Concerns trade row) :
    (∀ candidate, found = some candidate → Candidate.Fits library trade index row candidate) ∧
      (library.ExactMatch trade row → ∃ candidate, found = some candidate) := by
  have ran' := ran
  unfold candidate at ran
  obtain ⟨comparison, compared, ran⟩ := Except.bind_eq_ok.mp ran
  have exactly := compare_exact_iff compared concerns
  have few := matchedFields_length_le comparison
  unfold Comparison.verdict at ran
  by_cases isExact : (comparison.transactionMatch && comparison.priceMatch &&
    comparison.sizeMatch) = true
  · rw [if_pos isExact] at ran
    obtain rfl := Except.pure_eq_ok.mp ran
    refine ⟨?_, fun _ => ⟨_, rfl⟩⟩
    rintro candidate ⟨⟩
    exact ⟨rfl, ran', by simp, iff_of_true rfl (exactly.mp isExact), iff_of_true rfl (by simp)⟩
  rw [if_neg isExact] at ran
  have weaker : ¬ library.ExactMatch trade row := fun holds => isExact (exactly.mpr holds)
  refine ⟨?_, fun holds => absurd holds weaker⟩
  rintro candidate rfl
  by_cases probable : (comparison.timestampMatch && comparison.priceMatch &&
    comparison.sizeMatch) = true
  · rw [if_pos probable] at ran
    cases ran
    exact ⟨rfl, ran', by simp, iff_of_false (by simp) weaker, iff_of_false (by simp) (by simp; omega)⟩
  rw [if_neg probable] at ran
  split at ran
  · next unmatched =>
    split at unmatched
    · cases unmatched
    · cases ran
  · next status priority conflicting =>
    split at conflicting
    · cases conflicting
      cases ran
      exact ⟨rfl, ran', by simp, iff_of_false (by simp) weaker,
        iff_of_false (by simp) (by simp; omega)⟩
    · cases conflicting

/-! ## One trade -/

theorem candidates_of_mem {found : List Candidate}
    (ran : library.candidates rows usedApi trade = .ok found) {candidate : Candidate}
    (member : candidate ∈ found) :
    ∃ row, rows[candidate.apiIndex]? = some row ∧ candidate.apiIndex ∉ usedApi ∧
      library.Concerns trade row ∧
      Candidate.Fits library trade candidate.apiIndex row candidate := by
  unfold candidates at ran
  obtain ⟨all, read, ran⟩ := Except.bind_eq_ok.mp ran
  obtain rfl := Except.pure_eq_ok.mp ran
  rw [List.reduceOption_mem_iff] at member
  obtain ⟨⟨row, index⟩, listed, stated⟩ := (Except.mapM_eq_ok.mp read).left_of_mem member
  simp only [List.mem_filter, decide_eq_true_eq] at listed
  obtain ⟨place, free, concerns⟩ := listed
  have fits := (candidate_fits stated concerns).1 candidate rfl
  obtain rfl := fits.place
  exact ⟨row, List.mem_zipIdx_iff_getElem?.mp place, free, concerns, fits⟩

theorem exists_candidate {found : List Candidate}
    (ran : library.candidates rows usedApi trade = .ok found) {index : ℕ}
    (place : rows[index]? = some row) (free : index ∉ usedApi)
    (exactly : library.ExactMatch trade row) :
    ∃ candidate ∈ found, candidate.status = .exactMatch := by
  unfold candidates at ran
  obtain ⟨all, read, ran⟩ := Except.bind_eq_ok.mp ran
  obtain rfl := Except.pure_eq_ok.mp ran
  have listed : (row, index) ∈ rows.zipIdx.filter fun entry =>
      entry.2 ∉ usedApi ∧ library.Concerns trade entry.1 := by
    simp only [List.mem_filter, decide_eq_true_eq]
    exact ⟨List.mem_zipIdx_iff_getElem?.mpr place, free, exactly.concerns⟩
  obtain ⟨result, member, stated⟩ := (Except.mapM_eq_ok.mp read).right_of_mem listed
  obtain ⟨fits, isMatch⟩ := candidate_fits stated exactly.concerns
  obtain ⟨candidate, rfl⟩ := isMatch exactly
  exact ⟨candidate, List.reduceOption_mem_iff.mpr member,
    (fits candidate rfl).isExact.mpr exactly⟩

theorem selected_eq_none_iff {found : List Candidate} : selected found = none ↔ found = [] := by
  unfold selected
  rw [List.head?_eq_none_iff]
  constructor
  · intro empty
    have := (sortByKey_perm Candidate.rank found).length_eq
    rw [empty] at this
    exact List.eq_nil_of_length_eq_zero this.symm
  · rintro rfl
    rfl

/-- The selected candidate has the highest priority. -/
theorem selected_best {found : List Candidate} {candidate : Candidate}
    (best : selected found = some candidate) :
    candidate ∈ found ∧ ∀ item ∈ found, item.priority ≤ candidate.priority := by
  unfold selected at best
  obtain ⟨rest, sorted⟩ := List.head?_eq_some_iff.mp best
  have perm := sortByKey_perm Candidate.rank found
  have inOrder := sortByKey_inOrder Candidate.rank found
  rw [sorted] at perm inOrder
  refine ⟨perm.mem_iff.mp List.mem_cons_self, fun item listed => ?_⟩
  rcases List.mem_cons.mp (perm.mem_iff.mpr listed) with rfl | later
  · exact le_rfl
  · have below := List.rel_of_pairwise_cons inOrder later
    unfold Candidate.rank at below
    rw [Prod.Lex.toLex_le_toLex] at below
    omega

/-- What the result of a trade says, when these rows were taken before it. -/
structure Settles (library : ReconciliationLibrary) (rows : List Members) (taken : List ℕ)
    (trade : TradeEvent) (result : ReconciliationResult) : Prop where
  own : result.websocketTradeId = some trade.tradeEventId
  isTrade : result.status ≠ .apiOnly
  unmatched : result.apiIndex = none ↔ result.status = .websocketOnly
  takes : ∀ index, result.apiIndex = some index → index ∉ taken ∧
    ∃ row candidate, rows[index]? = some row ∧ library.Concerns trade row ∧
      library.candidate trade index row = .ok (some candidate) ∧ candidate.status = result.status ∧
      (result.status = .exactMatch ↔ library.ExactMatch trade row)
  prefers : result.status ≠ .exactMatch → ∀ index row, rows[index]? = some row →
    library.ExactMatch trade row → index ∈ taken

/-- A trade gets one result, and the row that the result names is taken from then on. -/
theorem reconcileTrade_settles {progress after : ReconciliationProgress} {taken : List ℕ}
    (used : ∀ index, index ∈ progress.usedApi ↔ index ∈ taken)
    (ran : library.reconcileTrade rows progress trade = .ok after) :
    ∃ result, after.results = progress.results ++ [result] ∧
      (∀ index, index ∈ after.usedApi ↔ index ∈ taken ∨ result.apiIndex = some index) ∧
      Settles library rows taken trade result := by
  unfold reconcileTrade at ran
  obtain ⟨found, listed, ran⟩ := Except.bind_eq_ok.mp ran
  cases best : selected found with
  | none =>
    rw [best] at ran
    obtain rfl := Except.pure_eq_ok.mp ran
    refine ⟨_, rfl, fun index => by simp [used], rfl, by simp, iff_of_true rfl rfl,
      fun index named => (nomatch named), fun _ index row place exactly => ?_⟩
    by_contra free
    obtain ⟨candidate, member, _⟩ :=
      exists_candidate listed place ((used index).not.mpr free) exactly
    rw [selected_eq_none_iff.mp best] at member
    cases member
  | some candidate =>
    rw [best] at ran
    obtain rfl := Except.pure_eq_ok.mp ran
    obtain ⟨member, highest⟩ := selected_best best
    obtain ⟨row, place, free, concerns, fits⟩ := candidates_of_mem listed member
    refine ⟨_, rfl, fun index => ?_, rfl, fits.isMatch.2, iff_of_false (by simp) fits.isMatch.1,
      ?_, fun weaker index row place exactly => ?_⟩
    · rw [Finset.mem_insert, used, or_comm, Option.some.injEq, eq_comm]
    · rintro index ⟨⟩
      exact ⟨(used _).not.mp free, row, candidate, place, concerns, fits.stated, rfl, fits.isExact⟩
    · by_contra free
      obtain ⟨better, among, isExact⟩ :=
        exists_candidate listed place ((used index).not.mpr free) exactly
      obtain ⟨_, _, _, _, fitsBetter⟩ := candidates_of_mem listed among
      have high := fitsBetter.priority.mp isExact
      exact weaker (fits.priority.mpr (high.trans (highest better among)))

/-! ## All trades -/

/-- The results of the trades so far, each settled after the rows that the earlier ones took. -/
structure Reconciled (library : ReconciliationLibrary) (rows : List Members)
    (past : List TradeEvent) (progress : ReconciliationProgress) : Prop where
  length : progress.results.length = past.length
  used : ∀ index, index ∈ progress.usedApi ↔
    index ∈ progress.results.filterMap ReconciliationResult.apiIndex
  settles : ∀ (place : ℕ) trade result, past[place]? = some trade →
    progress.results[place]? = some result →
    Settles library rows ((progress.results.take place).filterMap ReconciliationResult.apiIndex)
      trade result
  distinct : (progress.results.filterMap ReconciliationResult.apiIndex).Nodup

theorem Reconciled.start : Reconciled library rows [] ⟨∅, []⟩ where
  length := rfl
  used index := by simp
  settles place trade result listed := nomatch listed
  distinct := List.nodup_nil

theorem Reconciled.concat {past : List TradeEvent} {progress after : ReconciliationProgress}
    (reconciled : Reconciled library rows past progress)
    (ran : library.reconcileTrade rows progress trade = .ok after) :
    Reconciled library rows (past ++ [trade]) after := by
  obtain ⟨result, results, used, settled⟩ := reconcileTrade_settles reconciled.used ran
  refine ⟨?_, fun index => ?_, fun place other named listed stated => ?_, ?_⟩
  · rw [results, List.length_append, List.length_append, reconciled.length]
    rfl
  · rw [used, results, List.filterMap_append, List.mem_append]
    cases taken : result.apiIndex with
    | none => simp [taken]
    | some own => simp [taken, eq_comm]
  · rw [results] at stated ⊢
    rcases lt_trichotomy place past.length with before | rfl | beyond
    · rw [List.getElem?_append_left before] at listed
      rw [List.getElem?_append_left (by rw [reconciled.length]; exact before)] at stated
      rw [List.take_append_of_le_length (by rw [reconciled.length]; exact before.le)]
      exact reconciled.settles place other named listed stated
    · rw [List.getElem?_concat_length] at listed
      rw [← reconciled.length, List.getElem?_concat_length] at stated
      obtain rfl := Option.some.inj listed
      obtain rfl := Option.some.inj stated
      rw [← reconciled.length, List.take_left]
      exact settled
    · have none : (past ++ [trade])[place]? = none := by
        rw [List.getElem?_eq_none_iff, List.length_append]
        exact beyond
      rw [none] at listed
      cases listed
  · rw [results, List.filterMap_append, List.nodup_append]
    refine ⟨reconciled.distinct, ?_, ?_⟩
    · cases taken : result.apiIndex <;> simp [taken]
    · rintro index earlier own member rfl
      have named : result.apiIndex = some index := by simpa using member
      exact (settled.takes index named).1 earlier

theorem reconciled_of_foldlM {trades : List TradeEvent} {progress : ReconciliationProgress}
    (ran : trades.foldlM (library.reconcileTrade rows) ⟨∅, []⟩ = .ok progress) :
    Reconciled library rows trades progress :=
  Except.foldlM_history (Reconciled library rows) Reconciled.start
    (fun _ _ _ _ _ reconciled done => reconciled.concat done) ran

/-! ## The whole response -/

/-- One result for each trade in order, then the rows that no trade took, and every row once. -/
structure OneToOne (trades : List TradeEvent) (rows : List Members)
    (results : List ReconciliationResult) : Prop where
  each : List.Forall₂ (fun trade result => result.websocketTradeId = some trade.tradeEventId ∧
    result.status ≠ .apiOnly ∧ (result.apiIndex = none ↔ result.status = .websocketOnly))
    trades (results.take trades.length)
  rest : ∀ result ∈ results.drop trades.length,
    result.status = .apiOnly ∧ result.websocketTradeId = none
  once : (results.filterMap ReconciliationResult.apiIndex).Perm (List.range rows.length)

/-- A trade is matched exactly when one of its exact rows is still free at its turn, and then it
takes an exact row. -/
def PrefersExact (library : ReconciliationLibrary) (trades : List TradeEvent) (rows : List Members)
    (results : List ReconciliationResult) : Prop :=
  ∀ (place : ℕ) trade result, trades[place]? = some trade → results[place]? = some result →
    ((∃ index row, rows[index]? = some row ∧ library.ExactMatch trade row ∧
        index ∉ (results.take place).filterMap ReconciliationResult.apiIndex) →
      result.status = .exactMatch) ∧
    (result.status = .exactMatch → ∃ index row, result.apiIndex = some index ∧
      rows[index]? = some row ∧ library.ExactMatch trade row)

/-- The exact matches by places of trades and of rows. -/
def ExactAt (library : ReconciliationLibrary) (trades : List TradeEvent) (rows : List Members)
    (place index : ℕ) : Prop :=
  ∃ trade row, trades[place]? = some trade ∧ rows[index]? = some row ∧ library.ExactMatch trade row

def exactCount (results : List ReconciliationResult) : ℕ :=
  results.countP fun result => result.status = .exactMatch

/-- No assignment of rows to trades, each used once, matches more trades exactly. -/
def LargestExact (library : ReconciliationLibrary) (trades : List TradeEvent) (rows : List Members)
    (results : List ReconciliationResult) : Prop :=
  IsGreatest (sizes (library.ExactAt trades rows)) (exactCount results)

/-- The rows of a trade that is not matched exactly are all in exact matches of others. -/
def ExactRowsKept (library : ReconciliationLibrary) (trades : List TradeEvent) (rows : List Members)
    (results : List ReconciliationResult) : Prop :=
  ∀ (place : ℕ) trade result index row, trades[place]? = some trade →
    results[place]? = some result → result.status ≠ .exactMatch → rows[index]? = some row →
    library.ExactMatch trade row →
    ∃ keeper ∈ results, keeper.apiIndex = some index ∧ keeper.status = .exactMatch

/-- No row that matches one trade exactly is a weaker candidate of another. -/
def Uncontested (library : ReconciliationLibrary) (trades : List TradeEvent) (rows : List Members) :
    Prop :=
  ∀ trade ∈ trades, ∀ other ∈ trades, ∀ row ∈ rows, library.ExactMatch trade row →
    library.Concerns other row → ∀ index candidate,
    library.candidate other index row = .ok (some candidate) → candidate.status = .exactMatch

/-- Every trade can be compared with the rows of its market and token. -/
def Comparable (library : ReconciliationLibrary) (trades : List TradeEvent) (rows : List Members) :
    Prop :=
  ∀ trade ∈ trades, ∀ row ∈ rows, library.Concerns trade row → (library.compare trade row).Returns

theorem reconcileTrade_returns
    (comparable : ∀ row ∈ rows, library.Concerns trade row → (library.compare trade row).Returns)
    (progress : ReconciliationProgress) :
    (library.reconcileTrade rows progress trade).Returns := by
  unfold reconcileTrade candidates
  rw [Except.bind_returns]
  have each : ((rows.zipIdx.filter fun entry =>
      entry.2 ∉ progress.usedApi ∧ library.Concerns trade entry.1).mapM
        fun entry => library.candidate trade entry.2 entry.1).Returns := by
    rw [Except.mapM_returns_iff]
    intro entry listed
    simp only [List.mem_filter, decide_eq_true_eq] at listed
    obtain ⟨member, _, concerns⟩ := listed
    obtain ⟨comparison, compared⟩ := comparable entry.1 (List.fst_mem_of_mem_zipIdx member) concerns
    unfold candidate
    rw [compared, Except.ok_bind]
    split <;> exact Except.returns_pure _
  obtain ⟨found, read⟩ := each
  refine ⟨found.reduceOption, ?_, ?_⟩
  · rw [read]
    rfl
  · split <;> exact Except.returns_pure _

variable {trades : List TradeEvent} {progress : ReconciliationProgress}
  {results : List ReconciliationResult}

theorem Reconciled.row_of_mem (reconciled : Reconciled library rows trades progress) {index : ℕ}
    (taken : index ∈ progress.results.filterMap ReconciliationResult.apiIndex) :
    index < rows.length := by
  obtain ⟨result, member, named⟩ := List.mem_filterMap.mp taken
  obtain ⟨place, stated⟩ := List.mem_iff_getElem?.mp member
  have short : place < trades.length := by
    rw [← reconciled.length]
    exact (List.getElem?_eq_some_iff.mp stated).1
  have settled := reconciled.settles place _ result (List.getElem?_eq_getElem short) stated
  obtain ⟨_, row, _, found, _⟩ := settled.takes index named
  exact (List.getElem?_eq_some_iff.mp found).1

theorem apiOnly_indices (rows : List Members) (usedApi : Finset ℕ) :
    (library.apiOnly rows usedApi).filterMap ReconciliationResult.apiIndex =
      (rows.zipIdx.filter fun entry => entry.2 ∉ usedApi).map Prod.snd := by
  unfold apiOnly
  rw [List.filterMap_map]
  exact congrFun List.filterMap_eq_map _

/-- Every row is in one result. -/
theorem Reconciled.once (reconciled : Reconciled library rows trades progress) :
    ((progress.results ++ library.apiOnly rows progress.usedApi).filterMap
      ReconciliationResult.apiIndex).Perm (List.range rows.length) := by
  rw [List.filterMap_append, apiOnly_indices]
  have free : ∀ index, index ∈ (rows.zipIdx.filter fun entry => entry.2 ∉ progress.usedApi).map
      Prod.snd ↔ index < rows.length ∧
        index ∉ progress.results.filterMap ReconciliationResult.apiIndex := by
    intro index
    rw [List.mem_map]
    constructor
    · rintro ⟨⟨row, own⟩, member, rfl⟩
      simp only [List.mem_filter, decide_eq_true_eq, List.mem_zipIdx_iff_getElem?] at member
      exact ⟨(List.getElem?_eq_some_iff.mp member.1).1, (reconciled.used _).not.mp member.2⟩
    · rintro ⟨inside, unused⟩
      refine ⟨(rows[index], index), ?_, rfl⟩
      simp only [List.mem_filter, decide_eq_true_eq, List.mem_zipIdx_iff_getElem?]
      exact ⟨List.getElem?_eq_getElem inside, (reconciled.used _).not.mpr unused⟩
  have nodup : ((rows.zipIdx.filter fun entry => entry.2 ∉ progress.usedApi).map Prod.snd).Nodup := by
    refine List.Nodup.sublist (List.filter_sublist.map _) ?_
    rw [List.zipIdx_map_snd]
    exact List.nodup_range'
  refine (List.perm_ext_iff_of_nodup ?_ List.nodup_range).mpr fun index => ?_
  · refine List.nodup_append.mpr ⟨reconciled.distinct, nodup, ?_⟩
    rintro index taken other member rfl
    exact ((free index).mp member).2 taken
  · rw [List.mem_append, free, List.mem_range]
    by_cases taken : index ∈ progress.results.filterMap ReconciliationResult.apiIndex
    · exact iff_of_true (.inl taken) (reconciled.row_of_mem taken)
    · simp only [taken, false_or, not_false_eq_true, and_true]

theorem Reconciled.oneToOne (reconciled : Reconciled library rows trades progress) :
    OneToOne trades rows (progress.results ++ library.apiOnly rows progress.usedApi) := by
  refine ⟨?_, ?_, reconciled.once⟩
  · rw [← reconciled.length, List.take_left]
    refine List.forall₂_of_length_eq_of_get reconciled.length.symm fun place inTrades inResults => ?_
    have settled := reconciled.settles place _ _ (List.getElem?_eq_getElem inTrades)
      (List.getElem?_eq_getElem inResults)
    exact ⟨settled.own, settled.isTrade, settled.unmatched⟩
  · rw [← reconciled.length, List.drop_left]
    intro result member
    obtain ⟨entry, _, rfl⟩ := List.mem_map.mp member
    exact ⟨rfl, rfl⟩

theorem Reconciled.settles_append (reconciled : Reconciled library rows trades progress)
    (later : List ReconciliationResult) {place : ℕ} {result : ReconciliationResult}
    (listed : trades[place]? = some trade)
    (stated : (progress.results ++ later)[place]? = some result) :
    Settles library rows
      (((progress.results ++ later).take place).filterMap ReconciliationResult.apiIndex)
      trade result := by
  have short : place < progress.results.length := by
    rw [reconciled.length]
    exact (List.getElem?_eq_some_iff.mp listed).1
  rw [List.getElem?_append_left short] at stated
  rw [List.take_append_of_le_length short.le]
  exact reconciled.settles place trade result listed stated

theorem Reconciled.prefersExact (reconciled : Reconciled library rows trades progress)
    (later : List ReconciliationResult) :
    library.PrefersExact trades rows (progress.results ++ later) := by
  intro place trade result listed stated
  have settled := reconciled.settles_append later listed stated
  constructor
  · rintro ⟨index, row, found, exactly, free⟩
    by_contra weaker
    exact free (settled.prefers weaker index row found exactly)
  · intro isExact
    cases named : result.apiIndex with
    | none =>
      rw [settled.unmatched.mp named] at isExact
      cases isExact
    | some index =>
      obtain ⟨_, row, _, found, _, _, _, exactly⟩ := settled.takes index named
      exact ⟨index, row, rfl, found, exactly.mp isExact⟩

/-- Without contested rows, only exact matches take the rows that match some trade exactly. -/
theorem Reconciled.exactRowsKept (reconciled : Reconciled library rows trades progress)
    (uncontested : library.Uncontested trades rows) (later : List ReconciliationResult) :
    library.ExactRowsKept trades rows (progress.results ++ later) := by
  intro place trade result index row listed stated weaker found exactly
  have settled := reconciled.settles_append later listed stated
  have taken := settled.prefers weaker index row found exactly
  obtain ⟨keeper, earlier, named⟩ := List.mem_filterMap.mp taken
  have member := List.mem_of_mem_take earlier
  refine ⟨keeper, member, named, ?_⟩
  obtain ⟨before, kept⟩ := List.mem_iff_getElem?.mp earlier
  rw [List.getElem?_take] at kept
  split at kept
  · next inside =>
    have short : before < trades.length :=
      inside.trans (List.getElem?_eq_some_iff.mp listed).1
    have keeps := reconciled.settles_append later (List.getElem?_eq_getElem short) kept
    obtain ⟨_, same, candidate, again, concerns, compared, status, _⟩ := keeps.takes index named
    obtain rfl := Option.some.inj (found.symm.trans again)
    rw [← status]
    exact uncontested trade (List.mem_of_getElem? listed) _ (List.getElem_mem short) row
      (List.mem_of_getElem? found) exactly concerns index candidate compared
  · cases kept

/-! ## How many exact matches there can be -/

theorem exactAt_difunctional (library : ReconciliationLibrary) (trades : List TradeEvent)
    (rows : List Members) : Difunctional (library.ExactAt trades rows) := by
  rintro first second left right ⟨trade, row, listed, found, exactly⟩
    ⟨other, sameRow, named, again, shared⟩ ⟨sameOther, otherRow, same, last, final⟩
  obtain rfl := Option.some.inj (found.symm.trans again)
  obtain rfl := Option.some.inj (named.symm.trans same)
  exact ⟨trade, otherRow, listed, last, exactly.trans shared final⟩

/-- The exact matches of the results, by places of trades and of rows. -/
def exactPairs (results : List ReconciliationResult) : List (ℕ × ℕ) :=
  results.zipIdx.filterMap fun entry =>
    if entry.1.status = .exactMatch then entry.1.apiIndex.map (entry.2, ·) else none

theorem mem_exactPairs {pair : ℕ × ℕ} :
    pair ∈ exactPairs results ↔ ∃ result, results[pair.1]? = some result ∧
      result.status = .exactMatch ∧ result.apiIndex = some pair.2 := by
  unfold exactPairs
  rw [List.mem_filterMap]
  constructor
  · rintro ⟨⟨result, place⟩, member, chosen⟩
    rw [Option.ite_none_right_eq_some, Option.map_eq_some_iff] at chosen
    obtain ⟨isExact, index, named, rfl⟩ := chosen
    exact ⟨result, List.mem_zipIdx_iff_getElem?.mp member, isExact, named⟩
  · rintro ⟨result, stated, isExact, named⟩
    refine ⟨(result, pair.1), List.mem_zipIdx_iff_getElem?.mpr stated, ?_⟩
    rw [if_pos isExact, named]
    rfl

theorem exactPairs_length (indexed : ∀ result ∈ results, result.status = .exactMatch →
      result.apiIndex.isSome) : (exactPairs results).length = exactCount results := by
  unfold exactPairs exactCount
  rw [List.length_filterMap_eq_countP]
  conv_rhs => rw [← List.zipIdx_map_fst 0 results, List.countP_map]
  refine List.countP_congr fun entry member => ?_
  have inResults := List.fst_mem_of_mem_zipIdx member
  by_cases isExact : entry.1.status = .exactMatch
  · simp [isExact, indexed entry.1 inResults isExact]
  · simp [isExact]

theorem exactPairs_left (results : List ReconciliationResult) :
    ((exactPairs results).map Prod.fst).Nodup := by
  have distinct : (results.zipIdx.map Prod.snd).Nodup := by
    rw [List.zipIdx_map_snd]
    exact List.nodup_range'
  unfold exactPairs
  refine List.pairwise_map.mpr (List.pairwise_filterMap.mpr ?_)
  refine (List.pairwise_map.mp distinct).imp ?_
  intro first second apart left chosen right other
  rw [Option.ite_none_right_eq_some, Option.map_eq_some_iff] at chosen other
  obtain ⟨_, _, _, rfl⟩ := chosen
  obtain ⟨_, _, _, rfl⟩ := other
  exact apart

theorem exactPairs_right
    (distinct : (results.filterMap ReconciliationResult.apiIndex).Nodup) :
    ((exactPairs results).map Prod.snd).Nodup := by
  rw [← List.zipIdx_map_fst 0 results, List.filterMap_map] at distinct
  unfold exactPairs
  refine List.pairwise_map.mpr (List.pairwise_filterMap.mpr ?_)
  refine (List.pairwise_filterMap.mp distinct).imp ?_
  intro first second apart left chosen right other
  rw [Option.ite_none_right_eq_some, Option.map_eq_some_iff] at chosen other
  obtain ⟨_, firstIndex, named, rfl⟩ := chosen
  obtain ⟨_, secondIndex, stated, rfl⟩ := other
  exact apart firstIndex named secondIndex stated

/-- The exact matches are as many as they can be exactly when their rows are kept for them. -/
theorem largestExact_iff (oneToOne : OneToOne trades rows results)
    (prefersExact : library.PrefersExact trades rows results) :
    library.LargestExact trades rows results ↔ library.ExactRowsKept trades rows results := by
  have inTrades : ∀ place result, results[place]? = some result → result.status = .exactMatch →
      place < trades.length := by
    intro place result stated isExact
    by_contra beyond
    have member : result ∈ results.drop trades.length := by
      refine List.mem_of_getElem? (i := place - trades.length) ?_
      rw [List.getElem?_drop, Nat.add_sub_cancel' (not_lt.mp beyond)]
      exact stated
    rw [(oneToOne.rest result member).1] at isExact
    cases isExact
  have own : ∀ place result, results[place]? = some result → result.status = .exactMatch →
      ∃ index, result.apiIndex = some index ∧ library.ExactAt trades rows place index := by
    intro place result stated isExact
    have listed := List.getElem?_eq_getElem (inTrades place result stated isExact)
    obtain ⟨index, row, named, found, exactly⟩ :=
      (prefersExact place _ result listed stated).2 isExact
    exact ⟨index, named, _, row, listed, found, exactly⟩
  have matching : IsMatching (library.ExactAt trades rows) (exactPairs results) := by
    refine ⟨fun pair member => ?_, exactPairs_left results,
      exactPairs_right (oneToOne.once.nodup_iff.mpr List.nodup_range)⟩
    obtain ⟨result, stated, isExact, named⟩ := mem_exactPairs.mp member
    obtain ⟨index, same, exactly⟩ := own pair.1 result stated isExact
    obtain rfl := Option.some.inj (named.symm.trans same)
    exact exactly
  have counted : (exactPairs results).length = exactCount results := by
    refine exactPairs_length fun result member isExact => ?_
    obtain ⟨place, stated⟩ := List.mem_iff_getElem?.mp member
    obtain ⟨index, named, _⟩ := own place result stated isExact
    rw [named]
    rfl
  unfold LargestExact
  rw [← counted, matching.isGreatest_iff (exactAt_difunctional library trades rows)]
  have covered : trades.length ≤ results.length := by
    have := oneToOne.each.length_eq
    rw [List.length_take] at this
    omega
  constructor
  · intro saturated place trade result index row listed stated weaker found exactly
    rcases saturated place index ⟨trade, row, listed, found, exactly⟩ with left | right
    · obtain ⟨pair, member, rfl⟩ := List.mem_map.mp left
      obtain ⟨same, again, isExact, _⟩ := mem_exactPairs.mp member
      obtain rfl := Option.some.inj (stated.symm.trans again)
      exact absurd isExact weaker
    · obtain ⟨pair, member, rfl⟩ := List.mem_map.mp right
      obtain ⟨keeper, stated, isExact, named⟩ := mem_exactPairs.mp member
      exact ⟨keeper, List.mem_of_getElem? stated, named, isExact⟩
  · rintro kept place index ⟨trade, row, listed, found, exactly⟩
    have short : place < results.length :=
      (List.getElem?_eq_some_iff.mp listed).1.trans_le covered
    have stated := List.getElem?_eq_getElem short
    by_cases isExact : results[place].status = .exactMatch
    · obtain ⟨taken, named, _⟩ := own place _ stated isExact
      exact .inl (List.mem_map.mpr ⟨(place, taken), mem_exactPairs.mpr ⟨_, stated, isExact, named⟩, rfl⟩)
    · obtain ⟨keeper, member, named, keeps⟩ :=
        kept place trade _ index row listed stated isExact found exactly
      obtain ⟨other, again⟩ := List.mem_iff_getElem?.mp member
      exact .inr (List.mem_map.mpr ⟨(other, index), mem_exactPairs.mpr ⟨keeper, again, keeps, named⟩, rfl⟩)

theorem sizes_exactAt_perm {order : List TradeEvent} (perm : order.Perm trades) :
    sizes (library.ExactAt order rows) = sizes (library.ExactAt trades rows) := by
  have within : ∀ {first second : List TradeEvent}, first.Perm second →
      sizes (library.ExactAt first rows) ⊆ sizes (library.ExactAt second rows) := by
    intro first second reordered
    obtain ⟨rename, injective, keeps⟩ := exists_rename_of_perm reordered
    refine sizes_subset_of_injective injective ?_
    rintro place index ⟨trade, row, listed, found, exactly⟩
    exact ⟨trade, row, keeps place trade listed, found, exactly⟩
  exact Set.Subset.antisymm (within perm) (within perm.symm)

/-- What one pass over the trades reports. -/
theorem reconcileTrades_reports {raw : String} {payload : List JsonValue}
    (listed : library.loads raw = .ok (.array payload))
    (comparable : library.Comparable trades (apiRows payload)) :
    ∃ results, library.reconcileTrades trades raw = .ok results ∧
      OneToOne trades (apiRows payload) results ∧
      library.PrefersExact trades (apiRows payload) results ∧
      (library.LargestExact trades (apiRows payload) results ↔
        library.ExactRowsKept trades (apiRows payload) results) ∧
      (library.Uncontested trades (apiRows payload) →
        library.LargestExact trades (apiRows payload) results) := by
  obtain ⟨progress, ran⟩ : (trades.foldlM (library.reconcileTrade (apiRows payload)) ⟨∅, []⟩).Returns :=
    Except.foldlM_returns fun progress trade member =>
      reconcileTrade_returns (comparable trade member) progress
  have reconciled := reconciled_of_foldlM ran
  have oneToOne := reconciled.oneToOne
  have prefersExact := reconciled.prefersExact (library.apiOnly (apiRows payload) progress.usedApi)
  have largest := largestExact_iff oneToOne prefersExact
  refine ⟨_, ?_, oneToOne, prefersExact, largest, fun uncontested =>
    largest.mpr (reconciled.exactRowsKept uncontested _)⟩
  unfold reconcileTrades
  rw [listed, Except.ok_bind]
  dsimp only
  rw [ran]
  rfl

private def reported (tradeEventId transactionHash : String) : TradeEvent where
  tradeEventId := tradeEventId
  sequence := 1
  conditionId := "0x0f"
  tokenId := "17"
  outcome := "UP"
  exchangeTimestampNs := some 1785529838000000000
  receivedUtcNs := 1785529838100000000
  receivedMonotonicNs := 100
  priceScaled := 500000
  sizeScaled := some 5000000
  notionalScaled := some 2500000
  reportedSide := some "BUY"
  feeRateBpsScaled := none
  transactionHash := some transactionHash
  tradeIdWhenAvailable := none
  source := "clob_market_ws"
  rawEventReference := "sequence:1"

/-- The response has one row, of the second transaction. -/
def oneRow : List JsonValue :=
  [.object [("conditionId", .text "0x0f"), ("asset", .text "17"), ("price", .decimal (1 / 2)),
    ("size", .int 5), ("timestamp", .int 1785529838), ("transactionHash", .text "0xb")]]

def oneRowText : String :=
  "[\x7b\"conditionId\":\"0x0f\",\"asset\":\"17\",\"price\":0.5,\"size\":5," ++
    "\"timestamp\":1785529838,\"transactionHash\":\"0xb\"\x7d]"

def oneRowLibrary : ReconciliationLibrary where
  loads := fun raw =>
    if raw = oneRowText then .ok (.array oneRow) else .error ⟨.valueError, "Expecting value"⟩
  render := fun
    | .int value => toString value
    | .decimal _ => "0.5"
    | _ => ""
  repr := fun _ => "1785529838"
  decimal := fun
    | "5" => some (.finite 5)
    | "1785529838" => some (.finite 1785529838)
    | _ => none
  looksNumeric := fun _ => false
  isoparse := fun _ => .error ⟨.valueError, "ISO string too short"⟩
  upper := fun text => text.map Char.toUpper
  uuid5 := fun _ => "d4b8f1e0-291c-5708-8f8b-1846235ffdc0"
  fixedPoint := fun _ => "0.5"

private theorem exactCount_of_statuses {results : List ReconciliationResult}
    {statuses : List MatchStatus} (stated : results.map ReconciliationResult.status = statuses) :
    exactCount results = statuses.countP fun status => status = .exactMatch := by
  rw [← stated, List.countP_map]
  rfl

theorem oneRow_exact : ∀ row ∈ apiRows oneRow, oneRowLibrary.ExactMatch (reported "b" "0xb") row := by
  intro row member
  obtain rfl := List.mem_singleton.mp member
  exact {
    concerns := ⟨rfl, rfl⟩
    transaction := ⟨"0xb", rfl, rfl⟩
    price := ⟨1 / 2, rfl, by
      have rounded : Decimal.round (500000 / 1000000) = some (1 / 2) := by decide +kernel
      change scaledToDecimal 500000 1000000 = _
      unfold scaledToDecimal
      simp [rounded]⟩
    size := ⟨5, rfl, 5000000, rfl, by
      have rounded : Decimal.round (5000000 / 1000000) = some 5 := by decide +kernel
      change scaledToDecimal 5000000 1000000 = _
      unfold scaledToDecimal
      simp [rounded]⟩ }

end ReconciliationLibrary

end PolymarketBt
