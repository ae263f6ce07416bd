import PolymarketBt.Model.Reconstructor

/-! # Invariants of books and of their reconstruction

Every level a book holds was validated when it was stated, so its price and its size are positive.
An event touches the book of its own token only. Both facts hold whether or not the event raises.
-/

namespace PolymarketBt

/-- Every level of the side satisfies a predicate of its price and its size. -/
def Levels.Every (holds : ℤ → ℤ → Prop) (side : Levels) : Prop :=
  ∀ price size : ℤ, side[price]? = some size → holds price size

/-- Every level of the side has a positive price and a positive size. -/
def Levels.Positive (side : Levels) : Prop := ∀ price size : ℤ, side[price]? = some size →
  0 < price ∧ 0 < size

namespace Levels

variable {holds : ℤ → ℤ → Prop}

theorem Every.empty : Every holds ∅ := by
  intro price size stored
  simp at stored

theorem Every.insert {side : Levels} (every : side.Every holds) {price size : ℤ}
    (stated : holds price size) : Every holds (Std.TreeMap.insert side price size) := by
  intro other stored found
  rw [Std.TreeMap.getElem?_insert] at found
  split at found
  · next same =>
    obtain rfl := Std.LawfulEqCmp.eq_of_compare same
    obtain rfl := Option.some.inj found
    exact stated
  · exact every other stored found

theorem Every.erase {side : Levels} (every : side.Every holds) (price : ℤ) :
    Every holds (Std.TreeMap.erase side price) := by
  intro other stored found
  rw [Std.TreeMap.getElem?_erase] at found
  split at found
  · cases found
  · exact every other stored found

theorem Every.filter {side : Levels} (every : side.Every holds) (keep : ℤ → ℤ → Bool) :
    Every holds (Std.TreeMap.filter keep side) := by
  intro price size found
  rw [← Std.TreeMap.mem_toList_iff_getElem?_eq_some, Std.TreeMap.toList_filter] at found
  exact every price size (Std.TreeMap.mem_toList_iff_getElem?_eq_some.mp (List.mem_of_mem_filter found))

theorem Every.of_mem {side : Levels} (every : side.Every holds) {level : ℤ × ℤ}
    (member : level ∈ side.toList) : holds level.1 level.2 :=
  every level.1 level.2 (Std.TreeMap.mem_toList_iff_getElem?_eq_some.mp member)

end Levels

/-- A level without issues lies inside the price range, has a size, and sits on the tick. -/
theorem validateLevel_eq_nil {priceScaled sizeScaled tickSizeScaled : ℤ}
    (clean : validateLevel priceScaled sizeScaled tickSizeScaled = []) :
    0 < priceScaled ∧ priceScaled < priceMaxScaled ∧ 0 ≤ sizeScaled := by
  simp only [validateLevel, List.append_eq_nil_iff, ite_eq_left_iff, List.cons_ne_nil,
    imp_false, not_not, ite_eq_right_iff, not_lt] at clean
  exact ⟨clean.1.1.1, clean.1.1.2, clean.1.2⟩

namespace OrderBook

/-- Both sides hold levels of one kind only. -/
structure Every (holds : ℤ → ℤ → Prop) (book : OrderBook) : Prop where
  bids : book.bids.Every holds
  asks : book.asks.Every holds

/-- Both sides hold positive levels only. -/
structure Positive (book : OrderBook) : Prop where
  bids : book.bids.Positive
  asks : book.asks.Positive

theorem positive_iff_every (book : OrderBook) :
    book.Positive ↔ book.Every fun price size => 0 < price ∧ 0 < size :=
  ⟨fun positive => ⟨positive.bids, positive.asks⟩, fun every => ⟨every.bids, every.asks⟩⟩

theorem Positive.of_mem_levels {book : OrderBook} (positive : book.Positive) {side : Side}
    {level : ℤ × ℤ} (member : level ∈ book.levels side) : 0 < level.1 ∧ 0 < level.2 := by
  cases side with
  | buy => exact Levels.Every.of_mem positive.bids (List.mem_reverse.mp member)
  | sell => exact Levels.Every.of_mem positive.asks member

/-- The levels that the checks of a book let pass satisfy the predicate. -/
def Stated (holds : ℤ → ℤ → Prop) : Prop :=
  ∀ price size tick : ℤ, validateLevel price size tick = [] → 0 < size → holds price size

theorem stated_positive : Stated fun price size => 0 < price ∧ 0 < size :=
  fun _ _ _ clean sized => ⟨(validateLevel_eq_nil clean).1, sized⟩

section Every

variable {holds : ℤ → ℤ → Prop} {book : OrderBook}

theorem Every.init (conditionId tokenId outcome : String) :
    (init conditionId tokenId outcome).Every holds :=
  ⟨Levels.Every.empty, Levels.Every.empty⟩

theorem Every.of_mem_levels (every : book.Every holds) {side : Side} {level : ℤ × ℤ}
    (member : level ∈ book.levels side) : holds level.1 level.2 := by
  cases side with
  | buy => exact every.bids.of_mem (List.mem_reverse.mp member)
  | sell => exact every.asks.of_mem member

/-- A side read without issues holds stated levels only. -/
theorem readSide_every (stated : Stated holds) {duplicate : String} {tickSizeScaled : ℤ}
    {listed : List BookLevel} (clean : (readSide duplicate tickSizeScaled listed).2 = []) :
    (readSide duplicate tickSizeScaled listed).1.Every holds := by
  suffices general : ∀ read : Levels × List ValidationIssue, (read.2 = [] → read.1.Every holds) →
      (listed.foldl (readLevel duplicate tickSizeScaled) read).2 = [] →
        (listed.foldl (readLevel duplicate tickSizeScaled) read).1.Every holds from
    general (∅, []) (fun _ => Levels.Every.empty) clean
  clear clean
  induction listed with
  | nil => exact fun read every clean => every clean
  | cons level rest ih =>
    intro read every
    refine ih (readLevel duplicate tickSizeScaled read level) ?_
    intro clean
    simp only [readLevel, List.append_eq_nil_iff] at clean ⊢
    split
    · next sized => exact (every clean.1.1).insert (stated _ _ _ clean.1.2 sized)
    · exact every clean.1.1

theorem replace_every (stated : Stated holds) (every : book.Every holds) (snapshot : BookSnapshot) :
    (book.replace snapshot).1.Every holds := by
  unfold replace
  split
  · exact every
  split
  · exact every
  split
  · next bids asks read =>
    simp only [readSnapshot, Prod.mk.injEq, List.append_eq_nil_iff] at read
    obtain ⟨rfl, rfl, clean⟩ := read
    exact ⟨readSide_every stated clean.1.1, readSide_every stated clean.1.2⟩
  · exact ⟨every.bids, every.asks⟩

theorem setLevel_every {side : Levels} (every : side.Every holds) {priceScaled sizeScaled : ℤ}
    (stated : sizeScaled ≠ 0 → holds priceScaled sizeScaled) :
    (setLevel side priceScaled sizeScaled).Every holds := by
  unfold setLevel
  split
  · exact every.erase priceScaled
  · next sized => exact every.insert (stated sized)

theorem pruneBids_every {bids : Levels} (every : bids.Every holds) (reported : Option ℤ) :
    (pruneBids bids reported).Every holds := by
  cases reported with
  | none => exact every
  | some reported =>
    simp only [pruneBids]
    split
    · exact Levels.Every.empty
    · exact every.filter _

theorem pruneAsks_every {asks : Levels} (every : asks.Every holds) (reported : Option ℤ) :
    (pruneAsks asks reported).Every holds := by
  cases reported with
  | none => exact every
  | some reported =>
    simp only [pruneAsks]
    split
    · exact Levels.Every.empty
    · exact every.filter _

theorem restate_every (every : book.Every holds) {change : BookLevelChange}
    (stated : change.newSizeScaled ≠ 0 → holds change.priceScaled change.newSizeScaled) :
    (book.restate change).Every holds := by
  unfold restate
  split
  · exact ⟨setLevel_every every.bids stated, every.asks⟩
  · exact ⟨every.bids, setLevel_every every.asks stated⟩

end Every

/-- Acceptance moves neither the levels nor the consumption, and decides the validity. -/
theorem acceptChange_cases (book : OrderBook) (change : BookLevelChange) :
    (∀ side, (book.acceptChange change).1.levels side = book.levels side) ∧
      (book.acceptChange change).1.consumed = book.consumed ∧
      (book.acceptChange change).1.bids = book.bids ∧
      (book.acceptChange change).1.asks = book.asks ∧
      ((∃ e, (book.acceptChange change).2 = .error e) ∨
        (book.acceptChange change).2 = .ok ()) := by
  have sides : ∀ side : Side, side = .buy ∨ side = .sell := fun side => by cases side <;> simp
  unfold acceptChange
  split
  · refine ⟨fun side => ?_, funext fun side => ?_, rfl, rfl, .inr rfl⟩ <;>
      rcases sides side with rfl | rfl <;> rfl
  · refine ⟨fun side => ?_, funext fun side => ?_, rfl, rfl, .inl ⟨_, rfl⟩⟩ <;>
      rcases sides side with rfl | rfl <;> rfl

theorem apply_every {holds : ℤ → ℤ → Prop} {book : OrderBook} (stated : Stated holds)
    (every : book.Every holds) (change : BookLevelChange) : (book.apply change).1.Every holds := by
  unfold apply
  split
  · exact every
  split
  · exact every
  split
  · next clean =>
    have nonnegative := (validateLevel_eq_nil clean).2.2
    have restated := restate_every every fun sized => stated _ _ _ clean (by omega)
    obtain ⟨_, _, bids, asks, _⟩ :=
      acceptChange_cases ((book.restate change).pruneReported change) change
    exact ⟨bids ▸ pruneBids_every restated.bids _, asks ▸ pruneAsks_every restated.asks _⟩
  · exact ⟨every.bids, every.asks⟩

/-! ## Sequences and tops -/

/-- A snapshot is refused, is dropped as stale, or replaces the book by one that is not crossed. -/
theorem replace_accepted (book : OrderBook) (snapshot : BookSnapshot) :
    (∃ e, (book.replace snapshot).2 = .error e ∧ ((book.replace snapshot).1 = book ∨
      (book.replace snapshot).1 = { book with valid := false })) ∨
    (book.replace snapshot = (book, .ok false) ∧ snapshot.sequence < book.lastSequence) ∨
    ((book.replace snapshot).2 = .ok true ∧ book.lastSequence ≤ snapshot.sequence ∧
      validateCross (book.replace snapshot).1.bestBid (book.replace snapshot).1.bestAsk = [] ∧
      (book.replace snapshot).1.lastSequence = snapshot.sequence) := by
  unfold replace
  split
  · exact .inl ⟨_, rfl, .inl rfl⟩
  split
  · next stale => exact .inr (.inl ⟨rfl, stale⟩)
  next fresh =>
  split
  · next bids asks read =>
    simp only [readSnapshot, Prod.mk.injEq, List.append_eq_nil_iff] at read
    obtain ⟨rfl, rfl, clean⟩ := read
    exact .inr (.inr ⟨rfl, not_lt.mp fresh, clean.2, rfl⟩)
  · exact .inl ⟨_, rfl, .inr rfl⟩

theorem replace_lastSequence_le (book : OrderBook) (snapshot : BookSnapshot) :
    book.lastSequence ≤ (book.replace snapshot).1.lastSequence := by
  rcases replace_accepted book snapshot with
    ⟨e, _, kept | kept⟩ | ⟨unchanged, _⟩ | ⟨_, fresh, _, moved⟩
  · rw [kept]
  · rw [kept]
  · rw [unchanged]
  · exact moved.ge.trans' fresh

/-- A change is refused, is dropped as stale, or is accepted with a top that passes its checks. -/
theorem apply_accepted (book : OrderBook) (change : BookLevelChange) :
    (∃ e, (book.apply change).2 = .error e ∧ ((book.apply change).1 = book ∨
      (book.apply change).1.valid = false ∧
        (book.apply change).1.lastSequence = book.lastSequence)) ∨
    (book.apply change = (book, .ok ()) ∧ change.sequence < book.lastSequence) ∨
    ((book.apply change).2 = .ok () ∧ book.lastSequence ≤ change.sequence ∧
      (book.apply change).1.topIssues change = [] ∧
      (book.apply change).1.lastSequence = change.sequence) := by
  have restated : ((book.restate change).pruneReported change).lastSequence = book.lastSequence := by
    unfold restate
    split <;> rfl
  unfold apply
  split
  · exact .inl ⟨_, rfl, .inl rfl⟩
  split
  · next stale => exact .inr (.inl ⟨rfl, stale⟩)
  next fresh =>
  split
  · unfold acceptChange
    split
    · next clean => exact .inr (.inr ⟨rfl, not_lt.mp fresh, clean, rfl⟩)
    · exact .inl ⟨_, rfl, .inr ⟨rfl, restated⟩⟩
  · exact .inl ⟨_, rfl, .inr ⟨rfl, rfl⟩⟩

theorem apply_lastSequence_le (book : OrderBook) (change : BookLevelChange) :
    book.lastSequence ≤ (book.apply change).1.lastSequence := by
  rcases apply_accepted book change with
    ⟨e, _, kept | ⟨_, kept⟩⟩ | ⟨unchanged, _⟩ | ⟨_, fresh, _, moved⟩
  · rw [kept]
  · exact kept.ge
  · rw [unchanged]
  · exact moved.ge.trans' fresh

/-- What a clean top says about a reported quote; `empty` reports that the side has none. -/
theorem topMismatch_eq_nil {name : String} {best : Option ℤ} {empty reported : ℤ}
    (clean : topMismatch name best empty (some reported) = []) :
    best = if reported = empty then none else some reported := by
  by_contra differ
  simp only [topMismatch] at clean
  rw [if_pos differ] at clean
  cases clean

/-! ## What an operation does to consumption -/

/-- A snapshot is refused, is dropped as stale, or resets the consumption of a valid book. -/
theorem replace_cases (book : OrderBook) (snapshot : BookSnapshot) :
    (∃ e, (book.replace snapshot).2 = .error e) ∨
    (book.replace snapshot = (book, .ok false) ∧ snapshot.sequence < book.lastSequence) ∨
    ((book.replace snapshot).2 = .ok true ∧ book.lastSequence ≤ snapshot.sequence ∧
      (book.replace snapshot).1.valid = true ∧
      ∀ side, (book.replace snapshot).1.consumed side = fun _ => 0) := by
  unfold replace
  split
  · exact .inl ⟨_, rfl⟩
  split
  · next stale => exact .inr (.inl ⟨rfl, stale⟩)
  · next fresh =>
    split
    · exact .inr (.inr ⟨rfl, not_lt.mp fresh, rfl, fun side => by cases side <;> rfl⟩)
    · exact .inl ⟨_, rfl⟩

theorem mem_levels_setLevel {side : Levels} {price size : ℤ} {level : ℤ × ℤ}
    (member : level ∈ (setLevel side price size).toList) : level.1 = price ∨ level ∈ side.toList := by
  by_cases same : level.1 = price
  · exact .inl same
  · right
    rw [Std.TreeMap.mem_toList_iff_getElem?_eq_some] at member ⊢
    have distinct : compare price level.1 ≠ .eq := fun equal =>
      same (Std.LawfulEqCmp.eq_of_compare equal).symm
    unfold setLevel at member
    split at member
    · rwa [Std.TreeMap.getElem?_erase, if_neg distinct] at member
    · rwa [Std.TreeMap.getElem?_insert, if_neg distinct] at member

theorem pruneBids_subset (bids : Levels) (reported : Option ℤ) :
    (pruneBids bids reported).toList ⊆ bids.toList := by
  cases reported with
  | none => exact List.Subset.refl _
  | some reported =>
    simp only [pruneBids]
    split
    · exact List.nil_subset _
    · rw [Std.TreeMap.toList_filter]
      exact List.filter_subset_self _

theorem pruneAsks_subset (asks : Levels) (reported : Option ℤ) :
    (pruneAsks asks reported).toList ⊆ asks.toList := by
  cases reported with
  | none => exact List.Subset.refl _
  | some reported =>
    simp only [pruneAsks]
    split
    · exact List.nil_subset _
    · rw [Std.TreeMap.toList_filter]
      exact List.filter_subset_self _

/-- The consumption a change leaves: its own level is free again. -/
def freed (book : OrderBook) (change : BookLevelChange) : Side → Consumption :=
  Function.update book.consumed change.side
    (Function.update (book.consumed change.side) change.priceScaled 0)

theorem restate_consumed (book : OrderBook) (change : BookLevelChange) :
    (book.restate change).consumed = book.freed change := by
  funext side
  unfold restate freed
  split <;> rename_i same <;> cases side <;> simp [same, consumed]

/-- A level after a restatement was there before, or is the restated one. -/
theorem mem_levels_restate {book : OrderBook} {change : BookLevelChange} {side : Side}
    {level : ℤ × ℤ} (member : level ∈ ((book.restate change).pruneReported change).levels side) :
    (side = change.side ∧ level.1 = change.priceScaled) ∨ level ∈ book.levels side := by
  cases side with
  | buy =>
    have unpruned := pruneBids_subset _ _ (List.mem_reverse.mp member)
    unfold restate at unpruned
    split at unpruned
    · next own =>
      exact (mem_levels_setLevel unpruned).imp (⟨own.symm, ·⟩) List.mem_reverse.mpr
    · exact .inr (List.mem_reverse.mpr unpruned)
  | sell =>
    have unpruned := pruneAsks_subset _ _ member
    unfold restate at unpruned
    split at unpruned
    · exact .inr unpruned
    · next own => exact (mem_levels_setLevel unpruned).imp (⟨own.symm, ·⟩) id

/-- A change is refused and leaves an invalid book, is dropped as stale, or frees its own level. -/
theorem apply_cases (book : OrderBook) (change : BookLevelChange) :
    (∃ e, (book.apply change).2 = .error e) ∨
    (book.apply change = (book, .ok ()) ∧ change.sequence < book.lastSequence) ∨
    ((book.apply change).2 = .ok () ∧ book.lastSequence ≤ change.sequence ∧
      (book.apply change).1.consumed = book.freed change ∧
      ∀ side, ∀ level ∈ (book.apply change).1.levels side,
        (side = change.side ∧ level.1 = change.priceScaled) ∨ level ∈ book.levels side) := by
  unfold apply
  split
  · exact .inl ⟨_, rfl⟩
  split
  · next stale => exact .inr (.inl ⟨rfl, stale⟩)
  · next fresh =>
    split
    · obtain ⟨levels, consumed, _, _, raised | accepted⟩ :=
        acceptChange_cases ((book.restate change).pruneReported change) change
      · exact .inl raised
      · refine .inr (.inr ⟨accepted, not_lt.mp fresh, ?_, fun side level member => ?_⟩)
        · rw [consumed, ← restate_consumed]
          funext side
          cases side <;> rfl
        · exact mem_levels_restate (levels side ▸ member)
    · exact .inl ⟨_, rfl⟩

/-! ## Books up to consumption -/

/-- The book without the overlay of simulated fills. -/
def strip (book : OrderBook) : OrderBook :=
  { book with
    consumedBids := fun _ => 0
    consumedAsks := fun _ => 0 }

@[simp] theorem strip_valid (book : OrderBook) : book.strip.valid = book.valid := rfl

@[simp] theorem strip_levels (book : OrderBook) (side : Side) :
    book.strip.levels side = book.levels side := by cases side <;> rfl

/-- Replacement neither reads nor keeps the overlay. -/
theorem strip_replace (book : OrderBook) (snapshot : BookSnapshot) :
    (book.strip.replace snapshot).2 = (book.replace snapshot).2 ∧
      (book.strip.replace snapshot).1.strip = (book.replace snapshot).1.strip := by
  have fields : book.strip.tokenId = book.tokenId ∧ book.strip.conditionId = book.conditionId ∧
      book.strip.lastSequence = book.lastSequence := ⟨rfl, rfl, rfl⟩
  unfold replace
  rw [fields.1, fields.2.1, fields.2.2]
  split
  · exact ⟨rfl, rfl⟩
  split
  · exact ⟨rfl, rfl⟩
  split <;> exact ⟨rfl, rfl⟩

theorem strip_acceptChange {first second : OrderBook} (same : first.strip = second.strip)
    (change : BookLevelChange) :
    (first.acceptChange change).2 = (second.acceptChange change).2 ∧
      (first.acceptChange change).1.strip = (second.acceptChange change).1.strip := by
  have plain : ∀ book : OrderBook, (book.acceptChange change).2 = (book.strip.acceptChange change).2 ∧
      (book.acceptChange change).1.strip = (book.strip.acceptChange change).1.strip := by
    intro book
    have issues : book.strip.topIssues change = book.topIssues change := rfl
    unfold acceptChange
    rw [issues]
    split <;> exact ⟨rfl, rfl⟩
  have left := plain first
  rw [same] at left
  exact ⟨left.1.trans (plain second).1.symm, left.2.trans (plain second).2.symm⟩

/-- A change does not read the overlay. -/
theorem strip_apply (book : OrderBook) (change : BookLevelChange) :
    (book.strip.apply change).2 = (book.apply change).2 ∧
      (book.strip.apply change).1.strip = (book.apply change).1.strip := by
  have fields : book.strip.tickSizeScaled = book.tickSizeScaled ∧
      book.strip.lastSequence = book.lastSequence ∧ book.strip.tokenId = book.tokenId ∧
      book.strip.conditionId = book.conditionId := ⟨rfl, rfl, rfl, rfl⟩
  have restated : ((book.strip.restate change).pruneReported change).strip =
      ((book.restate change).pruneReported change).strip := by
    unfold restate
    split <;> rfl
  unfold apply
  rw [fields.1, fields.2.1, fields.2.2.1, fields.2.2.2]
  split
  · exact ⟨rfl, rfl⟩
  split
  · exact ⟨rfl, rfl⟩
  split
  · exact strip_acceptChange restated change
  · exact ⟨rfl, rfl⟩

end OrderBook

end PolymarketBt
