import PolymarketBt.Model.SnapshotRows
import PolymarketBt.Proofs.Reconstructor

/-! # The order of a snapshot's levels

What a snapshot makes of a book, and whether it is refused, depends only on the levels listed at each
price. So books reconstructed from snapshots with sorted levels are those of the snapshots as they
came, up to the shape of the maps that hold the levels.
-/

namespace PolymarketBt

open StableSort (InOrder sortByKey sortByKey_inOrder sortByKey_filter)

/-! ## One side -/

namespace OrderBook

variable {duplicate : String} {tickSizeScaled : ℤ} {listed other : List BookLevel} {price : ℤ}

/-- The levels listed at a price. -/
def listedAt (listed : List BookLevel) (price : ℤ) : List BookLevel :=
  listed.filter (·.priceScaled = price)

/-- No level follows one of its own price that has size. -/
def Unrepeated (listed : List BookLevel) : Prop :=
  listed.Pairwise fun first second => first.priceScaled = second.priceScaled → first.sizeScaled ≤ 0

theorem readSide_concat (level : BookLevel) : readSide duplicate tickSizeScaled (listed ++ [level]) =
    readLevel duplicate tickSizeScaled (readSide duplicate tickSizeScaled listed) level := by
  rw [readSide, List.foldl_append]
  rfl

/-- The levels listed at a price that have size. -/
def sizedAt (listed : List BookLevel) (price : ℤ) : List BookLevel :=
  (listedAt listed price).filter (0 < ·.sizeScaled)

theorem sizedAt_concat (level : BookLevel) : sizedAt (listed ++ [level]) price =
    if level.priceScaled = price ∧ 0 < level.sizeScaled then sizedAt listed price ++ [level]
    else sizedAt listed price := by
  rw [sizedAt, listedAt, List.filter_append, List.filter_append, sizedAt, listedAt]
  by_cases same : level.priceScaled = price <;> by_cases size : 0 < level.sizeScaled <;>
    simp [same, size]

/-- A side holds at a price the last size listed there, of those that are positive. -/
theorem readSide_getElem : (readSide duplicate tickSizeScaled listed).1[price]? =
    (sizedAt listed price).getLast?.map BookLevel.sizeScaled := by
  induction listed using List.reverseRecOn with
  | nil => simp [readSide, sizedAt, listedAt]
  | append_singleton rest level ih =>
    rw [readSide_concat, readLevel, sizedAt_concat]
    dsimp only
    by_cases size : 0 < level.sizeScaled
    · rw [if_pos size, Std.TreeMap.getElem?_insert]
      by_cases same : level.priceScaled = price
      · rw [if_pos (Std.LawfulEqCmp.compare_eq_iff_eq.mpr same), if_pos ⟨same, size⟩,
          List.getLast?_concat]
        rfl
      · rw [if_neg fun equal => same (Std.LawfulEqCmp.eq_of_compare equal), ih,
          if_neg fun both => same both.1]
    · rw [if_neg size, ih, if_neg fun both => size both.2]

/-- A side is read without issues exactly if its levels are valid and none is repeated. -/
theorem readSide_clean_iff : (readSide duplicate tickSizeScaled listed).2 = [] ↔
    (∀ level ∈ listed, validateLevel level.priceScaled level.sizeScaled tickSizeScaled = []) ∧
      Unrepeated listed := by
  induction listed using List.reverseRecOn with
  | nil => simp [readSide, Unrepeated]
  | append_singleton rest level ih =>
    have repeated : (readSide duplicate tickSizeScaled rest).1.contains level.priceScaled = true ↔
        ∃ earlier ∈ rest, earlier.priceScaled = level.priceScaled ∧ 0 < earlier.sizeScaled := by
      rw [Std.TreeMap.contains_eq_isSome_getElem?, readSide_getElem, Option.isSome_map,
        List.getLast?_isSome]
      simp only [ne_eq, List.filter_eq_nil_iff, sizedAt, listedAt, List.mem_filter,
        decide_eq_true_eq, not_forall, not_not, and_assoc, exists_prop]
    have last : (if (readSide duplicate tickSizeScaled rest).1.contains level.priceScaled then
        [(⟨"duplicate_level", duplicate⟩ : ValidationIssue)] else []) = [] ↔
          ∀ earlier ∈ rest, earlier.priceScaled = level.priceScaled → earlier.sizeScaled ≤ 0 := by
      split_ifs with present
      · refine iff_of_false (by simp) fun none => ?_
        obtain ⟨earlier, member, same, size⟩ := repeated.mp present
        exact absurd (none earlier member same) (not_le.mpr size)
      · refine iff_of_true rfl fun earlier member same => not_lt.mp fun size => present ?_
        exact repeated.mpr ⟨earlier, member, same, size⟩
    have split : Unrepeated (rest ++ [level]) ↔ Unrepeated rest ∧
        ∀ earlier ∈ rest, earlier.priceScaled = level.priceScaled → earlier.sizeScaled ≤ 0 := by
      simp [Unrepeated, List.pairwise_append]
    rw [readSide_concat, readLevel, List.append_eq_nil_iff, List.append_eq_nil_iff, ih, last, split,
      List.forall_mem_append, List.forall_mem_singleton]
    tauto

theorem unrepeated_iff : Unrepeated listed ↔ ∀ price,
    (listedAt listed price).Pairwise fun first _ => first.sizeScaled ≤ 0 := by
  constructor
  · intro unrepeated price
    refine (List.Pairwise.filter _ unrepeated).imp_of_mem fun {first second} inFirst inSecond size => ?_
    exact size ((of_decide_eq_true (List.mem_filter.mp inFirst).2).trans
      (of_decide_eq_true (List.mem_filter.mp inSecond).2).symm)
  · intro each
    induction listed with
    | nil => exact .nil
    | cons level rest ih =>
      refine List.pairwise_cons.mpr ⟨fun later member same => ?_, ih fun price => ?_⟩
      · have own := each level.priceScaled
        rw [listedAt, List.filter_cons_of_pos (by simp)] at own
        exact (List.pairwise_cons.mp own).1 later
          (List.mem_filter.mpr ⟨member, decide_eq_true same.symm⟩)
      · exact (each price).sublist ((List.sublist_cons_self level rest).filter _)

/-- Sides with the same levels at every price hold the same sizes, and have issues together. -/
theorem readSide_congr (same : ∀ price, listedAt listed price = listedAt other price) :
    Std.TreeMap.Equiv (readSide duplicate tickSizeScaled listed).1
        (readSide duplicate tickSizeScaled other).1 ∧
      ((readSide duplicate tickSizeScaled listed).2 = [] ↔
        (readSide duplicate tickSizeScaled other).2 = []) := by
  refine ⟨Std.TreeMap.Equiv.of_forall_constGet?_eq fun price => ?_, ?_⟩
  · change (readSide _ _ listed).1[price]? = (readSide _ _ other).1[price]?
    rw [readSide_getElem, readSide_getElem, sizedAt, sizedAt, same]
  · have members : ∀ level, level ∈ listed ↔ level ∈ other := fun level => by
      have own := congrArg (level ∈ ·) (same level.priceScaled)
      simpa [listedAt] using own
    rw [readSide_clean_iff, readSide_clean_iff, unrepeated_iff, unrepeated_iff]
    simp only [same, members]

theorem listedAt_sortByKey {κ : Type*} [LinearOrder κ] (key : BookLevel → κ)
    (alike : ∀ first second : BookLevel, first.priceScaled = second.priceScaled → key first = key second) :
    listedAt (sortByKey key listed) price = listedAt listed price := by
  have constant : InOrder key (listedAt listed price) :=
    List.pairwise_of_forall_mem_list fun first inFirst second inSecond => (alike _ _
      ((of_decide_eq_true (List.mem_filter.mp inFirst).2).trans
        (of_decide_eq_true (List.mem_filter.mp inSecond).2).symm)).le
  rw [listedAt, sortByKey_filter]
  exact constant.sortByKey_eq

/-- Sorting its levels changes nothing of what a snapshot makes of a book. -/
theorem readSnapshot_bestFirst (snapshot : BookSnapshot) :
    (readSnapshot snapshot.bestFirst).1.Equiv (readSnapshot snapshot).1 ∧
      (readSnapshot snapshot.bestFirst).2.1.Equiv (readSnapshot snapshot).2.1 ∧
      ((readSnapshot snapshot.bestFirst).2.2 = [] ↔ (readSnapshot snapshot).2.2 = []) := by
  have bids := @readSide_congr "duplicate bid price" snapshot.tickSizeScaled
    snapshot.bestFirst.bids snapshot.bids fun _ => listedAt_sortByKey _ fun _ _ => congrArg _
  have asks := @readSide_congr "duplicate ask price" snapshot.tickSizeScaled
    snapshot.bestFirst.asks snapshot.asks fun _ => listedAt_sortByKey _ fun _ _ => id
  refine ⟨bids.1, asks.1, ?_⟩
  have cross : validateCross (highestPrice (readSnapshot snapshot.bestFirst).1)
      (lowestPrice (readSnapshot snapshot.bestFirst).2.1) =
        validateCross (highestPrice (readSnapshot snapshot).1)
          (lowestPrice (readSnapshot snapshot).2.1) := by
    rw [highestPrice, lowestPrice, highestPrice, lowestPrice]
    congr 1
    · exact congrArg (fun levels => (levels.reverse.head?).map Prod.fst) bids.1.toList_eq
    · exact congrArg (fun levels => (levels.head?).map Prod.fst) asks.1.toList_eq
  change (_ ++ _) ++ validateCross _ _ = [] ↔ (_ ++ _) ++ validateCross _ _ = []
  rw [List.append_eq_nil_iff, List.append_eq_nil_iff, List.append_eq_nil_iff, List.append_eq_nil_iff]
  exact and_congr (and_congr bids.2 asks.2) (iff_of_eq (congrArg (· = []) cross))

/-! ## Books -/

/-- The first book is the second one, up to the shape of the maps of its levels. -/
def Agrees (first second : OrderBook) : Prop :=
  ∃ bids asks : Levels, bids.Equiv second.bids ∧ asks.Equiv second.asks ∧
    first = { second with bids := bids, asks := asks }

theorem Agrees.refl (book : OrderBook) : book.Agrees book := ⟨book.bids, book.asks, .rfl, .rfl, rfl⟩

/-- Books that agree show the same levels. -/
theorem Agrees.levels {first second : OrderBook} (agrees : first.Agrees second) (side : Side) :
    first.levels side = second.levels side := by
  obtain ⟨bids, asks, sameBids, sameAsks, rfl⟩ := agrees
  cases side with
  | buy => exact congrArg List.reverse sameBids.toList_eq
  | sell => exact sameAsks.toList_eq

theorem Agrees.invalidate {first second : OrderBook} (agrees : first.Agrees second) :
    Agrees { first with valid := false } { second with valid := false } := by
  obtain ⟨bids, asks, sameBids, sameAsks, rfl⟩ := agrees
  exact ⟨bids, asks, sameBids, sameAsks, rfl⟩

/-- The results agree, in the book and in whether an exception is raised. -/
def ResultsAgree {σ α β : Type*} (agrees : σ → σ → Prop) (first : σ × Except PyError α)
    (second : σ × Except PyError β) : Prop :=
  agrees first.1 second.1 ∧ first.2.isOk = second.2.isOk

theorem Agrees.replace {first second : OrderBook} (agrees : first.Agrees second)
    (snapshot : BookSnapshot) :
    ResultsAgree Agrees (first.replace snapshot.bestFirst) (second.replace snapshot) := by
  obtain ⟨bids, asks, sameBids, sameAsks, rfl⟩ := agrees
  obtain ⟨bidsRead, asksRead, clean⟩ := readSnapshot_bestFirst snapshot
  unfold OrderBook.replace
  change ResultsAgree Agrees
    (if snapshot.tokenId ≠ second.tokenId ∨ snapshot.conditionId ≠ second.conditionId then _
      else if snapshot.sequence < second.lastSequence then _ else _) _
  split_ifs
  · exact ⟨⟨bids, asks, sameBids, sameAsks, rfl⟩, rfl⟩
  · exact ⟨⟨bids, asks, sameBids, sameAsks, rfl⟩, rfl⟩
  rcases read : readSnapshot snapshot.bestFirst with ⟨bidsFirst, asksFirst, issues⟩
  rcases reread : readSnapshot snapshot with ⟨bidsSecond, asksSecond, others⟩
  rw [read, reread] at bidsRead asksRead clean
  cases issues with
  | nil =>
    obtain rfl := clean.mp rfl
    exact ⟨⟨bidsFirst, asksFirst, bidsRead, asksRead, rfl⟩, rfl⟩
  | cons issue rest =>
    cases others with
    | nil => cases clean.mpr rfl
    | cons other more => exact ⟨⟨bids, asks, sameBids, sameAsks, rfl⟩, rfl⟩

theorem setLevel_equiv {first second : Levels} (same : first.Equiv second) (price size : ℤ) :
    (setLevel first price size).Equiv (setLevel second price size) := by
  unfold setLevel
  split_ifs
  · exact same.erase price
  · exact same.insert price size

theorem pruneBids_equiv {first second : Levels} (same : first.Equiv second) (reported : Option ℤ) :
    (pruneBids first reported).Equiv (pruneBids second reported) := by
  cases reported with
  | none => exact same
  | some price =>
    simp only [pruneBids]
    split_ifs
    · exact .rfl
    · exact same.filter _

theorem pruneAsks_equiv {first second : Levels} (same : first.Equiv second) (reported : Option ℤ) :
    (pruneAsks first reported).Equiv (pruneAsks second reported) := by
  cases reported with
  | none => exact same
  | some price =>
    simp only [pruneAsks]
    split_ifs
    · exact .rfl
    · exact same.filter _

theorem Agrees.restate {first second : OrderBook} (agrees : first.Agrees second)
    (change : BookLevelChange) : (first.restate change).Agrees (second.restate change) := by
  obtain ⟨bids, asks, sameBids, sameAsks, rfl⟩ := agrees
  unfold OrderBook.restate
  cases change.side with
  | buy => exact ⟨_, asks, setLevel_equiv sameBids .., sameAsks, rfl⟩
  | sell => exact ⟨bids, _, sameBids, setLevel_equiv sameAsks .., rfl⟩

theorem Agrees.pruneReported {first second : OrderBook} (agrees : first.Agrees second)
    (change : BookLevelChange) :
    (first.pruneReported change).Agrees (second.pruneReported change) := by
  obtain ⟨bids, asks, sameBids, sameAsks, rfl⟩ := agrees
  exact ⟨_, _, pruneBids_equiv sameBids _, pruneAsks_equiv sameAsks _, rfl⟩

theorem Agrees.topIssues {first second : OrderBook} (agrees : first.Agrees second)
    (change : BookLevelChange) : first.topIssues change = second.topIssues change := by
  have bid : first.bestBid = second.bestBid :=
    congrArg (fun levels => levels.head?.map Prod.fst) (agrees.levels .buy)
  have ask : first.bestAsk = second.bestAsk :=
    congrArg (fun levels => levels.head?.map Prod.fst) (agrees.levels .sell)
  rw [OrderBook.topIssues, OrderBook.topIssues, bid, ask]

theorem Agrees.acceptChange {first second : OrderBook} (agrees : first.Agrees second)
    (change : BookLevelChange) :
    ResultsAgree Agrees (first.acceptChange change) (second.acceptChange change) := by
  have issues := agrees.topIssues change
  obtain ⟨bids, asks, sameBids, sameAsks, rfl⟩ := agrees
  unfold OrderBook.acceptChange
  rw [issues]
  cases second.topIssues change with
  | nil => exact ⟨⟨bids, asks, sameBids, sameAsks, rfl⟩, rfl⟩
  | cons issue rest => exact ⟨⟨bids, asks, sameBids, sameAsks, rfl⟩, rfl⟩

theorem Agrees.apply {first second : OrderBook} (agrees : first.Agrees second)
    (change : BookLevelChange) :
    ResultsAgree Agrees (first.apply change) (second.apply change) := by
  have accepted := ((agrees.restate change).pruneReported change).acceptChange change
  obtain ⟨bids, asks, sameBids, sameAsks, rfl⟩ := agrees
  unfold OrderBook.apply
  dsimp only
  split_ifs
  · exact ⟨⟨bids, asks, sameBids, sameAsks, rfl⟩, rfl⟩
  · exact ⟨⟨bids, asks, sameBids, sameAsks, rfl⟩, rfl⟩
  · cases validateLevel change.priceScaled change.newSizeScaled second.tickSizeScaled with
    | nil => exact accepted
    | cons issue rest => exact ⟨⟨bids, asks, sameBids, sameAsks, rfl⟩, rfl⟩

end OrderBook

/-! ## Reconstruction -/

/-- The event as it is read back from storage. -/
def BookEvent.bestFirst : BookEvent → BookEvent
  | .snapshot listed => .snapshot listed.bestFirst
  | event => event

namespace BookReconstructor

open OrderBook (ResultsAgree)

/-- The books agree token by token, and the rest is the same. -/
structure Agrees (first second : BookReconstructor) : Prop where
  books : ∀ tokenId, Option.Rel OrderBook.Agrees (first.books tokenId) (second.books tokenId)
  uncertainty : first.uncertainty = second.uncertainty
  effectiveTickSizes : first.effectiveTickSizes = second.effectiveTickSizes

variable {first second : BookReconstructor}

theorem Agrees.refl (reconstructor : BookReconstructor) : reconstructor.Agrees reconstructor where
  books tokenId := by
    cases reconstructor.books tokenId with
    | none => exact .none
    | some book => exact .some (.refl book)
  uncertainty := rfl
  effectiveTickSizes := rfl

namespace Agrees

theorem setBook (agrees : first.Agrees second) {book other : OrderBook} (same : book.Agrees other)
    (tokenId : String) : (first.setBook tokenId book).Agrees (second.setBook tokenId other) where
  books token := by
    by_cases own : token = tokenId
    · subst own
      rw [setBook_books_self, setBook_books_self]
      exact .some same
    · rw [setBook_books_of_ne _ own, setBook_books_of_ne _ own]
      exact agrees.books token
  uncertainty := agrees.uncertainty
  effectiveTickSizes := agrees.effectiveTickSizes

theorem setTick (agrees : first.Agrees second) (tokenId : String) (tickSizeScaled : ℤ) :
    (first.setTick tokenId tickSizeScaled).Agrees (second.setTick tokenId tickSizeScaled) where
  books := agrees.books
  uncertainty := agrees.uncertainty
  effectiveTickSizes :=
    congrArg (fun ticks : String → Option ℤ => Function.update ticks tokenId (some tickSizeScaled))
      agrees.effectiveTickSizes

/-- A token has a book on both sides or on none. -/
theorem stored (agrees : first.Agrees second) (tokenId : String) :
    (first.books tokenId = none ∧ second.books tokenId = none) ∨
    ∃ book other, first.books tokenId = some book ∧ second.books tokenId = some other ∧
      book.Agrees other := by
  have books := agrees.books tokenId
  cases left : first.books tokenId with
  | none =>
    cases right : second.books tokenId with
    | none => exact .inl ⟨rfl, rfl⟩
    | some _ =>
      rw [left, right] at books
      cases books
  | some book =>
    cases right : second.books tokenId with
    | none =>
      rw [left, right] at books
      cases books
    | some other =>
      rw [left, right] at books
      cases books with
      | some same => exact .inr ⟨book, other, rfl, rfl, same⟩

theorem invalidate (agrees : first.Agrees second) (tokenId : String) :
    (first.invalidate tokenId).Agrees (second.invalidate tokenId) := by
  unfold BookReconstructor.invalidate
  rcases agrees.stored tokenId with ⟨left, right⟩ | ⟨book, other, left, right, same⟩
  · rw [left, right]
    exact agrees
  · rw [left, right]
    exact agrees.setBook same.invalidate tokenId

/-- A snapshot takes the same tick on both sides. -/
theorem effectiveSnapshot (agrees : first.Agrees second) (snapshot : BookSnapshot) :
    (first.effectiveSnapshot snapshot.bestFirst).1.Agrees (second.effectiveSnapshot snapshot).1 ∧
      (first.effectiveSnapshot snapshot.bestFirst).2 =
        (second.effectiveSnapshot snapshot).2.bestFirst := by
  have ticks : first.effectiveTickSizes snapshot.bestFirst.tokenId =
      second.effectiveTickSizes snapshot.tokenId := congrFun agrees.effectiveTickSizes _
  unfold BookReconstructor.effectiveSnapshot
  rw [ticks]
  cases second.effectiveTickSizes snapshot.tokenId with
  | none => exact ⟨agrees.setTick _ _, rfl⟩
  | some tick =>
    simp only [show snapshot.bestFirst.source = snapshot.source from rfl]
    split_ifs
    · exact ⟨agrees.setTick _ _, rfl⟩
    · exact ⟨agrees, rfl⟩

/-- A token is registered on both sides or on none. -/
theorem register (agrees : first.Agrees second) (conditionId tokenId outcome : String) :
    (∃ left right e f, first.register conditionId tokenId outcome = (left, .error e) ∧
      second.register conditionId tokenId outcome = (right, .error f) ∧ left.Agrees right) ∨
    ∃ left right book other, first.register conditionId tokenId outcome = (left, .ok book) ∧
      second.register conditionId tokenId outcome = (right, .ok other) ∧ left.Agrees right ∧
      book.Agrees other := by
  unfold BookReconstructor.register
  rcases agrees.stored tokenId with ⟨left, right⟩ | ⟨book, other, left, right, same⟩
  · rw [left, right]
    exact .inr ⟨_, _, _, _, rfl, rfl, agrees.setBook (.refl _) tokenId, .refl _⟩
  · rw [left, right]
    obtain ⟨bids, asks, sameBids, sameAsks, rfl⟩ := same
    dsimp only
    split_ifs
    · exact .inl ⟨_, _, _, _, rfl, rfl, agrees⟩
    · exact .inr ⟨_, _, _, _, rfl, rfl, agrees, bids, asks, sameBids, sameAsks, rfl⟩

theorem closeLatest_bestFirst (snapshot : BookSnapshot) (intervals : List UncertaintyInterval) :
    closeLatest snapshot.bestFirst intervals = closeLatest snapshot intervals := by
  induction intervals with
  | nil => rfl
  | cons interval rest ih =>
    simp only [closeLatest, ih]
    rfl

theorem applySnapshot (agrees : first.Agrees second) (snapshot : BookSnapshot) :
    ResultsAgree Agrees (first.applySnapshot snapshot.bestFirst) (second.applySnapshot snapshot) := by
  obtain ⟨ticked, taken⟩ := agrees.effectiveSnapshot snapshot
  unfold BookReconstructor.applySnapshot
  rcases left : first.effectiveSnapshot snapshot.bestFirst with ⟨firstTicked, firstTaken⟩
  rcases right : second.effectiveSnapshot snapshot with ⟨secondTicked, effective⟩
  rw [left, right] at ticked taken
  obtain rfl : firstTaken = effective.bestFirst := taken
  dsimp only
  have registered := ticked.register effective.conditionId effective.tokenId effective.outcome
  rw [show effective.bestFirst.conditionId = effective.conditionId from rfl,
    show effective.bestFirst.tokenId = effective.tokenId from rfl,
    show effective.bestFirst.outcome = effective.outcome from rfl]
  rcases registered with ⟨one, other, e, f, registers, also, same⟩ |
    ⟨one, other, book, twin, registers, also, same, books⟩
  · rw [registers, also]
    exact ⟨same, rfl⟩
  · rw [registers, also]
    have replaced := books.replace effective
    dsimp only
    rcases result : book.replace effective.bestFirst with ⟨after, outcome⟩
    rcases again : twin.replace effective with ⟨later, answer⟩
    rw [result, again] at replaced
    obtain ⟨kept, outcomes⟩ := replaced
    cases outcome with
    | error e =>
      cases answer with
      | error f => exact ⟨same.setBook kept _, rfl⟩
      | ok _ => cases outcomes
    | ok _ =>
      cases answer with
      | error f => cases outcomes
      | ok _ =>
        refine ⟨⟨(same.setBook kept _).books, ?_, same.effectiveTickSizes⟩, rfl⟩
        rw [closeLatest_bestFirst]
        exact congrArg (fun intervals => (closeLatest effective intervals.reverse).reverse)
          same.uncertainty

theorem applyTickSizeChange (agrees : first.Agrees second) (change : TickSizeChange) :
    ResultsAgree Agrees (first.applyTickSizeChange change) (second.applyTickSizeChange change) := by
  unfold BookReconstructor.applyTickSizeChange
  split_ifs
  · exact ⟨agrees, rfl⟩
  have ticked := agrees.setTick change.tokenId change.newTickSizeScaled
  rcases agrees.stored change.tokenId with ⟨left, right⟩ | ⟨book, other, left, right, same⟩
  · rw [left, right]
    exact ⟨ticked, rfl⟩
  · rw [left, right]
    obtain ⟨bids, asks, sameBids, sameAsks, rfl⟩ := same
    have kept : OrderBook.Agrees
        { other with bids := bids, asks := asks, tickSizeScaled := change.newTickSizeScaled }
        { other with tickSizeScaled := change.newTickSizeScaled } :=
      ⟨bids, asks, sameBids, sameAsks, rfl⟩
    dsimp only
    split_ifs
    · exact ⟨ticked, rfl⟩
    · exact ⟨ticked.setBook kept _, rfl⟩

theorem applyChange (agrees : first.Agrees second) (change : BookLevelChange) :
    ResultsAgree Agrees (first.applyChange change) (second.applyChange change) := by
  unfold BookReconstructor.applyChange
  rcases agrees.stored change.tokenId with ⟨left, right⟩ | ⟨book, other, left, right, same⟩
  · rw [left, right]
    exact ⟨agrees, rfl⟩
  · rw [left, right]
    have applied := same.apply change
    obtain ⟨bids, asks, sameBids, sameAsks, rfl⟩ := same
    dsimp only
    split_ifs
    · exact ⟨agrees.setBook applied.1 _, applied.2⟩
    · exact ⟨agrees, rfl⟩

theorem absorb (agrees : first.Agrees second) (event : BookEvent) :
    (first.absorb event.bestFirst).Agrees (second.absorb event) := by
  have applied : ResultsAgree Agrees (first.applyEvent event.bestFirst) (second.applyEvent event) := by
    cases event with
    | snapshot snapshot => exact agrees.applySnapshot snapshot
    | tick change => exact agrees.applyTickSizeChange change
    | update change => exact agrees.applyChange change
  have token : event.bestFirst.tokenId = event.tokenId := by cases event <;> rfl
  unfold BookReconstructor.absorb
  rw [token]
  rcases left : first.applyEvent event.bestFirst with ⟨after, outcome⟩
  rcases right : second.applyEvent event with ⟨later, answer⟩
  rw [left, right] at applied
  obtain ⟨same, outcomes⟩ := applied
  cases outcome with
  | error e =>
    cases answer with
    | error f => exact same.invalidate _
    | ok _ => cases outcomes
  | ok _ =>
    cases answer with
    | error f => cases outcomes
    | ok _ => exact same

theorem absorbAll (agrees : first.Agrees second) (events : List BookEvent) :
    (first.absorbAll (events.map BookEvent.bestFirst)).Agrees (second.absorbAll events) := by
  induction events generalizing first second with
  | nil => exact agrees
  | cons event rest ih => exact ih (agrees.absorb event)

end Agrees

end BookReconstructor

end PolymarketBt
