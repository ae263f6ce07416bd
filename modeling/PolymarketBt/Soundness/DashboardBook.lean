import PolymarketBt.Model.DashboardBook
import PolymarketBt.Proofs.OrderBook
import PolymarketBt.Proofs.Reconstructor
import PolymarketBt.Proofs.Replay
import PolymarketBt.ToMathlib.PrunedReplay

/-! # The dashboard's book against the reconstructed one

Both sides of a ladder are replayed from the same snapshot through the same changes. The dashboard
takes every statement and keeps it until the level is stated again; the reconstructor also drops
what a reported top rules out, and what has no size. So the page shows the reconstructed book
exactly when nothing that stands at the end was ever dropped.
-/

namespace PolymarketBt

open StableSort (InOrder sortByKey sortByKey_inOrder sortByKey_filter sortByKey_map)

/-! ## Ladders as views -/

theorem Levels.toList_eq_iff {first second : Levels} :
    first.toList = second.toList ↔ ∀ price : ℤ, first[price]? = second[price]? := by
  rw [← Std.TreeMap.equiv_iff_toList_eq]
  exact ⟨fun same price => same.getElem?_eq, Std.TreeMap.Equiv.of_forall_constGet?_eq⟩

/-- What the two sides of a ladder hold at a price. -/
def ladderView (sides : Side → Levels) (key : Side × ℤ) : Option ℤ := (sides key.1)[key.2]?

def OrderBook.sides (book : OrderBook) : Side → Levels
  | .buy => book.bids
  | .sell => book.asks

theorem depth_eq_levels_iff {states : BookStates} {tokenId : String} {book : OrderBook} :
    (∀ side, states.depth tokenId side = book.levels side) ↔
      ∀ key, ladderView (states tokenId) key = ladderView book.sides key := by
  constructor
  · rintro same ⟨side, price⟩
    have shown := same side
    cases side with
    | buy => exact Levels.toList_eq_iff.mp (List.reverse_injective shown) price
    | sell => exact Levels.toList_eq_iff.mp shown price
  · intro same side
    cases side with
    | buy =>
      exact congrArg List.reverse (Levels.toList_eq_iff.mpr fun price => same (.buy, price))
    | sell => exact Levels.toList_eq_iff.mpr fun price => same (.sell, price)

namespace BookLevelChange

/-- The change speaks of the level. -/
def Restates (change : BookLevelChange) (side : Side) (priceScaled : ℤ) : Prop :=
  change.side = side ∧ change.priceScaled = priceScaled
deriving Decidable

/-- The top that the change reports leaves room for the level. -/
def Admits (change : BookLevelChange) : Side → ℤ → Prop
  | .buy, priceScaled =>
    ∀ reported ∈ change.reportedBestBidScaled, reported ≠ 0 ∧ priceScaled ≤ reported
  | .sell, priceScaled =>
    ∀ reported ∈ change.reportedBestAskScaled,
      reported ≠ polymarketPriceScale ∧ reported ≤ priceScaled

end BookLevelChange

/-- What an absolute size says of a level; zero says that it is gone. -/
def levelStatement (side : Side) (priceScaled sizeScaled : ℤ) (key : Side × ℤ) : Option (Option ℤ) :=
  if side = key.1 ∧ priceScaled = key.2 then
    some (if sizeScaled = 0 then none else some sizeScaled)
  else none

/-- The statements of level changes, and what their reported tops leave room for. -/
def ladderReplay : PrunedReplay BookLevelChange (Side × ℤ) ℤ where
  states change := levelStatement change.side change.priceScaled change.newSizeScaled
  admits change key := change.Admits key.1 key.2

namespace OrderBook

theorem getElem?_setLevel (side : Levels) (priceScaled sizeScaled price : ℤ) :
    (setLevel side priceScaled sizeScaled)[price]? =
      if priceScaled = price then (if sizeScaled = 0 then none else some sizeScaled)
      else side[price]? := by
  unfold setLevel
  by_cases empty : sizeScaled = 0
  · rw [if_pos empty, if_pos empty, Std.TreeMap.getElem?_erase]
    simp only [Std.LawfulEqCmp.compare_eq_iff_eq]
  · rw [if_neg empty, if_neg empty, Std.TreeMap.getElem?_insert]
    simp only [Std.LawfulEqCmp.compare_eq_iff_eq]

theorem getElem?_pruneBids (bids : Levels) (reported : Option ℤ) (price : ℤ) :
    (pruneBids bids reported)[price]? =
      if ∀ top ∈ reported, top ≠ 0 ∧ price ≤ top then bids[price]? else none := by
  cases reported with
  | none => simp [pruneBids]
  | some top =>
    by_cases empty : top = 0
    · simp [pruneBids, empty]
    · simp only [pruneBids, empty, if_false, Std.TreeMap.getElem?_filter']
      cases bids[price]? <;> simp [Option.filter, empty]

theorem getElem?_pruneAsks (asks : Levels) (reported : Option ℤ) (price : ℤ) :
    (pruneAsks asks reported)[price]? =
      if ∀ top ∈ reported, top ≠ polymarketPriceScale ∧ top ≤ price then asks[price]? else none := by
  cases reported with
  | none => simp [pruneAsks]
  | some top =>
    by_cases empty : top = polymarketPriceScale
    · simp [pruneAsks, empty]
    · simp only [pruneAsks, empty, if_false, Std.TreeMap.getElem?_filter']
      cases asks[price]? <;> simp [Option.filter, empty]

/-- A level set on one side of a ladder is a statement. -/
theorem ladderView_setLevel (sides : Side → Levels) (side : Side) (priceScaled sizeScaled : ℤ) :
    ladderView (Function.update sides side (setLevel (sides side) priceScaled sizeScaled)) =
      fun key => (levelStatement side priceScaled sizeScaled key).getD (ladderView sides key) := by
  funext ⟨other, price⟩
  unfold ladderView levelStatement
  by_cases own : side = other
  · subst own
    rw [Function.update_self, getElem?_setLevel]
    by_cases same : priceScaled = price
    · simp [same]
    · simp [same]
  · simp [Function.update_of_ne (Ne.symm own), own]

theorem restate_sides (book : OrderBook) (change : BookLevelChange) :
    (book.restate change).sides = Function.update book.sides change.side
      (setLevel (book.sides change.side) change.priceScaled change.newSizeScaled) := by
  funext side
  unfold restate
  split <;> rename_i own <;> cases side <;> simp [own, sides]

/-- A restated book that is pruned by a reported top takes a statement under pruning. -/
theorem ladderView_pruneReported (book : OrderBook) (change : BookLevelChange) :
    ladderView ((book.restate change).pruneReported change).sides =
      ladderReplay.pruned (ladderView book.sides) change := by
  classical
  funext ⟨side, price⟩
  have restated : ladderView (book.restate change).sides =
      ladderReplay.stated (ladderView book.sides) change := by
    rw [restate_sides]
    exact ladderView_setLevel book.sides change.side change.priceScaled change.newSizeScaled
  unfold PrunedReplay.pruned
  rw [← restated]
  cases side with
  | buy =>
    exact (getElem?_pruneBids (book.restate change).bids change.reportedBestBidScaled price).trans
      (if_congr Iff.rfl rfl rfl)
  | sell =>
    exact (getElem?_pruneAsks (book.restate change).asks change.reportedBestAskScaled price).trans
      (if_congr Iff.rfl rfl rfl)

end OrderBook

/-! ## The levels of a snapshot -/

/-- The levels of one side as the reconstructor takes them: those without a size are left out. -/
def listingReplay : PrunedReplay BookLevel ℤ ℤ where
  states level price :=
    if level.priceScaled = price ∧ 0 < level.sizeScaled then some (some level.sizeScaled) else none
  admits _ _ := True

/-- The levels of a snapshot as the dashboard takes them. -/
def levelReplay : PrunedReplay LevelRow (Side × ℤ) ℤ where
  states row key :=
    if row.side = key.1 ∧ row.priceScaled = key.2 then some (some row.sizeScaled) else none
  admits _ _ := True

theorem OrderBook.getElem?_readSide (duplicate : String) (tickSizeScaled : ℤ)
    (listed : List BookLevel) (price : ℤ) :
    (readSide duplicate tickSizeScaled listed).1[price]? =
      listed.foldl listingReplay.stated (fun _ => none) price := by
  suffices general : ∀ (read : Levels × List ValidationIssue) (view : ℤ → Option ℤ),
      (∀ other, read.1[other]? = view other) →
      (listed.foldl (readLevel duplicate tickSizeScaled) read).1[price]? =
        listed.foldl listingReplay.stated view price from
    general (∅, []) (fun _ => none) fun other => by simp
  induction listed with
  | nil => exact fun read view same => same price
  | cons level rest ih =>
    intro read view same
    refine ih _ _ fun other => ?_
    unfold readLevel PrunedReplay.stated listingReplay
    by_cases sized : 0 < level.sizeScaled
    · rw [if_pos sized, Std.TreeMap.getElem?_insert, same]
      by_cases own : level.priceScaled = other
      · simp [own, sized]
      · simp [own]
    · rw [if_neg sized, same]
      simp [sized]

/-- Of the levels that a side lists, each price once, the reconstructor keeps those with a size. -/
theorem OrderBook.getElem?_readSide_eq_some_iff {duplicate : String} {tickSizeScaled : ℤ}
    {listed : List BookLevel} (distinct : (listed.map BookLevel.priceScaled).Nodup)
    {price size : ℤ} :
    (readSide duplicate tickSizeScaled listed).1[price]? = some size ↔
      ∃ level ∈ listed, level.priceScaled = price ∧ level.sizeScaled = size ∧ 0 < size := by
  rw [getElem?_readSide, PrunedReplay.foldl_stated_eq_some_iff ?_ rfl]
  · refine exists_congr fun level => and_congr_right fun _ => ?_
    constructor
    · intro said
      obtain ⟨⟨own, sized⟩, same⟩ := Option.ite_none_right_eq_some.mp said
      obtain rfl := Option.some.inj (Option.some.inj same)
      exact ⟨own, rfl, sized⟩
    · rintro ⟨own, rfl, sized⟩
      exact if_pos ⟨own, sized⟩
  · refine (List.pairwise_map.mp distinct).imp fun apart key said => if_neg fun other => said ?_
    exact if_neg fun own => apart (own.1.trans other.1.symm)

/-! ## The reconstructor after a snapshot -/

/-- The age of an event within the stream of its token. -/
def BookEvent.age (event : BookEvent) : ℤ ×ₗ ℤ := toLex (event.receivedUtcNs, event.sequence)

/-- The change of an event of the snapshot's book that comes after the snapshot or with it. -/
def BookEvent.laterChange (snapshot : BookSnapshot) : BookEvent → Option BookLevelChange
  | .update change =>
    if change.tokenId = snapshot.tokenId ∧
        (BookEvent.snapshot snapshot).age ≤ (BookEvent.update change).age then some change
    else none
  | _ => none

/-- An event behind a snapshot is a later change of its book, or nothing to it. -/
def BookEvent.Behind (snapshot : BookSnapshot) : BookEvent → Prop
  | .snapshot other => other.tokenId = snapshot.tokenId → other.sequence < snapshot.sequence
  | .tick _ => True
  | .update change => change.tokenId = snapshot.tokenId →
    change.conditionId = snapshot.conditionId ∧
      ((BookEvent.update change).laterChange snapshot = none → change.sequence < snapshot.sequence)

/-- A book that has taken a snapshot. -/
structure OrderBook.Holds (snapshot : BookSnapshot) (book : OrderBook) : Prop where
  tokenId : book.tokenId = snapshot.tokenId
  conditionId : book.conditionId = snapshot.conditionId
  sequence : snapshot.sequence ≤ book.lastSequence

namespace OrderBook

variable {snapshot : BookSnapshot} {book : OrderBook}

theorem Holds.replace_stale (holds : book.Holds snapshot) {other : BookSnapshot}
    (stale : other.sequence < snapshot.sequence) : (book.replace other).1 = book := by
  unfold replace
  split
  · rfl
  · rw [if_pos (stale.trans_le holds.sequence)]

theorem Holds.apply_stale (holds : book.Holds snapshot) {change : BookLevelChange}
    (stale : change.sequence < snapshot.sequence) : (book.apply change).1 = book := by
  unfold apply
  split
  · rfl
  · rw [if_pos (stale.trans_le holds.sequence)]

/-- A fresh change of the book leaves it invalid, or restates and prunes it. -/
theorem Holds.apply_fresh (holds : book.Holds snapshot) {change : BookLevelChange}
    (tokenId : change.tokenId = snapshot.tokenId)
    (conditionId : change.conditionId = snapshot.conditionId)
    (fresh : book.lastSequence ≤ change.sequence) :
    (book.apply change).1.Holds snapshot ∧ (book.apply change).1.lastSequence ≤ change.sequence ∧
      ((book.apply change).1.valid = true →
        ladderView (book.apply change).1.sides =
          ladderReplay.pruned (ladderView book.sides) change) := by
  have kept : ((book.restate change).pruneReported change).Holds snapshot ∧
      ((book.restate change).pruneReported change).lastSequence = book.lastSequence := by
    unfold restate
    split <;> exact ⟨⟨holds.tokenId, holds.conditionId, holds.sequence⟩, rfl⟩
  unfold apply
  rw [if_neg (not_or.mpr ⟨not_not.mpr (tokenId.trans holds.tokenId.symm),
    not_not.mpr (conditionId.trans holds.conditionId.symm)⟩), if_neg (not_lt.mpr fresh)]
  split
  · unfold acceptChange
    split
    · exact ⟨⟨kept.1.tokenId, kept.1.conditionId, holds.sequence.trans fresh⟩, le_rfl,
        fun _ => ladderView_pruneReported book change⟩
    · exact ⟨⟨kept.1.tokenId, kept.1.conditionId, kept.1.sequence⟩, kept.2.trans_le fresh,
        fun valid => nomatch valid⟩
  · exact ⟨⟨holds.tokenId, holds.conditionId, holds.sequence⟩, fresh, fun valid => nomatch valid⟩

end OrderBook

/-- A snapshot that is neither refused nor stale leaves its own levels. -/
theorem OrderBook.replace_takes {book : OrderBook} {snapshot : BookSnapshot} {taken : Bool}
    (accepted : (book.replace snapshot).2 = .ok taken)
    (fresh : book.lastSequence ≤ snapshot.sequence) :
    (book.replace snapshot).1.Holds snapshot ∧
      (book.replace snapshot).1.lastSequence = snapshot.sequence ∧
      (book.replace snapshot).1.bids =
        (readSide "duplicate bid price" snapshot.tickSizeScaled snapshot.bids).1 ∧
      (book.replace snapshot).1.asks =
        (readSide "duplicate ask price" snapshot.tickSizeScaled snapshot.asks).1 := by
  unfold replace at accepted ⊢
  split at accepted
  · cases accepted
  next mapped =>
  simp only [not_or, not_not] at mapped
  rw [if_neg (not_lt.mpr fresh)] at accepted
  rw [if_neg (by simp [mapped.1, mapped.2]), if_neg (not_lt.mpr fresh)]
  split
  · next bids asks read =>
    simp only [readSnapshot, Prod.mk.injEq] at read
    obtain ⟨rfl, rfl, _⟩ := read
    exact ⟨⟨mapped.1.symm, mapped.2.symm, le_rfl⟩, rfl, rfl, rfl⟩
  · next bids asks issues faulty read =>
    rw [read] at accepted
    cases issues with
    | nil => exact (faulty rfl).elim
    | cons issue issues => cases accepted

namespace BookReconstructor

variable {reconstructor : BookReconstructor} {snapshot : BookSnapshot} {book : OrderBook}
  {event : BookEvent}

/-- The reconstructor takes the snapshot: it neither refuses it nor drops it as stale. -/
def Takes (reconstructor : BookReconstructor) (snapshot : BookSnapshot) : Prop :=
  (reconstructor.applySnapshot snapshot).2 = .ok () ∧
    (reconstructor.bookFor snapshot).lastSequence ≤ snapshot.sequence

theorem Takes.stored (takes : reconstructor.Takes snapshot) :
    ∃ tickSizeScaled book,
      (reconstructor.applySnapshot snapshot).1.books snapshot.tokenId = some book ∧
      book.Holds snapshot ∧ book.lastSequence = snapshot.sequence ∧
      book.bids = (OrderBook.readSide "duplicate bid price" tickSizeScaled snapshot.bids).1 ∧
      book.asks = (OrderBook.readSide "duplicate ask price" tickSizeScaled snapshot.asks).1 := by
  obtain ⟨accepted, fresh⟩ := takes
  rcases applySnapshot_cases reconstructor snapshot with
    ⟨e, raised, _⟩ | ⟨tick, result, rfl, books, results⟩
  · rw [raised] at accepted
    cases accepted
  rw [results] at accepted
  cases replaced : ((reconstructor.bookFor snapshot).replace
      { snapshot with tickSizeScaled := tick }).2 with
  | error e =>
    rw [replaced] at accepted
    cases accepted
  | ok taken =>
    obtain ⟨holds, sequence, bids, asks⟩ := OrderBook.replace_takes replaced fresh
    refine ⟨tick, _, ?_, ⟨holds.tokenId, holds.conditionId, holds.sequence⟩, sequence, bids, asks⟩
    rw [books, Function.update_self]

/-- An event that is no later change leaves the levels and the validity of the book alone. -/
theorem applyEvent_behind (stored : reconstructor.books snapshot.tokenId = some book)
    (holds : book.Holds snapshot) (behind : event.Behind snapshot)
    (other : event.laterChange snapshot = none) :
    ∃ after, (reconstructor.applyEvent event).1.books snapshot.tokenId = some after ∧
      after.Holds snapshot ∧ after.lastSequence = book.lastSequence ∧ after.valid = book.valid ∧
      after.sides = book.sides := by
  by_cases own : event.tokenId = snapshot.tokenId
  swap
  · refine ⟨book, ?_, holds, rfl, rfl, rfl⟩
    exact (applyEvent_books_of_ne reconstructor event (Ne.symm own)).trans stored
  cases event with
  | snapshot next =>
    change next.tokenId = snapshot.tokenId at own
    refine ⟨book, ?_, holds, rfl, rfl, rfl⟩
    change (reconstructor.applySnapshot next).1.books snapshot.tokenId = some book
    rcases applySnapshot_cases reconstructor next with ⟨_, _, books⟩ | ⟨tick, result, rfl, books, _⟩
    · exact (congrFun books _).trans stored
    · have found : reconstructor.bookFor next = book := by
        unfold bookFor
        rw [own, stored, Option.getD_some]
      have same : (book.replace { next with tickSizeScaled := tick }).1 = book :=
        holds.replace_stale (behind own)
      rw [found, same] at books
      rw [books, own, Function.update_self]
  | tick change =>
    change change.tokenId = snapshot.tokenId at own
    change ∃ after, (reconstructor.applyTickSizeChange change).1.books snapshot.tokenId = _ ∧ _
    rcases applyTickSizeChange_cases reconstructor change with books | ⟨found, present, books⟩
    · exact ⟨book, (congrFun books _).trans stored, holds, rfl, rfl, rfl⟩
    · rw [own] at present books
      obtain rfl := Option.some.inj (present.symm.trans stored)
      refine ⟨{ found with tickSizeScaled := change.newTickSizeScaled }, ?_,
        ⟨holds.tokenId, holds.conditionId, holds.sequence⟩, rfl, rfl, ?_⟩
      · rw [books, Function.update_self]
      · funext side
        cases side <;> rfl
  | update change =>
    change change.tokenId = snapshot.tokenId at own
    refine ⟨book, ?_, holds, rfl, rfl, rfl⟩
    change (reconstructor.applyChange change).1.books snapshot.tokenId = some book
    rcases applyChange_cases reconstructor change with ⟨_, refused, _⟩ | ⟨found, present, _, applied⟩
    · rw [refused]
      exact stored
    · rw [own] at present applied
      obtain rfl := Option.some.inj (present.symm.trans stored)
      rw [applied, setBook_books_self, holds.apply_stale ((behind own).2 other)]

/-- A later change is taken under pruning when it leaves the book valid. -/
theorem applyEvent_later {change : BookLevelChange}
    (stored : reconstructor.books snapshot.tokenId = some book) (holds : book.Holds snapshot)
    (behind : event.Behind snapshot) (later : event.laterChange snapshot = some change)
    (fresh : book.lastSequence ≤ change.sequence) :
    ∃ after, (reconstructor.applyEvent event).1.books snapshot.tokenId = some after ∧
      after.Holds snapshot ∧ after.lastSequence ≤ change.sequence ∧
      (after.valid = true → book.valid = true ∧
        ladderView after.sides = ladderReplay.pruned (ladderView book.sides) change) := by
  cases event with
  | snapshot next => cases later
  | tick change => cases later
  | update next =>
    obtain ⟨⟨own, _⟩, same⟩ := Option.ite_none_right_eq_some.mp later
    obtain rfl := Option.some.inj same
    change ∃ after, (reconstructor.applyChange next).1.books snapshot.tokenId = _ ∧ _
    rcases applyChange_cases reconstructor next with
      ⟨_, refused, invalid⟩ | ⟨found, present, valid, applied⟩
    · refine ⟨book, ?_, holds, fresh, fun valid => ?_⟩
      · rw [refused]
        exact stored
      · rw [invalid book (own ▸ stored)] at valid
        cases valid
    · rw [own] at present applied
      obtain rfl := Option.some.inj (present.symm.trans stored)
      obtain ⟨keeps, reached, pruned⟩ := holds.apply_fresh own (behind own).1 fresh
      refine ⟨(found.apply next).1, ?_, keeps, reached, fun accepted => ⟨valid, pruned accepted⟩⟩
      rw [applied, setBook_books_self]

/-- Behind a snapshot the levels of a book that ends valid are the later changes under pruning. -/
theorem performAll_behind {events : List BookEvent}
    (stored : reconstructor.books snapshot.tokenId = some book) (holds : book.Holds snapshot)
    (behind : ∀ event ∈ events, event.Behind snapshot)
    (fresh : ∀ change ∈ events.filterMap (BookEvent.laterChange snapshot),
      book.lastSequence ≤ change.sequence)
    (forward : (events.filterMap (BookEvent.laterChange snapshot)).Pairwise fun first second =>
      first.sequence ≤ second.sequence) :
    ∃ after, (reconstructor.performAll (events.map .event)).books snapshot.tokenId = some after ∧
      (after.valid = true → book.valid = true ∧ ladderView after.sides =
        (events.filterMap (BookEvent.laterChange snapshot)).foldl ladderReplay.pruned
          (ladderView book.sides)) := by
  induction events generalizing reconstructor book with
  | nil => exact ⟨book, stored, fun valid => ⟨valid, rfl⟩⟩
  | cons event rest ih =>
    obtain ⟨here, rest⟩ := List.forall_mem_cons.mp behind
    cases later : event.laterChange snapshot with
    | none =>
      rw [List.filterMap_cons_none later] at fresh forward ⊢
      obtain ⟨next, found, keeps, sequence, valid, sides⟩ :=
        applyEvent_behind stored holds here later
      obtain ⟨after, last, shown⟩ := ih found keeps rest (sequence ▸ fresh) forward
      exact ⟨after, last, fun ended => valid ▸ sides ▸ shown ended⟩
    | some change =>
      rw [List.filterMap_cons_some later] at fresh forward ⊢
      obtain ⟨first, others⟩ := List.forall_mem_cons.mp fresh
      obtain ⟨onward, forward⟩ := List.pairwise_cons.mp forward
      obtain ⟨next, found, keeps, reached, pruned⟩ :=
        applyEvent_later stored holds here later first
      obtain ⟨after, last, shown⟩ := ih found keeps rest
        (fun other member => reached.trans (onward other member)) forward
      refine ⟨after, last, fun ended => ?_⟩
      obtain ⟨valid, sides⟩ := shown ended
      exact ⟨(pruned valid).1, by rw [sides, (pruned valid).2, List.foldl_cons]⟩

end BookReconstructor

/-! ## The stream of a market -/

namespace ParsedEvents

/-- The datasets hold what was recorded of one market, and every snapshot has an id of its own. -/
structure OfMarket (datasets : ParsedEvents) (market : DashboardMarket) : Prop where
  snapshots : ∀ snapshot ∈ datasets.snapshots, snapshot.conditionId = market.conditionId ∧
    (snapshot.tokenId = market.upTokenId ∨ snapshot.tokenId = market.downTokenId)
  updates : ∀ change ∈ datasets.updates, change.conditionId = market.conditionId ∧
    (change.tokenId = market.upTokenId ∨ change.tokenId = market.downTokenId)
  identified : (datasets.snapshots.map ParsedSnapshot.snapshotId).Nodup

/-- The only newest snapshot of its token at an instant. -/
structure Newest (datasets : ParsedEvents) (atNs : ℤ) (snapshot : ParsedSnapshot) : Prop where
  listed : snapshot ∈ datasets.snapshots
  reached : snapshot.receivedUtcNs ≤ atNs
  newest : ∀ other ∈ datasets.snapshots, other.tokenId = snapshot.tokenId →
    other.receivedUtcNs ≤ atNs → other ≠ snapshot → other.row.age < snapshot.row.age

/-- The change belongs to the snapshot's token and comes after the snapshot or with it. -/
def After (atNs : ℤ) (snapshot : ParsedSnapshot) (change : ParsedChange) : Prop :=
  change.tokenId = snapshot.tokenId ∧ change.receivedUtcNs ≤ atNs ∧
    snapshot.row.age ≤ toLex (change.receivedUtcNs, change.sequence)

instance (atNs : ℤ) (snapshot : ParsedSnapshot) : DecidablePred (After atNs snapshot) :=
  fun _ => inferInstanceAs (Decidable (_ ∧ _ ∧ _))

/-- The events up to an instant in their deterministic order. -/
def pastEvents (datasets : ParsedEvents) (atNs : ℤ) : List ReplayEvent :=
  (sortByKey (eventKey .localReceiveTime) datasets.replayEvents).filter
    fun event => event.receivedUtcNs ≤ atNs

/-- The changes after a snapshot in their deterministic order. -/
def laterChanges (datasets : ParsedEvents) (atNs : ℤ) (snapshot : ParsedSnapshot) :
    List ParsedChange :=
  (sortByKey (fun change : ParsedChange => eventKey .localReceiveTime change.replayEvent)
    datasets.updates).filter (After atNs snapshot)

/-- Nothing about the snapshot or the changes after it depends on who breaks a tie or drops what is
late: the snapshot is taken, lists a price once, and shares no stamp with a change; the changes go
forward in their own order and in the order of the query. -/
structure InSequence (datasets : ParsedEvents) (atNs : ℤ) (snapshot : ParsedSnapshot) : Prop where
  taken : ∀ earlier later, datasets.pastEvents atNs = earlier ++ snapshot.replayEvent :: later →
    (BookReconstructor.init.performAll ((replayBookEvents earlier).map .event)).Takes
      snapshot.toBookSnapshot
  distinct : ∀ side, ((snapshot.listed side).map BookLevel.priceScaled).Nodup
  apart : ∀ change ∈ datasets.laterChanges atNs snapshot,
    snapshot.row.age ≠ toLex (change.receivedUtcNs, change.sequence) ∧
      snapshot.sequence ≤ change.sequence
  forward : (datasets.laterChanges atNs snapshot).Pairwise fun first second =>
    first.sequence ≤ second.sequence ∧ first.row.orderKey < second.row.orderKey

/-- Every level whose last word gives it a size has been left room by each top reported since. -/
structure Unpruned (datasets : ParsedEvents) (atNs : ℤ) (snapshot : ParsedSnapshot) : Prop where
  listed : ∀ side, ∀ level ∈ snapshot.listed side,
    (∀ change ∈ datasets.laterChanges atNs snapshot, ¬ change.Restates side level.priceScaled) →
    0 < level.sizeScaled ∧
      ∀ change ∈ datasets.laterChanges atNs snapshot, change.Admits side level.priceScaled
  stated : ∀ earlier change later,
    datasets.laterChanges atNs snapshot = earlier ++ change :: later → change.newSizeScaled ≠ 0 →
    (∀ next ∈ later, ¬ next.Restates change.side change.priceScaled) →
    ∀ next ∈ change :: later, next.Admits change.side change.priceScaled

variable {market : DashboardMarket} {datasets : ParsedEvents} {atNs : ℤ} {snapshot : ParsedSnapshot}

theorem pastEvents_inOrder : InOrder (eventKey .localReceiveTime) (datasets.pastEvents atNs) :=
  (sortByKey_inOrder _ _).filter _

/-- The past holds the recorded events and nothing else. -/
theorem mem_pastEvents {event : ReplayEvent} (member : event ∈ datasets.pastEvents atNs) :
    event.receivedUtcNs ≤ atNs ∧
      ((∃ snapshot ∈ datasets.snapshots, snapshot.replayEvent = event) ∨
        (∃ change ∈ datasets.updates, change.replayEvent = event) ∨
        ∃ change ∈ datasets.tickSizeChanges, change.replayEvent = event) := by
  obtain ⟨member, reached⟩ := List.mem_filter.mp member
  refine ⟨of_decide_eq_true reached, ?_⟩
  have listed := StableSort.mem_sortByKey.mp member
  simpa only [ParsedEvents.replayEvents, List.mem_append, List.mem_map, or_assoc] using listed

theorem mem_laterChanges {change : ParsedChange} :
    change ∈ datasets.laterChanges atNs snapshot ↔
      change ∈ datasets.updates ∧ After atNs snapshot change := by
  unfold laterChanges
  rw [List.mem_filter, StableSort.mem_sortByKey, decide_eq_true_iff]

end ParsedEvents

theorem received_le_of_eventKey_le {first second : ReplayEvent}
    (le : eventKey .localReceiveTime first ≤ eventKey .localReceiveTime second) :
    first.receivedUtcNs < second.receivedUtcNs ∨
      first.receivedUtcNs = second.receivedUtcNs ∧ first.sourcePriority ≤ second.sourcePriority := by
  unfold eventKey eventKeyAt ReplayEvent.timeAt at le
  simp only [Prod.Lex.toLex_le_toLex] at le
  rcases le with before | ⟨same, before | ⟨_, before | ⟨equal, _⟩⟩⟩
  · exact .inl before
  · exact .inl before
  · exact .inr ⟨same, before.le⟩
  · exact .inr ⟨same, equal.le⟩

namespace ParsedEvents

variable {market : DashboardMarket} {datasets : ParsedEvents} {atNs : ℤ} {snapshot : ParsedSnapshot}

/-! ## What the reconstructor holds -/

theorem reconstructedAt_eq_ok {reconstructor : BookReconstructor}
    (reconstructed : datasets.reconstructedAt atNs = .ok reconstructor) :
    reconstructor =
      .performAll .init ((replayBookEvents (datasets.pastEvents atNs)).map .event) := by
  obtain ⟨merged, sorted, rest⟩ := Except.bind_eq_ok.mp reconstructed
  obtain ⟨_, rfl⟩ := mergeEvents_eq_ok_iff.mp sorted
  exact (Except.pure_eq_ok.mp rest).symm

/-- The past falls into what came before the newest snapshot and what came behind it. -/
theorem Newest.split (newest : datasets.Newest atNs snapshot) :
    ∃ earlier later, datasets.pastEvents atNs = earlier ++ snapshot.replayEvent :: later ∧
      snapshot.replayEvent ∉ later := by
  have member : snapshot.replayEvent ∈ (datasets.pastEvents atNs).reverse := by
    refine List.mem_reverse.mpr (List.mem_filter.mpr ⟨StableSort.mem_sortByKey.mpr ?_, ?_⟩)
    · exact List.mem_append_left _ (List.mem_append_left _ (List.mem_map_of_mem newest.listed))
    · exact decide_eq_true newest.reached
  obtain ⟨later, earlier, split, absent⟩ := List.eq_append_cons_of_mem member
  refine ⟨earlier.reverse, later.reverse, ?_, by simpa using absent⟩
  rw [← List.reverse_reverse (datasets.pastEvents atNs), split]
  simp

theorem replayBookEvents_append (earlier later : List ReplayEvent) :
    replayBookEvents (earlier ++ later) = replayBookEvents earlier ++ replayBookEvents later :=
  List.filterMap_append

theorem mem_replayBookEvents {event : BookEvent} {events : List ReplayEvent}
    (member : event ∈ replayBookEvents events) :
    ∃ replayed ∈ events, replayed.payload.bookEvent = some event := by
  obtain ⟨replayed, listed, same⟩ := List.mem_filterMap.mp member
  exact ⟨replayed, listed, same⟩

section Split

variable {earlier later : List ReplayEvent}
  (split : datasets.pastEvents atNs = earlier ++ snapshot.replayEvent :: later)
include split

/-- No change before the snapshot counts as a later one. -/
theorem earlier_none : (replayBookEvents earlier).filterMap
    (BookEvent.laterChange snapshot.toBookSnapshot) = [] := by
  refine List.filterMap_eq_nil_iff.mpr fun event member => ?_
  obtain ⟨replayed, listed, same⟩ := mem_replayBookEvents member
  have before : eventKey .localReceiveTime replayed ≤
      eventKey .localReceiveTime snapshot.replayEvent := by
    have sorted := split ▸ @pastEvents_inOrder datasets atNs
    exact (List.pairwise_append.mp sorted).2.2 replayed listed _ List.mem_cons_self
  have past : replayed ∈ datasets.pastEvents atNs := split ▸ List.mem_append_left _ listed
  rcases (mem_pastEvents past).2 with
    ⟨other, _, rfl⟩ | ⟨change, _, rfl⟩ | ⟨change, _, rfl⟩
  · obtain rfl := Option.some.inj same
    rfl
  · obtain rfl := Option.some.inj same
    refine if_neg fun after => ?_
    have received := received_le_of_eventKey_le before
    have age := Prod.Lex.toLex_le_toLex.mp after.2
    change change.receivedUtcNs < snapshot.receivedUtcNs ∨
      change.receivedUtcNs = snapshot.receivedUtcNs ∧ 20 ≤ 10 at received
    change snapshot.receivedUtcNs < change.receivedUtcNs ∨
      snapshot.receivedUtcNs = change.receivedUtcNs ∧ _ at age
    omega
  · obtain rfl := Option.some.inj same
    rfl

/-- Everything after the last occurrence of the snapshot is behind it. -/
theorem later_behind (newest : datasets.Newest atNs snapshot)
    (recorded : datasets.OfMarket market) (absent : snapshot.replayEvent ∉ later) :
    ∀ event ∈ replayBookEvents later, event.Behind snapshot.toBookSnapshot := by
  intro event member
  obtain ⟨replayed, listed, same⟩ := mem_replayBookEvents member
  have after : eventKey .localReceiveTime snapshot.replayEvent ≤
      eventKey .localReceiveTime replayed := by
    have sorted := split ▸ @pastEvents_inOrder datasets atNs
    exact (List.pairwise_cons.mp (List.pairwise_append.mp sorted).2.1).1 replayed listed
  have received := received_le_of_eventKey_le after
  have past : replayed ∈ datasets.pastEvents atNs :=
    split ▸ List.mem_append_right _ (List.mem_cons_of_mem _ listed)
  obtain ⟨reached, origin⟩ := mem_pastEvents past
  rcases origin with ⟨other, stored, rfl⟩ | ⟨change, stored, rfl⟩ | ⟨change, _, rfl⟩
  · obtain rfl := Option.some.inj same
    intro own
    have older := newest.newest other stored own reached fun equal => absent (equal ▸ listed)
    rcases Prod.Lex.toLex_lt_toLex.mp older with before | ⟨_, before⟩
    · change other.receivedUtcNs < snapshot.receivedUtcNs at before
      change snapshot.receivedUtcNs < other.receivedUtcNs ∨
        snapshot.receivedUtcNs = other.receivedUtcNs ∧ _ at received
      omega
    · exact before
  · obtain rfl := Option.some.inj same
    intro own
    refine ⟨(recorded.updates change stored).1.trans
      (recorded.snapshots snapshot newest.listed).1.symm, fun refused => ?_⟩
    have younger : ¬ (BookEvent.snapshot snapshot.toBookSnapshot).age ≤
        (BookEvent.update change.toBookLevelChange).age :=
      fun young => nomatch (if_pos ⟨own, young⟩).symm.trans refused
    rcases Prod.Lex.toLex_lt_toLex.mp (not_le.mp younger) with before | ⟨_, before⟩
    · change change.receivedUtcNs < snapshot.receivedUtcNs at before
      change snapshot.receivedUtcNs < change.receivedUtcNs ∨
        snapshot.receivedUtcNs = change.receivedUtcNs ∧ _ at received
      omega
    · exact before
  · obtain rfl := Option.some.inj same
    trivial

end Split

/-- The later change that an event carries for a snapshot. -/
def laterPick (snapshot : ParsedSnapshot) (event : ReplayEvent) : Option BookLevelChange :=
  event.payload.bookEvent.bind (BookEvent.laterChange snapshot.toBookSnapshot)

/-- Picking the later changes out of the recorded events leaves the recorded later changes. -/
theorem filter_replayEvents :
    (datasets.replayEvents.filter fun event =>
      decide (event.receivedUtcNs ≤ atNs) && (laterPick snapshot event).isSome) =
        (datasets.updates.filter (After atNs snapshot)).map ParsedChange.replayEvent := by
  have snapshots : ∀ other : ParsedSnapshot,
      (laterPick snapshot other.replayEvent).isSome = false := fun _ => rfl
  have ticks : ∀ change : ParsedTickSizeChange,
      (laterPick snapshot change.replayEvent).isSome = false := fun _ => rfl
  have updates : ∀ change : ParsedChange,
      (decide (change.replayEvent.receivedUtcNs ≤ atNs) &&
        (laterPick snapshot change.replayEvent).isSome) = decide (After atNs snapshot change) := by
    intro change
    change (decide (change.receivedUtcNs ≤ atNs) && (ite (_ ∧ _) _ none).isSome) = _
    by_cases own : change.tokenId = snapshot.tokenId ∧
        (BookEvent.snapshot snapshot.toBookSnapshot).age ≤
          (BookEvent.update change.toBookLevelChange).age
    · rw [if_pos own, Option.isSome_some, Bool.and_true]
      exact decide_eq_decide.mpr ⟨fun reached => ⟨own.1, reached, own.2⟩, fun after => after.2.1⟩
    · rw [if_neg own, Option.isSome_none, Bool.and_false]
      exact (decide_eq_false fun after => own ⟨after.1, after.2.2⟩).symm
  unfold replayEvents
  rw [List.filter_append, List.filter_append, List.filter_map, List.filter_map, List.filter_map]
  simp only [Function.comp_def, snapshots, ticks, updates, Bool.and_false, List.filter_false,
    List.map_nil, List.nil_append, List.append_nil]

theorem filterMap_pastEvents :
    (replayBookEvents (datasets.pastEvents atNs)).filterMap
        (BookEvent.laterChange snapshot.toBookSnapshot) =
      (datasets.laterChanges atNs snapshot).map ParsedChange.toBookLevelChange := by
  have picked : (replayBookEvents (datasets.pastEvents atNs)).filterMap
      (BookEvent.laterChange snapshot.toBookSnapshot) =
        ((sortByKey (eventKey .localReceiveTime) datasets.replayEvents).filter fun event =>
          decide (event.receivedUtcNs ≤ atNs) && (laterPick snapshot event).isSome).filterMap
            (laterPick snapshot) := by
    unfold replayBookEvents pastEvents
    rw [List.filterMap_filterMap, List.filterMap_filter, List.filterMap_filter]
    refine List.filterMap_congr fun event _ => ?_
    change (if _ then laterPick snapshot event else none) = _
    cases laterPick snapshot event <;> simp
  rw [picked, sortByKey_filter, filter_replayEvents, sortByKey_map, List.filterMap_map]
  unfold laterChanges
  rw [sortByKey_filter, ← List.filterMap_eq_map]
  refine List.filterMap_congr fun change member => ?_
  have after := of_decide_eq_true (List.mem_filter.mp (StableSort.mem_sortByKey.mp member)).2
  exact if_pos ⟨after.1, after.2.2⟩

/-- What the reconstructor holds once the newest snapshot is taken: its levels with a size, and the
later changes under pruning. -/
theorem reconstructed_view {reconstructor : BookReconstructor} {book : OrderBook}
    (recorded : datasets.OfMarket market) (newest : datasets.Newest atNs snapshot)
    (inSequence : datasets.InSequence atNs snapshot)
    (reconstructed : datasets.reconstructedAt atNs = .ok reconstructor)
    (stored : reconstructor.books snapshot.tokenId = some book) (valid : book.valid = true) :
    ∃ kept : Side × ℤ → Option ℤ,
      (∀ side price size, kept (side, price) = some size ↔ ∃ level ∈ snapshot.listed side,
        level.priceScaled = price ∧ level.sizeScaled = size ∧ 0 < size) ∧
      ladderView book.sides =
        ((datasets.laterChanges atNs snapshot).map ParsedChange.toBookLevelChange).foldl
          ladderReplay.pruned kept := by
  obtain ⟨earlier, later, split, absent⟩ := newest.split
  obtain ⟨tick, taken, first, holds, sequence, bids, asks⟩ :=
    (inSequence.taken earlier later split).stored
  have behind := later_behind split newest recorded absent
  have changes := @filterMap_pastEvents datasets atNs snapshot
  have events : replayBookEvents (datasets.pastEvents atNs) =
      replayBookEvents earlier ++ .snapshot snapshot.toBookSnapshot :: replayBookEvents later := by
    rw [split, replayBookEvents_append]
    rfl
  have rest : (replayBookEvents later).filterMap
      (BookEvent.laterChange snapshot.toBookSnapshot) =
        (datasets.laterChanges atNs snapshot).map ParsedChange.toBookLevelChange := by
    rw [← changes, events, List.filterMap_append, earlier_none split, List.nil_append]
    rfl
  have fresh : ∀ change ∈ (datasets.laterChanges atNs snapshot).map ParsedChange.toBookLevelChange,
      taken.lastSequence ≤ change.sequence := by
    rintro _ member
    obtain ⟨change, listed, rfl⟩ := List.mem_map.mp member
    exact sequence.trans_le (inSequence.apart change listed).2
  have forward : ((datasets.laterChanges atNs snapshot).map
      ParsedChange.toBookLevelChange).Pairwise fun first second =>
        first.sequence ≤ second.sequence :=
    List.pairwise_map.mpr (inSequence.forward.imp And.left)
  obtain ⟨after, found, shown⟩ := BookReconstructor.performAll_behind first holds behind
    (rest ▸ fresh) (rest ▸ forward)
  have final : reconstructor.books snapshot.tokenId = some after := by
    rw [reconstructedAt_eq_ok reconstructed, events, List.map_append, List.map_cons,
      BookReconstructor.performAll, List.foldl_append, List.foldl_cons]
    exact found
  obtain rfl := Option.some.inj (final.symm.trans stored)
  refine ⟨ladderView taken.sides, fun side price size => ?_, ?_⟩
  · cases side with
    | buy =>
      change taken.bids[price]? = some size ↔ _
      rw [bids]
      exact OrderBook.getElem?_readSide_eq_some_iff (inSequence.distinct .buy)
    | sell =>
      change taken.asks[price]? = some size ↔ _
      rw [asks]
      exact OrderBook.getElem?_readSide_eq_some_iff (inSequence.distinct .sell)
  · rw [← rest]
    exact (shown valid).2

end ParsedEvents

/-! ## What the dashboard computes -/

/-- The statements of the update rows. -/
def updateReplay : PrunedReplay UpdateRow (Side × ℤ) ℤ where
  states row := levelStatement row.side row.priceScaled row.newSizeScaled
  admits _ _ := True

/-- The update row belongs to the snapshot's token and comes after the snapshot. -/
def UpdateRow.After (snapshot : SnapshotRow) (update : UpdateRow) : Prop :=
  update.tokenId = snapshot.tokenId ∧
    ¬ (update.receivedUtcNs < snapshot.receivedUtcNs ∨
      update.receivedUtcNs = snapshot.receivedUtcNs ∧ update.sequence ≤ snapshot.sequence)

instance (snapshot : SnapshotRow) : DecidablePred (UpdateRow.After snapshot) :=
  fun _ => inferInstanceAs (Decidable (_ ∧ _))

namespace BookRows

variable {rows : BookRows} {market : DashboardMarket} {datasets : ParsedEvents} {atNs : ℤ}
  {snapshot : ParsedSnapshot} {states : BookStates}

theorem setSide_self (states : BookStates) (tokenId : String) (side : Side) (levels : Levels) :
    states.setSide tokenId side levels tokenId = Function.update (states tokenId) side levels :=
  Function.update_self _ _ _

theorem setSide_of_ne (states : BookStates) {tokenId other : String} (side : Side) (levels : Levels)
    (distinct : other ≠ tokenId) : states.setSide tokenId side levels other = states other :=
  Function.update_of_ne distinct _ _

section Newest

variable (recorded : datasets.OfMarket market) (newest : datasets.Newest atNs snapshot)
  (answered : rows.Answer market datasets atNs)
include recorded newest answered

/-- The query returns the newest snapshot of the token. -/
theorem row_mem : snapshot.row ∈ rows.snapshots := by
  have own := recorded.snapshots snapshot newest.listed
  have selected : market.Selects atNs snapshot.conditionId snapshot.tokenId
      snapshot.receivedUtcNs := ⟨own.1, newest.reached, own.2⟩
  obtain ⟨row, member, token⟩ :=
    List.mem_map.mp (answered.complete snapshot newest.listed selected)
  obtain ⟨other, listed, rfl, reached, oldest⟩ := answered.newest row member
  have same : other = snapshot := by
    by_contra differ
    have older := newest.newest other listed token reached.2.1 differ
    exact absurd (oldest snapshot newest.listed token.symm selected) (not_le.mpr older)
  exact same ▸ member

theorem row_eq {row : SnapshotRow} (member : row ∈ rows.snapshots)
    (token : row.tokenId = snapshot.tokenId) : row = snapshot.row :=
  List.inj_on_of_nodup_map answered.oneEach member (row_mem recorded newest answered) token

theorem snapshotForToken_eq : rows.snapshotForToken snapshot.tokenId = some snapshot.row := by
  have member := row_mem recorded newest answered
  unfold snapshotForToken
  cases found : rows.snapshots.reverse.find? fun row => row.tokenId = snapshot.tokenId with
  | none =>
    have missing := List.find?_eq_none.mp found snapshot.row (List.mem_reverse.mpr member)
    exact absurd (decide_eq_true rfl) missing
  | some row =>
    have token : row.tokenId = snapshot.tokenId := by simpa using List.find?_some found
    exact congrArg some (row_eq recorded newest answered
      (List.mem_reverse.mp (List.mem_of_find?_eq_some found)) token)

/-- Only the id of the newest snapshot leads to its token. -/
theorem tokenForSnapshot_eq_iff {snapshotId : String} :
    rows.tokenForSnapshot snapshotId = some snapshot.tokenId ↔
      snapshotId = snapshot.snapshotId := by
  have chosen := snapshotForToken_eq recorded newest answered
  constructor
  · intro leads
    obtain ⟨row, found, token⟩ := Option.map_eq_some_iff.mp leads
    obtain ⟨same, picked⟩ : row.snapshotId = snapshotId ∧
        rows.snapshotForToken row.tokenId = some row := by simpa using List.find?_some found
    rw [token, chosen] at picked
    obtain rfl := Option.some.inj picked
    exact same.symm
  · rintro rfl
    unfold tokenForSnapshot
    cases found : rows.snapshots.reverse.find? fun row => row.snapshotId = snapshot.snapshotId ∧
        rows.snapshotForToken row.tokenId = some row with
    | none =>
      have member := List.mem_reverse.mpr (row_mem recorded newest answered)
      exact absurd (decide_eq_true ⟨rfl, chosen⟩) (List.find?_eq_none.mp found snapshot.row member)
    | some row =>
      have member := List.mem_reverse.mp (List.mem_of_find?_eq_some found)
      obtain ⟨same, _⟩ : row.snapshotId = snapshot.snapshotId ∧
          rows.snapshotForToken row.tokenId = some row := by simpa using List.find?_some found
      obtain ⟨other, listed, rfl, _⟩ := answered.newest row member
      obtain rfl := List.inj_on_of_nodup_map recorded.identified listed newest.listed same
      rfl

/-- A level row counts for the token when it belongs to its newest snapshot. -/
theorem readLevels_view (levels : List LevelRow) :
    ladderView (levels.foldl rows.readLevelRow states snapshot.tokenId) =
      (levels.filter fun level => level.snapshotId = snapshot.snapshotId).foldl levelReplay.stated
        (ladderView (states snapshot.tokenId)) := by
  induction levels generalizing states with
  | nil => rfl
  | cons level rest ih =>
    rw [List.foldl_cons, ih]
    have leads : rows.tokenForSnapshot level.snapshotId = some snapshot.tokenId ↔
        level.snapshotId = snapshot.snapshotId := tokenForSnapshot_eq_iff recorded newest answered
    by_cases own : level.snapshotId = snapshot.snapshotId
    · have read : rows.readLevelRow states level = states.setSide snapshot.tokenId level.side
          ((states snapshot.tokenId level.side).insert level.priceScaled level.sizeScaled) := by
        unfold readLevelRow
        rw [leads.mpr own]
      rw [List.filter_cons_of_pos (by simpa using own), List.foldl_cons, read, setSide_self]
      congr 1
      funext ⟨side, price⟩
      unfold ladderView PrunedReplay.stated levelReplay
      by_cases same : level.side = side
      · subst same
        rw [Function.update_self, Std.TreeMap.getElem?_insert]
        by_cases equal : level.priceScaled = price
        · simp [equal]
        · simp [equal]
      · simp [Function.update_of_ne (Ne.symm same), same]
    · have read : rows.readLevelRow states level snapshot.tokenId = states snapshot.tokenId := by
        unfold readLevelRow
        cases token : rows.tokenForSnapshot level.snapshotId with
        | none => rfl
        | some tokenId =>
          refine setSide_of_ne states _ _ fun equal => own (leads.mp ?_)
          rw [token, equal]
      rw [List.filter_cons_of_neg (by simpa using own), read]

theorem mem_levels {level : LevelRow} :
    level ∈ rows.levels ∧ level.snapshotId = snapshot.snapshotId ↔
      ∃ side, level ∈ snapshot.levelRows side := by
  have member := row_mem recorded newest answered
  rw [answered.levels.mem_iff, List.mem_filter, List.mem_flatMap]
  constructor
  · rintro ⟨⟨⟨other, listed, belongs⟩, _⟩, same⟩
    obtain ⟨side, belongs⟩ : ∃ side, level ∈ other.levelRows side := by
      rcases List.mem_append.mp belongs with bid | ask
      · exact ⟨.buy, bid⟩
      · exact ⟨.sell, ask⟩
    have own : level.snapshotId = other.snapshotId := by
      obtain ⟨_, _, rfl⟩ := List.mem_map.mp belongs
      rfl
    obtain rfl := List.inj_on_of_nodup_map recorded.identified listed newest.listed
      (own.symm.trans same)
    exact ⟨side, belongs⟩
  · rintro ⟨side, belongs⟩
    have own : level.snapshotId = snapshot.snapshotId := by
      obtain ⟨_, _, rfl⟩ := List.mem_map.mp belongs
      rfl
    refine ⟨⟨⟨snapshot, newest.listed, ?_⟩, decide_eq_true (List.mem_map.mpr ⟨_, member, own.symm⟩)⟩,
      own⟩
    cases side with
    | buy => exact List.mem_append_left _ belongs
    | sell => exact List.mem_append_right _ belongs

/-- No two level rows of the snapshot speak of one level. -/
theorem levels_distinct
    (distinct : ∀ side, ((snapshot.listed side).map BookLevel.priceScaled).Nodup) :
    (rows.levels.filter fun level => level.snapshotId = snapshot.snapshotId).Pairwise
      fun first second => ∀ key, levelReplay.states first key ≠ none →
        levelReplay.states second key = none := by
  let apart (first second : LevelRow) : Prop :=
    first.snapshotId = snapshot.snapshotId → second.snapshotId = snapshot.snapshotId →
      ¬ (first.side = second.side ∧ first.priceScaled = second.priceScaled)
  have symmetric : ∀ {first second}, apart first second → apart second first :=
    fun differ second first same => differ first second ⟨same.1.symm, same.2.symm⟩
  have belongs : ∀ {other : ParsedSnapshot} {side : Side} {level : LevelRow},
      level ∈ other.levelRows side → level.snapshotId = other.snapshotId ∧ level.side = side := by
    intro other side level member
    obtain ⟨_, _, rfl⟩ := List.mem_map.mp member
    exact ⟨rfl, rfl⟩
  have listing : (datasets.snapshots.flatMap fun other =>
      other.levelRows .buy ++ other.levelRows .sell).Pairwise apart := by
    refine List.pairwise_flatMap.mpr ⟨fun other listed => ?_, ?_⟩
    · have side : ∀ side, (other.levelRows side).Pairwise apart := by
        intro side
        by_cases own : other.snapshotId = snapshot.snapshotId
        · obtain rfl := List.inj_on_of_nodup_map recorded.identified listed newest.listed own
          exact List.pairwise_map.mpr ((List.pairwise_map.mp (distinct side)).imp
            fun differ _ _ same => differ same.2)
        · exact List.pairwise_map.mpr (List.pairwise_of_forall fun _ _ same => absurd same own)
      refine List.pairwise_append.mpr ⟨side .buy, side .sell, fun bid isBid ask isAsk _ _ same => ?_⟩
      have sides := (belongs isBid).2.symm.trans (same.1.trans (belongs isAsk).2)
      cases sides
    · refine (List.pairwise_map.mp recorded.identified).imp fun differ => ?_
      intro bid isBid ask isAsk first second
      have ids : ∀ {other : ParsedSnapshot} {level : LevelRow},
          level ∈ other.levelRows .buy ++ other.levelRows .sell →
            level.snapshotId = other.snapshotId := by
        intro other level member
        rcases List.mem_append.mp member with bid | ask
        · exact (belongs bid).1
        · exact (belongs ask).1
      exact absurd ((ids isBid).symm.trans (first.trans (second.symm.trans (ids isAsk)))) differ
  have whole : rows.levels.Pairwise apart := (listing.filter _).perm answered.levels.symm symmetric
  refine (List.pairwise_filter.mpr (whole.imp fun differ first second => ?_))
  intro key said
  refine if_neg fun other => said (if_neg fun own => ?_)
  exact differ (of_decide_eq_true first) (of_decide_eq_true second)
    ⟨own.1.trans other.1.symm, own.2.trans other.2.symm⟩

/-- The ladders the level rows leave are those the snapshot lists. -/
theorem levels_view (distinct : ∀ side, ((snapshot.listed side).map BookLevel.priceScaled).Nodup)
    (side : Side) (price size : ℤ) :
    ladderView (rows.levels.foldl rows.readLevelRow (fun _ _ => ∅) snapshot.tokenId)
        (side, price) = some size ↔
      ∃ level ∈ snapshot.listed side, level.priceScaled = price ∧ level.sizeScaled = size := by
  rw [readLevels_view recorded newest answered, PrunedReplay.foldl_stated_eq_some_iff
    (levels_distinct recorded newest answered distinct) (by simp [ladderView])]
  constructor
  · rintro ⟨row, member, said⟩
    obtain ⟨⟨own, priced⟩, same⟩ := Option.ite_none_right_eq_some.mp said
    obtain rfl := Option.some.inj (Option.some.inj same)
    obtain ⟨listed, id⟩ := List.mem_filter.mp member
    obtain ⟨other, belongs⟩ :=
      (mem_levels recorded newest answered).mp ⟨listed, of_decide_eq_true id⟩
    obtain ⟨level, isLevel, rfl⟩ := List.mem_map.mp belongs
    obtain rfl : other = side := own
    exact ⟨level, isLevel, priced, rfl⟩
  · rintro ⟨level, isLevel, rfl, rfl⟩
    have belongs : (⟨snapshot.snapshotId, side, level.priceScaled, level.sizeScaled⟩ : LevelRow) ∈
        snapshot.levelRows side := List.mem_map.mpr ⟨level, isLevel, rfl⟩
    obtain ⟨listed, id⟩ := (mem_levels recorded newest answered).mpr ⟨side, belongs⟩
    exact ⟨_, List.mem_filter.mpr ⟨listed, decide_eq_true id⟩, if_pos ⟨rfl, rfl⟩⟩

/-- An update row counts for the token when it comes after its newest snapshot. -/
theorem updates_view {updates : List UpdateRow} {final : BookStates}
    (ran : updates.foldlM rows.applyUpdateRow states = .ok final) :
    ladderView (final snapshot.tokenId) =
      (updates.filter (UpdateRow.After snapshot.row)).foldl updateReplay.stated
        (ladderView (states snapshot.tokenId)) := by
  induction updates generalizing states with
  | nil =>
    obtain rfl := Except.pure_eq_ok.mp ran
    rfl
  | cons update rest ih =>
    obtain ⟨next, applied, ran⟩ := Except.bind_eq_ok.mp ran
    rw [ih ran]
    unfold applyUpdateRow at applied
    by_cases own : update.tokenId = snapshot.tokenId
    · rw [own, snapshotForToken_eq recorded newest answered] at applied
      by_cases skipped : update.receivedUtcNs < snapshot.receivedUtcNs ∨
          update.receivedUtcNs = snapshot.receivedUtcNs ∧ update.sequence ≤ snapshot.sequence
      · obtain rfl := Except.ok.inj ((if_pos skipped).symm.trans applied)
        rw [List.filter_cons_of_neg]
        exact fun after => (of_decide_eq_true after).2 skipped
      · obtain rfl := Except.ok.inj ((if_neg skipped).symm.trans applied)
        have after : UpdateRow.After snapshot.row update := ⟨own, skipped⟩
        rw [List.filter_cons_of_pos (by simpa using after), List.foldl_cons, setSide_self]
        congr 1
        exact OrderBook.ladderView_setLevel _ _ _ _
    · have kept : next snapshot.tokenId = states snapshot.tokenId := by
        cases found : rows.snapshotForToken update.tokenId with
        | none =>
          rw [found] at applied
          cases applied
        | some row =>
          rw [found] at applied
          dsimp only at applied
          split at applied
          · obtain rfl := Except.ok.inj applied
            rfl
          · obtain rfl := Except.ok.inj applied
            exact setSide_of_ne states _ _ (Ne.symm own)
      rw [kept, List.filter_cons_of_neg]
      exact fun after => own (of_decide_eq_true after).1

/-- The update rows that count are the later changes, in the order of the query. -/
theorem filter_updates (inSequence : datasets.InSequence atNs snapshot) :
    rows.updates.filter (UpdateRow.After snapshot.row) =
      (datasets.laterChanges atNs snapshot).map ParsedChange.row := by
  have member := row_mem recorded newest answered
  have counts : ∀ change ∈ datasets.updates,
      (decide (UpdateRow.After snapshot.row change.row) &&
        decide (market.Selects atNs change.conditionId change.tokenId change.receivedUtcNs ∧
          ∃ row ∈ rows.snapshots, row.receivedUtcNs ≤ change.receivedUtcNs)) =
      decide (ParsedEvents.After atNs snapshot change) := by
    intro change listed
    rw [← Bool.decide_and, decide_eq_decide]
    constructor
    · rintro ⟨⟨own, passed⟩, ⟨_, reached, _⟩, _⟩
      refine ⟨own, reached, Prod.Lex.toLex_le_toLex.mpr ?_⟩
      change ¬ (change.receivedUtcNs < snapshot.receivedUtcNs ∨
        change.receivedUtcNs = snapshot.receivedUtcNs ∧ change.sequence ≤ snapshot.sequence) at passed
      change snapshot.receivedUtcNs < change.receivedUtcNs ∨
        snapshot.receivedUtcNs = change.receivedUtcNs ∧ snapshot.sequence ≤ change.sequence
      omega
    · intro after
      have apart := (inSequence.apart change (ParsedEvents.mem_laterChanges.mpr ⟨listed, after⟩)).1
      have younger := Prod.Lex.toLex_lt_toLex.mp (lt_of_le_of_ne after.2.2 apart)
      change snapshot.receivedUtcNs < change.receivedUtcNs ∨
        snapshot.receivedUtcNs = change.receivedUtcNs ∧ snapshot.sequence < change.sequence at younger
      refine ⟨⟨after.1, ?_⟩, ⟨(recorded.updates change listed).1, after.2.1,
        (recorded.updates change listed).2⟩, snapshot.row, member, ?_⟩
      · change ¬ (change.receivedUtcNs < snapshot.receivedUtcNs ∨
          change.receivedUtcNs = snapshot.receivedUtcNs ∧ change.sequence ≤ snapshot.sequence)
        omega
      · change snapshot.receivedUtcNs ≤ change.receivedUtcNs
        omega
  have sorted : (datasets.laterChanges atNs snapshot).Perm
      (datasets.updates.filter (ParsedEvents.After atNs snapshot)) :=
    (StableSort.sortByKey_perm _ _).filter _
  have same : (rows.updates.filter (UpdateRow.After snapshot.row)).Perm
      ((datasets.laterChanges atNs snapshot).map ParsedChange.row) := by
    refine (answered.updates.filter _).trans (List.Perm.trans ?_ (sorted.map _).symm)
    rw [List.filter_map, List.filter_filter]
    refine List.Perm.of_eq (congrArg (List.map ParsedChange.row) ?_)
    exact List.filter_congr fun change listed => counts change listed
  have strict : ((datasets.laterChanges atNs snapshot).map ParsedChange.row).Pairwise
      fun first second => first.orderKey < second.orderKey :=
    List.pairwise_map.mpr (inSequence.forward.imp And.right)
  refine same.eq_of_pairwise (fun first second isFirst isSecond before after => ?_)
    (answered.ordered.filter _) (strict.imp le_of_lt)
  by_contra differ
  have symmetric : Std.Symm fun first second : UpdateRow => first.orderKey ≠ second.orderKey :=
    ⟨fun _ _ apart => apart.symm⟩
  have apart := strict.imp fun {_ _} less => ne_of_lt less
  exact apart.forall (same.mem_iff.mp isFirst) isSecond differ (le_antisymm before after)

/-- What the page shows of the token: the listed levels and the later changes at their word. -/
theorem book_view (inSequence : datasets.InSequence atNs snapshot)
    (computed : rows.book = .ok states) :
    ∃ view : Side × ℤ → Option ℤ,
      (∀ side price size, view (side, price) = some size ↔ ∃ level ∈ snapshot.listed side,
        level.priceScaled = price ∧ level.sizeScaled = size) ∧
      ladderView (states snapshot.tokenId) =
        ((datasets.laterChanges atNs snapshot).map ParsedChange.toBookLevelChange).foldl
          ladderReplay.stated view := by
  refine ⟨_, levels_view recorded newest answered inSequence.distinct, ?_⟩
  unfold book at computed
  split at computed
  · cases computed
  rw [updates_view recorded newest answered computed,
    filter_updates recorded newest answered inSequence, List.foldl_map, List.foldl_map]
  rfl

end Newest

end BookRows

namespace ParsedEvents

variable {market : DashboardMarket} {datasets : ParsedEvents} {atNs : ℤ} {snapshot : ParsedSnapshot}

theorem silent_iff {changes : List ParsedChange} {side : Side} {price : ℤ} :
    ladderReplay.Silent (changes.map ParsedChange.toBookLevelChange) (side, price) ↔
      ∀ change ∈ changes, ¬ change.Restates side price := by
  refine List.forall_mem_map.trans (forall_congr' fun change => imp_congr_right fun _ => ?_)
  change ite (_ ∧ _) _ _ = none ↔ _
  by_cases own : change.side = side ∧ change.priceScaled = price
  · rw [if_pos own]
    exact ⟨fun never => absurd never (Option.some_ne_none _), fun never => absurd own never⟩
  · rw [if_neg own]
    exact ⟨fun _ => own, fun _ => rfl⟩

theorem admitted_iff {changes : List ParsedChange} {side : Side} {price : ℤ} :
    ladderReplay.Admitted (changes.map ParsedChange.toBookLevelChange) (side, price) ↔
      ∀ change ∈ changes, change.Admits side price :=
  List.forall_mem_map

/-- The condition in the words of the replay and in those of the stream. -/
theorem unpruned_iff {view kept : Side × ℤ → Option ℤ}
    (shown : ∀ side price size, view (side, price) = some size ↔ ∃ level ∈ snapshot.listed side,
      level.priceScaled = price ∧ level.sizeScaled = size)
    (held : ∀ side price size, kept (side, price) = some size ↔ ∃ level ∈ snapshot.listed side,
      level.priceScaled = price ∧ level.sizeScaled = size ∧ 0 < size) :
    ladderReplay.Unpruned view kept
        ((datasets.laterChanges atNs snapshot).map ParsedChange.toBookLevelChange) ↔
      datasets.Unpruned atNs snapshot := by
  constructor
  · intro unpruned
    constructor
    · intro side level listed silent
      obtain ⟨keeps, admitted⟩ := unpruned.held (side, level.priceScaled) level.sizeScaled
        ((shown side _ _).mpr ⟨level, listed, rfl, rfl⟩) (silent_iff.mpr silent)
      obtain ⟨_, _, _, _, sized⟩ := (held side _ _).mp keeps
      exact ⟨sized, admitted_iff.mp admitted⟩
    · intro earlier change later split sized silent
      refine admitted_iff.mp (unpruned.stated (earlier.map ParsedChange.toBookLevelChange)
        change.toBookLevelChange (later.map ParsedChange.toBookLevelChange)
        (change.side, change.priceScaled) change.newSizeScaled ?_ ?_ (silent_iff.mpr silent))
      · rw [split, List.map_append, List.map_cons]
      · change ite (_ ∧ _) _ _ = _
        rw [if_pos ⟨rfl, rfl⟩, if_neg sized]
  · intro unpruned
    constructor
    · rintro ⟨side, price⟩ size holds silent
      obtain ⟨level, listed, rfl, rfl⟩ := (shown side price size).mp holds
      obtain ⟨sized, admitted⟩ := unpruned.listed side level listed (silent_iff.mp silent)
      exact ⟨(held side _ _).mpr ⟨level, listed, rfl, rfl, sized⟩, admitted_iff.mpr admitted⟩
    · rintro earlier event later ⟨side, price⟩ size split said silent
      obtain ⟨before, rest, all, rfl, behind⟩ := List.map_eq_append_iff.mp split
      obtain ⟨change, after, rfl, rfl, rfl⟩ := List.map_eq_cons_iff.mp behind
      obtain ⟨⟨rfl, rfl⟩, same⟩ := Option.ite_none_right_eq_some.mp said
      have sized : change.newSizeScaled ≠ 0 := fun gone => by
        rw [if_pos gone] at same
        cases same
      exact admitted_iff.mpr
        (unpruned.stated before change after all sized (silent_iff.mp silent))

end ParsedEvents

/-- Where nothing depends on ties and late events, the page shows the reconstructed book exactly
when every level it shows has been left room by the tops reported since its last word. -/
theorem historical_book_iff {market : DashboardMarket} {datasets : ParsedEvents} {atNs : ℤ}
    {rows : BookRows} {states : BookStates} {reconstructor : BookReconstructor}
    {snapshot : ParsedSnapshot} {book : OrderBook}
    (recorded : datasets.OfMarket market) (answered : rows.Answer market datasets atNs)
    (computed : rows.book = .ok states)
    (reconstructed : datasets.reconstructedAt atNs = .ok reconstructor)
    (newest : datasets.Newest atNs snapshot) (inSequence : datasets.InSequence atNs snapshot)
    (stored : reconstructor.books snapshot.tokenId = some book) (valid : book.valid = true) :
    (∀ side, states.depth snapshot.tokenId side = book.levels side) ↔
      datasets.Unpruned atNs snapshot := by
  obtain ⟨view, shown, computes⟩ :=
    BookRows.book_view recorded newest answered inSequence computed
  obtain ⟨kept, held, holds⟩ := ParsedEvents.reconstructed_view recorded newest inSequence
    reconstructed stored valid
  rw [depth_eq_levels_iff, computes, holds, ← ParsedEvents.unpruned_iff shown held]
  refine PrunedReplay.foldl_eq_iff_unpruned fun key size keeps => ?_
  obtain ⟨level, listed, price, sized, _⟩ := (held key.1 key.2 size).mp keeps
  exact (shown key.1 key.2 size).mpr ⟨level, listed, price, sized⟩

/-! ## A reported top that moves -/

namespace SampleBook

def market : DashboardMarket := ⟨"condition", "up", "down"⟩

def snapshot (tokenId snapshotId : String) (sequence : ℤ) (bids asks : List BookLevel) :
    ParsedSnapshot where
  sequence := sequence
  source := "clob_ws"
  conditionId := "condition"
  tokenId := tokenId
  outcome := tokenId
  receivedUtcNs := sequence
  bookHash := none
  tickSizeScaled := 10000
  minimumOrderSizeScaled := 5000000
  bids := bids
  asks := asks
  snapshotId := snapshotId
  runId := "run"
  connectionId := "connection"
  exchangeTimestampNs := none
  receivedMonotonicNs := sequence
  negRisk := false
  rawEventReference := "raw"

def upSnapshot : ParsedSnapshot :=
  snapshot "up" "first" 1 [⟨490000, 7000000⟩, ⟨500000, 5000000⟩] [⟨520000, 3000000⟩]

/-- A new ask level, with the best bid that the message reports beside it. -/
def askChange (reportedBestBidScaled : ℤ) : ParsedChange where
  sequence := 3
  conditionId := "condition"
  tokenId := "up"
  receivedUtcNs := 3
  side := .sell
  priceScaled := 530000
  newSizeScaled := 4000000
  bookHash := none
  reportedBestBidScaled := some reportedBestBidScaled
  reportedBestAskScaled := some 520000
  parentEventId := "event"
  changeIndex := 0
  outcome := "up"
  exchangeTimestampNs := none
  receivedMonotonicNs := 3
  connectionId := "connection"
  rawEventReference := "raw"

def snapshots : List ParsedSnapshot := [upSnapshot, snapshot "down" "second" 2 [] []]

def datasets (reportedBestBidScaled : ℤ) : ParsedEvents where
  snapshots := snapshots
  updates := [askChange reportedBestBidScaled]

def rows : BookRows where
  snapshots := snapshots.map ParsedSnapshot.row
  levels := upSnapshot.levelRows .sell ++ upSnapshot.levelRows .buy
  updates := [(askChange 0).row]

theorem recorded (reportedBestBidScaled : ℤ) : (datasets reportedBestBidScaled).OfMarket market where
  snapshots := by
    change ∀ snapshot ∈ snapshots, _
    decide +kernel
  updates := by simp [datasets, askChange, market]
  identified := by
    change (snapshots.map ParsedSnapshot.snapshotId).Nodup
    decide +kernel

theorem answered (reportedBestBidScaled : ℤ) :
    rows.Answer market (datasets reportedBestBidScaled) 10 where
  newest := by
    change ∀ row ∈ rows.snapshots, ∃ snapshot ∈ snapshots, snapshot.row = row ∧ _ ∧
      ∀ other ∈ snapshots, _
    decide +kernel
  oneEach := by decide +kernel
  complete := by
    change ∀ snapshot ∈ snapshots, _
    decide +kernel
  levels := by
    change rows.levels.Perm ((snapshots.flatMap _).filter _)
    decide +kernel
  updates := by
    change rows.updates.Perm ((List.filter _ [askChange reportedBestBidScaled]).map _)
    rw [List.filter_cons_of_pos]
    · exact List.Perm.refl _
    · refine decide_eq_true ⟨⟨rfl, show (3 : ℤ) ≤ 10 by decide, .inl rfl⟩, upSnapshot.row, ?_,
        show (1 : ℤ) ≤ 3 by decide⟩
      decide +kernel
  ordered := List.pairwise_singleton _ _

end SampleBook

open SampleBook

/-- A bid above the best bid that a message reports stays on the page, and leaves the book. -/
theorem historical_book_keeps_dropped_bid :
    (datasets 490000).OfMarket market ∧ rows.Answer market (datasets 490000) 10 ∧
      ∃ states reconstructor book, rows.book = .ok states ∧
        (datasets 490000).reconstructedAt 10 = .ok reconstructor ∧
        reconstructor.books "up" = some book ∧ book.valid = true ∧
        ¬ ∀ side, states.depth "up" side = book.levels side := by
  have page : rows.book.toOption.map (fun states => states.depth "up" .buy) =
      some [(500000, 5000000), (490000, 7000000)] := by
    decide +kernel
  have reconstruction : ((datasets 490000).reconstructedAt 10).toOption.map
      (fun reconstructor => (reconstructor.books "up").map fun book =>
        (book.valid, book.levels .buy)) = some (some (true, [(490000, 7000000)])) := by
    decide +kernel
  refine ⟨recorded 490000, answered 490000, ?_⟩
  cases computed : rows.book with
  | error e =>
    rw [computed] at page
    cases page
  | ok states =>
  cases reconstructed : (datasets 490000).reconstructedAt 10 with
  | error e =>
    rw [reconstructed] at reconstruction
    cases reconstruction
  | ok reconstructor =>
  rw [computed] at page
  rw [reconstructed] at reconstruction
  obtain ⟨book, stored, held⟩ := Option.map_eq_some_iff.mp (Option.some.inj reconstruction)
  obtain ⟨valid, bids⟩ := Prod.mk.inj held
  refine ⟨states, reconstructor, book, rfl, rfl, stored, valid, fun same => ?_⟩
  have shown := (Option.some.inj page).symm.trans ((same .buy).trans bids)
  exact absurd shown (by decide)

theorem SampleBook.newest (reportedBestBidScaled : ℤ) :
    (datasets reportedBestBidScaled).Newest 10 upSnapshot where
  listed := List.mem_cons_self
  reached := by decide
  newest := by
    change ∀ other ∈ snapshots, _
    decide +kernel

theorem SampleBook.later : (datasets 500000).laterChanges 10 upSnapshot = [askChange 500000] := by
  decide +kernel

theorem SampleBook.inSequence : (datasets 500000).InSequence 10 upSnapshot where
  taken := by
    intro earlier later split
    have past : (datasets 500000).pastEvents 10 = [upSnapshot.replayEvent,
        (snapshot "down" "second" 2 [] []).replayEvent, (askChange 500000).replayEvent] := by
      decide +kernel
    rw [past] at split
    cases earlier with
    | nil => exact ⟨by decide +kernel, by decide +kernel⟩
    | cons first rest =>
      obtain ⟨_, split⟩ := List.cons.inj split
      have again : upSnapshot.replayEvent ∈ [(snapshot "down" "second" 2 [] []).replayEvent,
          (askChange 500000).replayEvent] := split ▸ List.mem_append_right _ List.mem_cons_self
      exact absurd again (by decide +kernel)
  distinct := by
    intro side
    cases side <;> decide +kernel
  apart := by
    rw [SampleBook.later]
    decide +kernel
  forward := by
    rw [SampleBook.later]
    exact List.pairwise_singleton _ _

theorem SampleBook.unpruned : (datasets 500000).Unpruned 10 upSnapshot where
  listed := by
    rw [SampleBook.later]
    intro side level listed _
    cases side with
    | buy =>
      obtain rfl | rfl : level = ⟨490000, 7000000⟩ ∨ level = ⟨500000, 5000000⟩ := by
        simpa [upSnapshot, snapshot, ParsedSnapshot.listed] using listed
      · simp [BookLevelChange.Admits, askChange]
      · simp [BookLevelChange.Admits, askChange]
    | sell =>
      obtain rfl : level = ⟨520000, 3000000⟩ := by
        simpa [upSnapshot, snapshot, ParsedSnapshot.listed] using listed
      simp [BookLevelChange.Admits, askChange, polymarketPriceScale]
  stated := by
    rw [SampleBook.later]
    intro earlier change later split _ _
    obtain ⟨rfl, rfl, rfl⟩ : earlier = [] ∧ change = askChange 500000 ∧ later = [] := by
      cases earlier with
      | nil =>
        obtain ⟨same, rest⟩ := List.cons.inj split
        exact ⟨rfl, same.symm, rest.symm⟩
      | cons first rest => simpa using congrArg List.length split
    simp [BookLevelChange.Admits, askChange, polymarketPriceScale]

/-- A message that reports the standing best bid leaves the page and the book alike. -/
theorem historical_book_iff_steady_bid :
    ∃ states reconstructor book, rows.book = .ok states ∧
      (datasets 500000).reconstructedAt 10 = .ok reconstructor ∧
      reconstructor.books "up" = some book ∧ book.valid = true ∧
      ∀ side, states.depth "up" side = book.levels side := by
  have page : rows.book.toOption.isSome := by decide +kernel
  have reconstruction : ((datasets 500000).reconstructedAt 10).toOption.map
      (fun reconstructor => (reconstructor.books "up").map OrderBook.valid) =
        some (some true) := by
    decide +kernel
  cases computed : rows.book with
  | error e =>
    rw [computed] at page
    cases page
  | ok states =>
  cases reconstructed : (datasets 500000).reconstructedAt 10 with
  | error e =>
    rw [reconstructed] at reconstruction
    cases reconstruction
  | ok reconstructor =>
  rw [reconstructed] at reconstruction
  obtain ⟨book, stored, valid⟩ := Option.map_eq_some_iff.mp (Option.some.inj reconstruction)
  refine ⟨states, reconstructor, book, rfl, rfl, stored, valid, ?_⟩
  exact (historical_book_iff (recorded 500000) (answered 500000) computed reconstructed
    (newest 500000) inSequence stored valid).mpr unpruned

end PolymarketBt
