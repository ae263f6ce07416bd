import PolymarketBt.Model.Tape
import PolymarketBt.Proofs.OrderBook

/-! # What one event does to the reconstructed books

An event reads and writes the book of its own token. The lemmas below say so for each kind of event
and for the builder's rule that a raising event invalidates the book.
-/

namespace PolymarketBt

namespace BookReconstructor

variable {reconstructor : BookReconstructor}

@[simp] theorem setBook_books_self (tokenId : String) (book : OrderBook) :
    (reconstructor.setBook tokenId book).books tokenId = some book := by
  simp [setBook]

theorem setBook_books_of_ne {tokenId other : String} (book : OrderBook) (distinct : other ≠ tokenId) :
    (reconstructor.setBook tokenId book).books other = reconstructor.books other := by
  simp [setBook, distinct]

@[simp] theorem setTick_books (tokenId : String) (tickSizeScaled : ℤ) :
    (reconstructor.setTick tokenId tickSizeScaled).books = reconstructor.books := rfl

theorem effectiveSnapshot_books (reconstructor : BookReconstructor) (snapshot : BookSnapshot) :
    (reconstructor.effectiveSnapshot snapshot).1.books = reconstructor.books := by
  unfold effectiveSnapshot
  split
  · rfl
  · split <;> rfl

/-- The tick rule changes no field of a snapshot but its tick. -/
theorem effectiveSnapshot_snapshot (reconstructor : BookReconstructor) (snapshot : BookSnapshot) :
    ∃ tick, (reconstructor.effectiveSnapshot snapshot).2 =
      { snapshot with tickSizeScaled := tick } := by
  unfold effectiveSnapshot
  split
  · exact ⟨snapshot.tickSizeScaled, rfl⟩
  · split
    · exact ⟨snapshot.tickSizeScaled, rfl⟩
    · exact ⟨_, rfl⟩

/-- Registration leaves a book at the token: the existing one, or a fresh invalid one. -/
theorem register_cases (reconstructor : BookReconstructor) (conditionId tokenId outcome : String) :
    (∃ book, reconstructor.books tokenId = some book ∧
      ((book.conditionId = conditionId ∧ book.outcome = outcome ∧
        reconstructor.register conditionId tokenId outcome = (reconstructor, .ok book)) ∨
      ∃ e, reconstructor.register conditionId tokenId outcome = (reconstructor, .error e))) ∨
    (reconstructor.books tokenId = none ∧
      reconstructor.register conditionId tokenId outcome =
        (reconstructor.setBook tokenId (.init conditionId tokenId outcome),
          .ok (.init conditionId tokenId outcome))) := by
  unfold register
  split
  · next book stored =>
    refine .inl ⟨book, stored, ?_⟩
    split
    · exact .inr ⟨_, rfl⟩
    · next same =>
      simp only [not_or, not_not] at same
      exact .inl ⟨same.1, same.2, rfl⟩
  · next absent => exact .inr ⟨absent, rfl⟩

/-- The book a snapshot is applied to. -/
def bookFor (reconstructor : BookReconstructor) (snapshot : BookSnapshot) : OrderBook :=
  (reconstructor.books snapshot.tokenId).getD
    (.init snapshot.conditionId snapshot.tokenId snapshot.outcome)

/-- A snapshot either fails to register its token and moves no book, or replaces the levels of the
token's book under the tick in force; only the second can succeed. -/
theorem applySnapshot_cases (reconstructor : BookReconstructor) (snapshot : BookSnapshot) :
    (∃ e, (reconstructor.applySnapshot snapshot).2 = .error e ∧
      (reconstructor.applySnapshot snapshot).1.books = reconstructor.books) ∨
    ∃ tick result,
      (reconstructor.bookFor snapshot).replace { snapshot with tickSizeScaled := tick } = result ∧
      (reconstructor.applySnapshot snapshot).1.books =
        Function.update reconstructor.books snapshot.tokenId (some result.1) ∧
      (reconstructor.applySnapshot snapshot).2 = result.2.map fun _ => () := by
  obtain ⟨tick, read⟩ := effectiveSnapshot_snapshot reconstructor snapshot
  have books := effectiveSnapshot_books reconstructor snapshot
  unfold applySnapshot
  rcases effective : reconstructor.effectiveSnapshot snapshot with ⟨ticked, ticketed⟩
  simp only [effective] at read books
  subst ticketed
  dsimp only
  rcases register_cases ticked snapshot.conditionId snapshot.tokenId
      snapshot.outcome with
    ⟨book, stored, ⟨_, _, registered⟩ | ⟨e, registered⟩⟩ | ⟨absent, registered⟩
  · right
    have found : reconstructor.bookFor snapshot = book := by simp [bookFor, ← books, stored]
    refine ⟨tick, _, rfl, ?_⟩
    rw [registered, found]
    rcases replaced : book.replace { snapshot with tickSizeScaled := tick } with ⟨after, result⟩
    cases result <;> simp [setBook, books, replaced, Except.map]
  · left
    refine ⟨e, ?_⟩
    rw [registered]
    exact ⟨rfl, books⟩
  · right
    have found : reconstructor.bookFor snapshot =
        .init snapshot.conditionId snapshot.tokenId snapshot.outcome := by
      simp [bookFor, ← books, absent]
    refine ⟨tick, _, rfl, ?_⟩
    rw [registered, found]
    rcases replaced : (OrderBook.init snapshot.conditionId snapshot.tokenId
      snapshot.outcome).replace { snapshot with tickSizeScaled := tick } with ⟨after, result⟩
    cases result <;> simp [setBook, books, replaced, Except.map]

/-- A tick change keeps every level, and touches no book when its token has none. -/
theorem applyTickSizeChange_cases (reconstructor : BookReconstructor) (change : TickSizeChange) :
    (reconstructor.applyTickSizeChange change).1.books = reconstructor.books ∨
    ∃ book, reconstructor.books change.tokenId = some book ∧
      (reconstructor.applyTickSizeChange change).1.books =
        Function.update reconstructor.books change.tokenId
          (some { book with tickSizeScaled := change.newTickSizeScaled }) := by
  unfold applyTickSizeChange
  split
  · exact .inl rfl
  dsimp only
  split
  · exact .inl rfl
  · next book stored =>
    split
    · exact .inl rfl
    · exact .inr ⟨book, stored, rfl⟩

/-- A level change is refused without a valid book, and is applied to it otherwise. -/
theorem applyChange_cases (reconstructor : BookReconstructor) (change : BookLevelChange) :
    (∃ e, reconstructor.applyChange change = (reconstructor, .error e) ∧
      ∀ book, reconstructor.books change.tokenId = some book → book.valid = false) ∨
    ∃ book, reconstructor.books change.tokenId = some book ∧ book.valid = true ∧
      reconstructor.applyChange change =
        (reconstructor.setBook change.tokenId (book.apply change).1, (book.apply change).2) := by
  unfold applyChange
  split
  · next absent => exact .inl ⟨_, rfl, by simp [absent]⟩
  · next book stored =>
    split
    · next valid => exact .inr ⟨book, stored, valid, rfl⟩
    · next invalid =>
      refine .inl ⟨_, rfl, ?_⟩
      rintro other found
      obtain rfl := Option.some.inj (stored.symm.trans found)
      simpa using invalid

theorem invalidate_books_self {tokenId : String} {book : OrderBook}
    (stored : (reconstructor.invalidate tokenId).books tokenId = some book) : book.valid = false := by
  unfold invalidate at stored
  split at stored
  · next absent =>
    rw [absent] at stored
    cases stored
  · rw [setBook_books_self] at stored
    obtain rfl := Option.some.inj stored
    rfl

/-- How an operation rewrites one book. -/
inductive Writes : OrderBook → OrderBook → Prop
  | replace (book : OrderBook) (snapshot : BookSnapshot) : Writes book (book.replace snapshot).1
  | apply (book : OrderBook) (change : BookLevelChange) : Writes book (book.apply change).1
  | retick (book : OrderBook) (tickSizeScaled : ℤ) :
      Writes book { book with tickSizeScaled := tickSizeScaled }
  | invalidate (book : OrderBook) : Writes book { book with valid := false }

/-- The book an operation finds at a token: the stored one, or a fresh one where there is none. -/
inductive Finds (reconstructor : BookReconstructor) (tokenId : String) : OrderBook → Prop
  | stored {book : OrderBook} (stored : reconstructor.books tokenId = some book) :
      Finds reconstructor tokenId book
  | fresh (absent : reconstructor.books tokenId = none) (conditionId outcome : String) :
      Finds reconstructor tokenId (.init conditionId tokenId outcome)

/-- An operation on a token writes no book, or the book it finds at the token. -/
def WritesAt (reconstructor : BookReconstructor) (tokenId : String) (after : BookReconstructor) :
    Prop :=
  after.books = reconstructor.books ∨
    ∃ found written, reconstructor.Finds tokenId found ∧ Writes found written ∧
      after.books = Function.update reconstructor.books tokenId (some written)

theorem finds_bookFor (reconstructor : BookReconstructor) (snapshot : BookSnapshot) :
    reconstructor.Finds snapshot.tokenId (reconstructor.bookFor snapshot) := by
  unfold bookFor
  cases stored : reconstructor.books snapshot.tokenId with
  | none => exact .fresh stored _ _
  | some book => exact .stored stored

theorem applyEvent_writes (reconstructor : BookReconstructor) (event : BookEvent) :
    reconstructor.WritesAt event.tokenId (reconstructor.applyEvent event).1 := by
  cases event with
  | snapshot snapshot =>
    rcases applySnapshot_cases reconstructor snapshot with
      ⟨e, _, books⟩ | ⟨tick, result, rfl, books, _⟩
    · exact .inl books
    · exact .inr ⟨_, _, finds_bookFor reconstructor snapshot, .replace _ _, books⟩
  | tick change =>
    rcases applyTickSizeChange_cases reconstructor change with
      books | ⟨book, stored, books⟩
    · exact .inl books
    · exact .inr ⟨_, _, .stored stored, .retick book _, books⟩
  | update change =>
    rcases applyChange_cases reconstructor change with
      ⟨e, refused, _⟩ | ⟨book, stored, _, applied⟩
    · exact .inl (congrArg (fun result => result.1.books) refused)
    · exact .inr ⟨_, _, .stored stored, .apply book change,
        congrArg (fun result => result.1.books) applied⟩

theorem invalidate_writes (reconstructor : BookReconstructor) (tokenId : String) :
    reconstructor.WritesAt tokenId (reconstructor.invalidate tokenId) := by
  unfold invalidate
  split
  · exact .inl rfl
  · next book stored => exact .inr ⟨_, _, .stored stored, .invalidate book, rfl⟩

theorem perform_writes (reconstructor : BookReconstructor) (operation : BookOperation) :
    reconstructor.WritesAt operation.tokenId (reconstructor.perform operation).1 := by
  cases operation with
  | event event => exact applyEvent_writes reconstructor event
  | markUncertain tokenId startUtcNs reason firstSequence =>
    exact invalidate_writes reconstructor tokenId

/-- A write keeps the other tokens, and takes no book away. -/
theorem WritesAt.frame {tokenId other : String} {after : BookReconstructor}
    (writes : reconstructor.WritesAt tokenId after) (distinct : other ≠ tokenId) :
    after.books other = reconstructor.books other := by
  rcases writes with books | ⟨found, written, _, _, books⟩
  · exact congrFun books other
  · exact (congrFun books other).trans (Function.update_of_ne distinct _ _)

/-- An event leaves the books of other tokens alone. -/
theorem applyEvent_books_of_ne (reconstructor : BookReconstructor) (event : BookEvent) {other : String}
    (distinct : other ≠ event.tokenId) :
    (reconstructor.applyEvent event).1.books other = reconstructor.books other :=
  (applyEvent_writes reconstructor event).frame distinct

theorem invalidate_books_of_ne {tokenId other : String} (distinct : other ≠ tokenId) :
    (reconstructor.invalidate tokenId).books other = reconstructor.books other :=
  (invalidate_writes reconstructor tokenId).frame distinct

theorem absorb_books_of_ne (event : BookEvent) {other : String} (distinct : other ≠ event.tokenId) :
    (reconstructor.absorb event).books other = reconstructor.books other := by
  have frame := applyEvent_books_of_ne reconstructor event distinct
  unfold absorb
  split
  · next applied _ ran => simpa only [ran] using frame
  · next applied _ raised =>
    rw [invalidate_books_of_ne distinct]
    simpa only [raised] using frame

/-- What becomes of a stored book under a write at some token. -/
theorem WritesAt.stored {tokenId other : String} {after : BookReconstructor} {book : OrderBook}
    (writes : reconstructor.WritesAt tokenId after)
    (stored : reconstructor.books other = some book) :
    after.books other = some book ∨ ∃ written, Writes book written ∧
      after.books other = some written := by
  rcases writes with books | ⟨found, written, finds, wrote, books⟩
  · exact .inl ((congrFun books other).trans stored)
  by_cases same : other = tokenId
  · subst same
    cases finds with
    | stored own =>
      obtain rfl := Option.some.inj (own.symm.trans stored)
      exact .inr ⟨written, wrote, by rw [books, Function.update_self]⟩
    | fresh absent =>
      rw [absent] at stored
      cases stored
  · exact .inl ((congrFun books other).trans ((Function.update_of_ne same _ _).trans stored))

/-- A property of the book of a token that fresh books have and that no write breaks. -/
structure BookInvariant (property : String → OrderBook → Prop) : Prop where
  fresh : ∀ conditionId tokenId outcome, property tokenId (.init conditionId tokenId outcome)
  step : ∀ tokenId before after, Writes before after → property tokenId before →
    property tokenId after

/-- Every reconstructed book has the property. -/
def Books (property : String → OrderBook → Prop) (reconstructor : BookReconstructor) : Prop :=
  ∀ tokenId book, reconstructor.books tokenId = some book → property tokenId book

theorem Books.init {property : String → OrderBook → Prop} :
    Books property BookReconstructor.init := by
  intro tokenId book stored
  cases stored

namespace BookInvariant

variable {property : String → OrderBook → Prop} (invariant : BookInvariant property)
include invariant

theorem found {tokenId : String} {book : OrderBook} (holds : reconstructor.Books property)
    (finds : reconstructor.Finds tokenId book) : property tokenId book := by
  cases finds with
  | stored stored => exact holds _ _ stored
  | fresh absent conditionId outcome => exact invariant.fresh _ _ _

theorem writesAt {tokenId : String} {after : BookReconstructor}
    (holds : reconstructor.Books property) (writes : reconstructor.WritesAt tokenId after) :
    after.Books property := by
  intro other book stored
  rcases writes with books | ⟨found, written, finds, wrote, books⟩
  · exact holds other book ((congrFun books other).symm.trans stored)
  rw [books] at stored
  by_cases same : other = tokenId
  · subst same
    rw [Function.update_self] at stored
    exact Option.some.inj stored ▸ invariant.step _ _ _ wrote (invariant.found holds finds)
  · rw [Function.update_of_ne same] at stored
    exact holds other book stored

theorem absorb (holds : reconstructor.Books property) (event : BookEvent) :
    (reconstructor.absorb event).Books property := by
  have applied := invariant.writesAt holds (applyEvent_writes reconstructor event)
  unfold BookReconstructor.absorb
  split
  · next result _ ran => simpa only [ran] using applied
  · next result _ raised =>
    rw [raised] at applied
    exact invariant.writesAt applied (invalidate_writes _ _)

theorem performAll (holds : reconstructor.Books property) (operations : List BookOperation) :
    (reconstructor.performAll operations).Books property := by
  induction operations generalizing reconstructor with
  | nil => exact holds
  | cons operation rest ih => exact ih (invariant.writesAt holds (perform_writes _ operation))

end BookInvariant

theorem positive_invariant : BookInvariant fun _ book => book.Positive where
  fresh _ _ _ := (OrderBook.positive_iff_every _).mpr (.init _ _ _)
  step tokenId before after writes positive := by
    cases writes with
    | replace snapshot =>
      exact (OrderBook.positive_iff_every _).mpr (OrderBook.replace_every
        OrderBook.stated_positive ((OrderBook.positive_iff_every _).mp positive) snapshot)
    | apply change =>
      exact (OrderBook.positive_iff_every _).mpr (OrderBook.apply_every
        OrderBook.stated_positive ((OrderBook.positive_iff_every _).mp positive) change)
    | retick tick => exact ⟨positive.bids, positive.asks⟩
    | invalidate => exact ⟨positive.bids, positive.asks⟩

/-- Every reconstructed book is positive. -/
def Positive (reconstructor : BookReconstructor) : Prop :=
  ∀ tokenId book, reconstructor.books tokenId = some book → book.Positive

theorem Positive.init : BookReconstructor.init.Positive := Books.init

theorem Positive.applyEvent (positive : reconstructor.Positive) (event : BookEvent) :
    (reconstructor.applyEvent event).1.Positive :=
  positive_invariant.writesAt positive (applyEvent_writes _ event)

theorem Positive.invalidate (positive : reconstructor.Positive) (tokenId : String) :
    (reconstructor.invalidate tokenId).Positive :=
  positive_invariant.writesAt positive (invalidate_writes _ tokenId)

theorem Positive.absorb (positive : reconstructor.Positive) (event : BookEvent) :
    (reconstructor.absorb event).Positive :=
  positive_invariant.absorb positive event

/-- How an event can leave a valid book at its token. -/
inductive LeavesValid (reconstructor : BookReconstructor) : BookEvent → OrderBook → Prop
  /-- A tick change keeps levels and consumption. -/
  | tick {change : TickSizeChange} {book : OrderBook}
      (stored : reconstructor.books change.tokenId = some book) (valid : book.valid = true) :
      LeavesValid reconstructor (.tick change)
        { book with tickSizeScaled := change.newTickSizeScaled }
  /-- A stale event is dropped and the book stays as it was. -/
  | dropped {event : BookEvent} {book : OrderBook}
      (stored : reconstructor.books event.tokenId = some book) (valid : book.valid = true)
      (stale : event.sequence < book.lastSequence) (notTick : event.kind ≠ .tick) :
      LeavesValid reconstructor event book
  /-- A snapshot in sequence frees every level. -/
  | snapshot {snapshot : BookSnapshot} {after : OrderBook}
      (fresh : ∀ book, reconstructor.books snapshot.tokenId = some book →
        book.lastSequence ≤ snapshot.sequence)
      (freed : ∀ side, after.consumed side = fun _ => 0) :
      LeavesValid reconstructor (.snapshot snapshot) after
  /-- A change in sequence frees its own level and states no other. -/
  | update {change : BookLevelChange} {book after : OrderBook}
      (stored : reconstructor.books change.tokenId = some book) (valid : book.valid = true)
      (fresh : book.lastSequence ≤ change.sequence)
      (freed : after.consumed = book.freed change)
      (levels : ∀ side, ∀ level ∈ after.levels side,
        (side = change.side ∧ level.1 = change.priceScaled) ∨ level ∈ book.levels side) :
      LeavesValid reconstructor (.update change) after

/-- A valid book after an event means that the event did not raise, and did one of four things. -/
theorem absorb_valid {event : BookEvent} {after : OrderBook}
    (stored : (reconstructor.absorb event).books event.tokenId = some after)
    (valid : after.valid = true) :
    (reconstructor.applyEvent event).2 = .ok () ∧ LeavesValid reconstructor event after := by
  have accepted : (reconstructor.applyEvent event).2 = .ok () ∧
      (reconstructor.applyEvent event).1.books event.tokenId = some after := by
    unfold absorb at stored
    split at stored
    · next applied result ran => exact ⟨by rw [ran], by rw [ran]; exact stored⟩
    · rw [invalidate_books_self stored] at valid
      cases valid
  obtain ⟨ran, stored⟩ := accepted
  refine ⟨ran, ?_⟩
  cases event with
  | snapshot snapshot =>
    change (reconstructor.applySnapshot snapshot).1.books snapshot.tokenId = some after at stored
    change (reconstructor.applySnapshot snapshot).2 = .ok () at ran
    rcases applySnapshot_cases reconstructor snapshot with
      ⟨e, raised, _⟩ | ⟨tick, result, rfl, books, results⟩
    · rw [raised] at ran
      cases ran
    rw [books, Function.update_self] at stored
    obtain rfl := Option.some.inj stored
    rcases OrderBook.replace_cases (reconstructor.bookFor snapshot)
        { snapshot with tickSizeScaled := tick } with
      ⟨e, raised⟩ | ⟨unchanged, stale⟩ | ⟨_, fresh, _, freed⟩
    · rw [results, raised] at ran
      cases ran
    · rw [unchanged] at valid ⊢
      unfold bookFor at valid stale ⊢
      cases found : reconstructor.books snapshot.tokenId with
      | none =>
        rw [found] at valid
        cases valid
      | some book =>
        rw [found] at valid stale
        exact .dropped found valid stale (by simp [BookEvent.kind])
    · refine .snapshot (fun book found => ?_) freed
      simpa [bookFor, found] using fresh
  | tick change =>
    change (reconstructor.applyTickSizeChange change).1.books change.tokenId = some after at stored
    change (reconstructor.applyTickSizeChange change).2 = .ok () at ran
    unfold applyTickSizeChange at stored ran
    split at stored
    · next refused =>
      rw [if_pos refused] at ran
      cases ran
    next positive =>
    rw [if_neg positive] at ran
    dsimp only at stored ran
    cases found : reconstructor.books change.tokenId with
    | none =>
      simp only [found, setTick_books] at stored
      cases stored
    | some book =>
      simp only [found] at stored ran
      split at stored
      · next mismatch =>
        rw [if_pos mismatch] at ran
        cases ran
      · rw [setBook_books_self] at stored
        obtain rfl := Option.some.inj stored
        exact .tick found valid
  | update change =>
    change (reconstructor.applyChange change).1.books change.tokenId = some after at stored
    change (reconstructor.applyChange change).2 = .ok () at ran
    rcases applyChange_cases reconstructor change with
      ⟨e, refused, _⟩ | ⟨book, found, bookValid, applied⟩
    · rw [refused] at ran
      cases ran
    rw [applied] at stored ran
    rw [setBook_books_self] at stored
    obtain rfl := Option.some.inj stored
    rcases OrderBook.apply_cases book change with
      ⟨e, raised⟩ | ⟨unchanged, stale⟩ | ⟨_, fresh, freed, levels⟩
    · rw [show (book.apply change).2 = _ from raised] at ran
      cases ran
    · rw [unchanged]
      exact .dropped found bookValid stale (by simp [BookEvent.kind])
    · exact .update found bookValid fresh freed levels

/-! ## Reconstruction up to consumption -/

/-- Every book without its overlay. -/
def strip (reconstructor : BookReconstructor) : BookReconstructor :=
  { reconstructor with books := fun tokenId => (reconstructor.books tokenId).map OrderBook.strip }

@[simp] theorem strip_strip (reconstructor : BookReconstructor) :
    reconstructor.strip.strip = reconstructor.strip := by
  simp only [strip, Option.map_map]
  rfl

theorem strip_setBook (reconstructor : BookReconstructor) (tokenId : String) (book : OrderBook) :
    (reconstructor.setBook tokenId book).strip = reconstructor.strip.setBook tokenId book.strip := by
  simp only [strip, setBook, BookReconstructor.mk.injEq, and_true]
  funext other
  by_cases same : other = tokenId
  · subst same
    simp
  · simp [same]

theorem setBook_strip_congr {first second : BookReconstructor} (same : first.strip = second.strip)
    (tokenId : String) {left right : OrderBook} (books : left.strip = right.strip) :
    (first.setBook tokenId left).strip = (second.setBook tokenId right).strip := by
  rw [strip_setBook, strip_setBook, same, books]

theorem strip_effectiveSnapshot (snapshot : BookSnapshot) :
    reconstructor.strip.effectiveSnapshot snapshot =
      ((reconstructor.effectiveSnapshot snapshot).1.strip,
        (reconstructor.effectiveSnapshot snapshot).2) := by
  unfold effectiveSnapshot
  rw [show reconstructor.strip.effectiveTickSizes = reconstructor.effectiveTickSizes from rfl]
  split
  · rfl
  · split <;> rfl

theorem strip_register (conditionId tokenId outcome : String) :
    reconstructor.strip.register conditionId tokenId outcome =
      ((reconstructor.register conditionId tokenId outcome).1.strip,
        (reconstructor.register conditionId tokenId outcome).2.map OrderBook.strip) := by
  unfold register
  cases stored : reconstructor.books tokenId with
  | none =>
    have absent : reconstructor.strip.books tokenId = none := by simp [strip, stored]
    simp only [absent, Except.map]
    rw [strip_setBook]
    rfl
  | some book =>
    have found : reconstructor.strip.books tokenId = some book.strip := by simp [strip, stored]
    simp only [found]
    by_cases moved : book.conditionId ≠ conditionId ∨ book.outcome ≠ outcome
    · rw [if_pos moved, if_pos (show book.strip.conditionId ≠ conditionId ∨
        book.strip.outcome ≠ outcome from moved)]
      rfl
    · rw [if_neg moved, if_neg (show ¬ (book.strip.conditionId ≠ conditionId ∨
        book.strip.outcome ≠ outcome) from moved)]
      rfl

theorem strip_applySnapshot (reconstructor : BookReconstructor) (snapshot : BookSnapshot) :
    (reconstructor.strip.applySnapshot snapshot).2 = (reconstructor.applySnapshot snapshot).2 ∧
      (reconstructor.strip.applySnapshot snapshot).1.strip =
        (reconstructor.applySnapshot snapshot).1.strip := by
  unfold applySnapshot
  rw [strip_effectiveSnapshot]
  rcases reconstructor.effectiveSnapshot snapshot with ⟨ticked, snapshot⟩
  dsimp only
  rw [strip_register]
  rcases ticked.register snapshot.conditionId snapshot.tokenId snapshot.outcome with
    ⟨registered, e | book⟩
  · exact ⟨rfl, strip_strip _⟩
  · obtain ⟨results, books⟩ := book.strip_replace snapshot
    simp only [Except.map]
    rcases stripped : book.strip.replace snapshot with ⟨left, leftResult⟩
    rcases plain : book.replace snapshot with ⟨right, rightResult⟩
    rw [stripped, plain] at results books
    obtain rfl : leftResult = rightResult := results
    have stripped := setBook_strip_congr (strip_strip registered) snapshot.tokenId books
    cases leftResult with
    | error e => exact ⟨rfl, stripped⟩
    | ok replaced =>
      refine ⟨rfl, ?_⟩
      have uncertain := congrArg (fun r : BookReconstructor => ({ r with
        uncertainty := (closeLatest snapshot registered.uncertainty.reverse).reverse } :
          BookReconstructor)) stripped
      exact uncertain

theorem strip_applyTickSizeChange (reconstructor : BookReconstructor) (change : TickSizeChange) :
    (reconstructor.strip.applyTickSizeChange change).2 =
        (reconstructor.applyTickSizeChange change).2 ∧
      (reconstructor.strip.applyTickSizeChange change).1.strip =
        (reconstructor.applyTickSizeChange change).1.strip := by
  unfold applyTickSizeChange
  split
  · exact ⟨rfl, strip_strip _⟩
  have ticked : (reconstructor.strip.setTick change.tokenId change.newTickSizeScaled).strip =
      (reconstructor.setTick change.tokenId change.newTickSizeScaled).strip := by
    have same := strip_strip reconstructor
    exact congrArg (fun r : BookReconstructor =>
      r.setTick change.tokenId change.newTickSizeScaled) same
  cases stored : reconstructor.books change.tokenId with
  | none =>
    simp only [strip, stored, Option.map_none]
    exact ⟨trivial, ticked⟩
  | some book =>
    have found : reconstructor.strip.books change.tokenId = some book.strip := by
      simp [strip, stored]
    simp only [found]
    change (if book.conditionId ≠ change.conditionId then _ else _ :
      BookReconstructor × Except PyError Unit).2 = _ ∧ _
    split
    · next mismatch =>
      rw [if_pos (show book.strip.conditionId ≠ change.conditionId from mismatch)]
      exact ⟨rfl, ticked⟩
    · next matched =>
      rw [if_neg (show ¬ book.strip.conditionId ≠ change.conditionId from matched)]
      exact ⟨rfl, setBook_strip_congr ticked change.tokenId rfl⟩

theorem strip_applyChange (reconstructor : BookReconstructor) (change : BookLevelChange) :
    (reconstructor.strip.applyChange change).2 = (reconstructor.applyChange change).2 ∧
      (reconstructor.strip.applyChange change).1.strip =
        (reconstructor.applyChange change).1.strip := by
  unfold applyChange
  cases stored : reconstructor.books change.tokenId with
  | none =>
    simp only [strip, stored, Option.map_none]
    exact ⟨trivial, strip_strip reconstructor⟩
  | some book =>
    have found : reconstructor.strip.books change.tokenId = some book.strip := by
      simp [strip, stored]
    simp only [found]
    by_cases valid : book.valid = true
    · rw [if_pos (show book.strip.valid = true from valid), if_pos valid]
      exact ⟨(book.strip_apply change).1,
        setBook_strip_congr (strip_strip _) change.tokenId (book.strip_apply change).2⟩
    · rw [if_neg (show ¬ book.strip.valid = true from valid), if_neg valid]
      exact ⟨rfl, strip_strip _⟩

/-- Fills recorded in the books change neither what an event does nor whether it raises. -/
theorem strip_applyEvent (reconstructor : BookReconstructor) (event : BookEvent) :
    (reconstructor.strip.applyEvent event).2 = (reconstructor.applyEvent event).2 ∧
      (reconstructor.strip.applyEvent event).1.strip = (reconstructor.applyEvent event).1.strip := by
  cases event with
  | snapshot snapshot => exact strip_applySnapshot reconstructor snapshot
  | tick change => exact strip_applyTickSizeChange reconstructor change
  | update change => exact strip_applyChange reconstructor change

theorem applyEvent_strip_congr {first second : BookReconstructor} (same : first.strip = second.strip)
    (event : BookEvent) :
    (first.applyEvent event).2 = (second.applyEvent event).2 ∧
      (first.applyEvent event).1.strip = (second.applyEvent event).1.strip := by
  have left := strip_applyEvent first event
  have right := strip_applyEvent second event
  rw [same] at left
  exact ⟨left.1.symm.trans right.1, left.2.symm.trans right.2⟩

theorem invalidate_strip_congr {first second : BookReconstructor} (same : first.strip = second.strip)
    (tokenId : String) : (first.invalidate tokenId).strip = (second.invalidate tokenId).strip := by
  have books := congrFun (congrArg BookReconstructor.books same) tokenId
  simp only [strip] at books
  unfold invalidate
  cases left : first.books tokenId with
  | none =>
    cases right : second.books tokenId with
    | none => exact same
    | some book => simp [left, right] at books
  | some leftBook =>
    cases right : second.books tokenId with
    | none => simp [left, right] at books
    | some rightBook =>
      simp only [left, right, Option.map_some, Option.some.injEq] at books
      exact setBook_strip_congr same tokenId
        (congrArg (fun book : OrderBook => ({ book with valid := false } : OrderBook)) books)

theorem absorb_strip_congr {first second : BookReconstructor} (same : first.strip = second.strip)
    (event : BookEvent) : (first.absorb event).strip = (second.absorb event).strip := by
  obtain ⟨results, stripped⟩ := applyEvent_strip_congr same event
  unfold absorb
  rcases leftRun : first.applyEvent event with ⟨left, leftResult⟩
  rcases rightRun : second.applyEvent event with ⟨right, rightResult⟩
  rw [leftRun, rightRun] at results stripped
  obtain rfl : leftResult = rightResult := results
  cases leftResult with
  | error e => exact invalidate_strip_congr stripped event.tokenId
  | ok result => exact stripped

/-! ## Locality -/

/-- The reconstructors agree on the book and the tick size of a token. -/
structure SameAt (tokenId : String) (first second : BookReconstructor) : Prop where
  books : first.books tokenId = second.books tokenId
  ticks : first.effectiveTickSizes tokenId = second.effectiveTickSizes tokenId

namespace SameAt

variable {tokenId : String} {first second third : BookReconstructor}

theorem refl (tokenId : String) (reconstructor : BookReconstructor) :
    SameAt tokenId reconstructor reconstructor := ⟨rfl, rfl⟩

theorem trans (same : SameAt tokenId first second) (other : SameAt tokenId second third) :
    SameAt tokenId first third :=
  ⟨same.books.trans other.books, same.ticks.trans other.ticks⟩

theorem symm (same : SameAt tokenId first second) : SameAt tokenId second first :=
  ⟨same.books.symm, same.ticks.symm⟩

theorem setBook (same : SameAt tokenId first second) (other : String) (book : OrderBook) :
    SameAt tokenId (first.setBook other book) (second.setBook other book) := by
  refine ⟨?_, same.ticks⟩
  by_cases own : tokenId = other
  · subst own
    simp
  · rw [setBook_books_of_ne book own, setBook_books_of_ne book own, same.books]

theorem setTick (same : SameAt tokenId first second) (other : String) (tickSizeScaled : ℤ) :
    SameAt tokenId (first.setTick other tickSizeScaled) (second.setTick other tickSizeScaled) := by
  refine ⟨same.books, ?_⟩
  unfold BookReconstructor.setTick
  by_cases own : tokenId = other
  · subst own
    simp
  · simpa [own] using same.ticks

theorem invalidate (same : SameAt tokenId first second) :
    SameAt tokenId (first.invalidate tokenId) (second.invalidate tokenId) := by
  unfold BookReconstructor.invalidate
  rw [← same.books]
  cases first.books tokenId with
  | none => exact same
  | some book => exact same.setBook tokenId _

theorem effectiveSnapshot {snapshot : BookSnapshot}
    (same : SameAt snapshot.tokenId first second) :
    SameAt snapshot.tokenId (first.effectiveSnapshot snapshot).1
        (second.effectiveSnapshot snapshot).1 ∧
      (first.effectiveSnapshot snapshot).2 = (second.effectiveSnapshot snapshot).2 := by
  unfold BookReconstructor.effectiveSnapshot
  rw [← same.ticks]
  split
  · exact ⟨same.setTick _ _, rfl⟩
  · split
    · exact ⟨same.setTick _ _, rfl⟩
    · exact ⟨same, rfl⟩

theorem register (same : SameAt tokenId first second) (conditionId outcome : String) :
    SameAt tokenId (first.register conditionId tokenId outcome).1
        (second.register conditionId tokenId outcome).1 ∧
      (first.register conditionId tokenId outcome).2 =
        (second.register conditionId tokenId outcome).2 := by
  unfold BookReconstructor.register
  rw [← same.books]
  split
  · split
    · exact ⟨same, rfl⟩
    · exact ⟨same, rfl⟩
  · exact ⟨same.setBook _ _, rfl⟩

theorem applySnapshot {snapshot : BookSnapshot} (same : SameAt snapshot.tokenId first second) :
    SameAt snapshot.tokenId (first.applySnapshot snapshot).1 (second.applySnapshot snapshot).1 ∧
      (first.applySnapshot snapshot).2 = (second.applySnapshot snapshot).2 := by
  obtain ⟨ticked, snapshots⟩ := same.effectiveSnapshot
  obtain ⟨tick, read⟩ := effectiveSnapshot_snapshot first snapshot
  unfold BookReconstructor.applySnapshot
  generalize first.effectiveSnapshot snapshot = leftEffective at ticked snapshots read ⊢
  generalize second.effectiveSnapshot snapshot = rightEffective at ticked snapshots ⊢
  rcases leftEffective with ⟨left, used⟩
  rcases rightEffective with ⟨right, usedToo⟩
  obtain rfl : used = usedToo := snapshots
  obtain rfl : used = _ := read
  obtain ⟨registered, results⟩ := ticked.register snapshot.conditionId snapshot.outcome
  dsimp only at registered results ⊢
  generalize left.register snapshot.conditionId snapshot.tokenId snapshot.outcome = leftRun
    at registered results ⊢
  generalize right.register snapshot.conditionId snapshot.tokenId snapshot.outcome = rightRun
    at registered results ⊢
  rcases leftRun with ⟨left, found⟩
  rcases rightRun with ⟨right, foundToo⟩
  obtain rfl : found = foundToo := results
  cases found with
  | error e => exact ⟨registered, rfl⟩
  | ok book =>
    dsimp only
    rcases book.replace { snapshot with tickSizeScaled := tick } with ⟨replaced, e | done⟩
    · exact ⟨registered.setBook _ _, rfl⟩
    · exact ⟨⟨(registered.setBook _ _).books, (registered.setBook snapshot.tokenId replaced).ticks⟩,
        rfl⟩

theorem applyTickSizeChange {change : TickSizeChange} (same : SameAt change.tokenId first second) :
    SameAt change.tokenId (first.applyTickSizeChange change).1
        (second.applyTickSizeChange change).1 ∧
      (first.applyTickSizeChange change).2 = (second.applyTickSizeChange change).2 := by
  unfold BookReconstructor.applyTickSizeChange
  rw [← same.books]
  split
  · exact ⟨same, rfl⟩
  dsimp only
  split
  · exact ⟨same.setTick _ _, rfl⟩
  · split
    · exact ⟨same.setTick _ _, rfl⟩
    · exact ⟨(same.setTick _ _).setBook _ _, rfl⟩

theorem applyChange {change : BookLevelChange} (same : SameAt change.tokenId first second) :
    SameAt change.tokenId (first.applyChange change).1 (second.applyChange change).1 ∧
      (first.applyChange change).2 = (second.applyChange change).2 := by
  unfold BookReconstructor.applyChange
  rw [← same.books]
  dsimp only
  split
  · exact ⟨same, rfl⟩
  · split
    · exact ⟨same.setBook _ _, rfl⟩
    · exact ⟨same, rfl⟩

/-- An event reads nothing but the book and the tick size of its own token. -/
theorem absorb {event : BookEvent} (same : SameAt event.tokenId first second) :
    SameAt event.tokenId (first.absorb event) (second.absorb event) := by
  have applied : SameAt event.tokenId (first.applyEvent event).1 (second.applyEvent event).1 ∧
      (first.applyEvent event).2 = (second.applyEvent event).2 := by
    cases event with
    | snapshot snapshot => exact same.applySnapshot
    | tick change => exact same.applyTickSizeChange
    | update change => exact same.applyChange
  unfold BookReconstructor.absorb
  generalize first.applyEvent event = leftRun at applied ⊢
  generalize second.applyEvent event = rightRun at applied ⊢
  rcases leftRun with ⟨left, result⟩
  rcases rightRun with ⟨right, resultToo⟩
  obtain ⟨kept, results⟩ := applied
  obtain rfl : result = resultToo := results
  cases result with
  | error e => exact kept.invalidate
  | ok done => exact kept

end SameAt

theorem effectiveSnapshot_ticks_of_ne (snapshot : BookSnapshot) {other : String}
    (distinct : other ≠ snapshot.tokenId) :
    (reconstructor.effectiveSnapshot snapshot).1.effectiveTickSizes other =
      reconstructor.effectiveTickSizes other := by
  unfold effectiveSnapshot
  split
  · simp [setTick, distinct]
  · split
    · simp [setTick, distinct]
    · rfl

theorem register_ticks (reconstructor : BookReconstructor) (conditionId tokenId outcome : String) :
    (reconstructor.register conditionId tokenId outcome).1.effectiveTickSizes =
      reconstructor.effectiveTickSizes := by
  unfold register
  split
  · split <;> rfl
  · rfl

theorem applyEvent_ticks_of_ne (reconstructor : BookReconstructor) (event : BookEvent) {other : String}
    (distinct : other ≠ event.tokenId) :
    (reconstructor.applyEvent event).1.effectiveTickSizes other =
      reconstructor.effectiveTickSizes other := by
  cases event with
  | snapshot snapshot =>
    refine Eq.trans ?_ (effectiveSnapshot_ticks_of_ne snapshot distinct)
    change (reconstructor.applySnapshot snapshot).1.effectiveTickSizes other = _
    unfold applySnapshot
    generalize reconstructor.effectiveSnapshot snapshot = effective
    rcases effective with ⟨ticked, used⟩
    dsimp only
    rw [← ticked.register_ticks used.conditionId used.tokenId used.outcome]
    rcases ticked.register used.conditionId used.tokenId used.outcome with ⟨registered, e | book⟩
    · rfl
    · dsimp only
      rcases book.replace used with ⟨replaced, e | done⟩
      · rfl
      · rfl
  | tick change =>
    change (reconstructor.applyTickSizeChange change).1.effectiveTickSizes other = _
    unfold applyTickSizeChange
    have ticked : (reconstructor.setTick change.tokenId
        change.newTickSizeScaled).effectiveTickSizes other =
          reconstructor.effectiveTickSizes other := by
      have apart : other ≠ change.tokenId := distinct
      simp [setTick, apart]
    split
    · rfl
    dsimp only
    split
    · exact ticked
    · split
      · exact ticked
      · exact ticked
  | update change =>
    change (reconstructor.applyChange change).1.effectiveTickSizes other = _
    unfold applyChange
    dsimp only
    split
    · rfl
    · split <;> rfl

/-- An event leaves the book and the tick size of every other token alone. -/
theorem absorb_sameAt_of_ne (event : BookEvent) {other : String}
    (distinct : other ≠ event.tokenId) : SameAt other (reconstructor.absorb event) reconstructor := by
  refine ⟨absorb_books_of_ne event distinct, ?_⟩
  rw [← applyEvent_ticks_of_ne reconstructor event distinct]
  unfold absorb
  rcases reconstructor.applyEvent event with ⟨applied, e | done⟩
  · unfold invalidate
    dsimp only
    split <;> rfl
  · rfl

/-- What a run of events leaves at a token depends on the events of that token alone. -/
theorem absorbAll_sameAt {tokenId : String} {first second : BookReconstructor}
    (same : SameAt tokenId first second) (events : List BookEvent) :
    SameAt tokenId (first.absorbAll events)
      (second.absorbAll (events.filter fun event => event.tokenId = tokenId)) := by
  induction events generalizing first second with
  | nil => exact same
  | cons event rest ih =>
    rw [List.filter_cons]
    by_cases own : event.tokenId = tokenId
    · subst own
      rw [if_pos (by simp)]
      exact ih same.absorb
    · rw [if_neg (by simpa using own)]
      exact ih ((absorb_sameAt_of_ne event fun equal => own equal.symm).trans same)

end BookReconstructor

end PolymarketBt
