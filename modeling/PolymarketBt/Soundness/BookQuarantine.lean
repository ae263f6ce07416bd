import PolymarketBt.Proofs.Reconstructor

/-! # What a valid book promises

A failed update leaves its ladder half changed, so a book is trusted only while it is valid. Over
any run of the reconstructor's operations a valid book holds levels inside the price range and an
uncrossed top, its sequence never goes back, and only a snapshot in sequence ends a quarantine.
-/

namespace PolymarketBt

/-- The levels of any book passed their checks; the top is checked where the book is valid. -/
structure OrderBook.Sound (book : OrderBook) : Prop where
  ranged : book.Every fun price size => 0 < price ∧ price < priceMaxScaled ∧ 0 < size
  uncrossed : book.valid = true → validateCross book.bestBid book.bestAsk = []

theorem validateCross_eq_nil {bid ask : ℤ} (clean : validateCross (some bid) (some ask) = []) :
    bid < ask := by
  unfold validateCross at clean
  dsimp only at clean
  split at clean
  · cases clean
  · next below => exact not_le.mp below

namespace OrderBook

theorem stated_ranged : Stated fun price size => 0 < price ∧ price < priceMaxScaled ∧ 0 < size :=
  fun _ _ _ clean sized => ⟨(validateLevel_eq_nil clean).1, (validateLevel_eq_nil clean).2.1, sized⟩

theorem Sound.replace {book : OrderBook} (sound : book.Sound) (snapshot : BookSnapshot) :
    (book.replace snapshot).1.Sound := by
  refine ⟨replace_every stated_ranged sound.ranged snapshot, fun valid => ?_⟩
  rcases replace_accepted book snapshot with
    ⟨e, _, kept | kept⟩ | ⟨unchanged, _⟩ | ⟨_, _, clean, _⟩
  · rw [kept] at valid ⊢
    exact sound.uncrossed valid
  · rw [kept] at valid
    cases valid
  · rw [unchanged] at valid ⊢
    exact sound.uncrossed valid
  · exact clean

theorem Sound.apply {book : OrderBook} (sound : book.Sound) (change : BookLevelChange) :
    (book.apply change).1.Sound := by
  refine ⟨apply_every stated_ranged sound.ranged change, fun valid => ?_⟩
  rcases apply_accepted book change with
    ⟨e, _, kept | ⟨invalid, _⟩⟩ | ⟨unchanged, _⟩ | ⟨_, _, clean, _⟩
  · rw [kept] at valid ⊢
    exact sound.uncrossed valid
  · rw [invalid] at valid
    cases valid
  · rw [unchanged] at valid ⊢
    exact sound.uncrossed valid
  · simp only [topIssues, List.append_eq_nil_iff] at clean
    exact clean.1.1

/-- An accepted change leaves the tops that it reports. -/
theorem apply_tops {book : OrderBook} {change : BookLevelChange}
    (ran : (book.apply change).2 = .ok ()) (fresh : book.lastSequence ≤ change.sequence) :
    (∀ reported, change.reportedBestBidScaled = some reported →
      (book.apply change).1.bestBid = if reported = 0 then none else some reported) ∧
    (∀ reported, change.reportedBestAskScaled = some reported →
      (book.apply change).1.bestAsk =
        if reported = polymarketPriceScale then none else some reported) := by
  rcases apply_accepted book change with ⟨e, raised, _⟩ | ⟨_, stale⟩ | ⟨_, _, clean, _⟩
  · rw [raised] at ran
    cases ran
  · omega
  · simp only [topIssues, List.append_eq_nil_iff] at clean
    constructor
    · intro reported stated
      exact topMismatch_eq_nil (stated ▸ clean.1.2)
    · intro reported stated
      exact topMismatch_eq_nil (stated ▸ clean.2)

end OrderBook

namespace BookReconstructor

variable {reconstructor : BookReconstructor}

theorem sound_invariant : BookInvariant fun _ book => book.Sound where
  fresh _ _ _ := ⟨.init _ _ _, fun valid => nomatch valid⟩
  step tokenId before after writes sound := by
    cases writes with
    | replace snapshot => exact sound.replace snapshot
    | apply change => exact sound.apply change
    | retick tick => exact ⟨⟨sound.ranged.bids, sound.ranged.asks⟩, sound.uncrossed⟩
    | invalidate => exact ⟨⟨sound.ranged.bids, sound.ranged.asks⟩, fun valid => nomatch valid⟩

theorem Writes.lastSequence_le {before after : OrderBook} (writes : Writes before after) :
    before.lastSequence ≤ after.lastSequence := by
  cases writes with
  | replace snapshot => exact OrderBook.replace_lastSequence_le before snapshot
  | apply change => exact OrderBook.apply_lastSequence_le before change
  | retick tick => exact le_rfl
  | invalidate => exact le_rfl

/-- An operation never takes a book away or its sequence back. -/
theorem perform_lastSequence_le {operation : BookOperation} {tokenId : String} {book : OrderBook}
    (stored : reconstructor.books tokenId = some book) :
    ∃ after, (reconstructor.perform operation).1.books tokenId = some after ∧
      book.lastSequence ≤ after.lastSequence := by
  rcases (perform_writes reconstructor operation).stored stored with
    kept | ⟨after, writes, written⟩
  · exact ⟨book, kept, le_rfl⟩
  · exact ⟨after, written, writes.lastSequence_le⟩

theorem performAll_append (earlier later : List BookOperation) :
    reconstructor.performAll (earlier ++ later) =
      (reconstructor.performAll earlier).performAll later :=
  List.foldl_append

theorem performAll_lastSequence_le (operations : List BookOperation) {tokenId : String}
    {book : OrderBook} (stored : reconstructor.books tokenId = some book) :
    ∃ after, (reconstructor.performAll operations).books tokenId = some after ∧
      book.lastSequence ≤ after.lastSequence := by
  induction operations generalizing reconstructor book with
  | nil => exact ⟨book, stored, le_rfl⟩
  | cons operation rest ih =>
    obtain ⟨next, found, step⟩ := perform_lastSequence_le stored
    obtain ⟨after, kept, run⟩ := ih found
    exact ⟨after, kept, step.trans run⟩

/-- The book of a token is out of quarantine. -/
def Valid (reconstructor : BookReconstructor) (tokenId : String) : Prop :=
  ∃ book, reconstructor.books tokenId = some book ∧ book.valid = true

/-- Only a snapshot that is accepted in sequence makes a book valid again. -/
theorem perform_recovers {operation : BookOperation} {tokenId : String}
    (invalid : ¬ reconstructor.Valid tokenId)
    (valid : (reconstructor.perform operation).1.Valid tokenId) :
    ∃ snapshot, operation = .event (.snapshot snapshot) ∧ snapshot.tokenId = tokenId ∧
      (reconstructor.applySnapshot snapshot).2 = .ok () ∧
      (reconstructor.bookFor snapshot).lastSequence ≤ snapshot.sequence := by
  obtain ⟨after, stored, sound⟩ := valid
  cases operation with
  | markUncertain marked startUtcNs reason firstSequence =>
    change (reconstructor.invalidate marked).books tokenId = some after at stored
    by_cases own : tokenId = marked
    · subst own
      rw [invalidate_books_self stored] at sound
      cases sound
    · rw [invalidate_books_of_ne own] at stored
      exact absurd ⟨after, stored, sound⟩ invalid
  | event event =>
    change (reconstructor.applyEvent event).1.books tokenId = some after at stored
    by_cases own : tokenId = event.tokenId
    · subst own
      cases event with
      | snapshot snapshot =>
        change (reconstructor.applySnapshot snapshot).1.books snapshot.tokenId = some after at stored
        refine ⟨snapshot, rfl, rfl, ?_⟩
        rcases applySnapshot_cases reconstructor snapshot with
          ⟨e, _, books⟩ | ⟨tick, result, rfl, books, results⟩
        · rw [books] at stored
          exact absurd ⟨after, stored, sound⟩ invalid
        rw [books, Function.update_self] at stored
        obtain rfl := Option.some.inj stored
        have fresh : (reconstructor.bookFor snapshot).valid = false := by
          unfold bookFor
          cases found : reconstructor.books snapshot.tokenId with
          | none => rfl
          | some book =>
            exact Bool.eq_false_iff.mpr fun kept => invalid ⟨book, found, kept⟩
        rcases OrderBook.replace_accepted (reconstructor.bookFor snapshot)
            { snapshot with tickSizeScaled := tick } with
          ⟨e, _, kept | kept⟩ | ⟨unchanged, _⟩ | ⟨replaced, inSequence, _⟩
        · rw [kept, fresh] at sound
          cases sound
        · rw [kept] at sound
          cases sound
        · rw [unchanged, fresh] at sound
          cases sound
        · exact ⟨by rw [results, replaced]; rfl, inSequence⟩
      | tick change =>
        change (reconstructor.applyTickSizeChange change).1.books change.tokenId = some after at stored
        rcases applyTickSizeChange_cases reconstructor change with books | ⟨book, found, books⟩
        · rw [books] at stored
          exact absurd ⟨after, stored, sound⟩ invalid
        · rw [books, Function.update_self] at stored
          obtain rfl := Option.some.inj stored
          exact absurd ⟨book, found, sound⟩ invalid
      | update change =>
        change (reconstructor.applyChange change).1.books change.tokenId = some after at stored
        rcases applyChange_cases reconstructor change with
          ⟨e, refused, _⟩ | ⟨book, found, kept, _⟩
        · rw [refused] at stored
          exact absurd ⟨after, stored, sound⟩ invalid
        · exact absurd ⟨book, found, kept⟩ invalid
    · rw [applyEvent_books_of_ne reconstructor event own] at stored
      exact absurd ⟨after, stored, sound⟩ invalid

/-- Every run keeps its valid books sound: their levels lie inside the price range and their top is
not crossed, no sequence goes back, an accepted change leaves the tops it reports, and a quarantine
ends only with a snapshot that is accepted in sequence. -/
theorem performAll_valid_books (earlier : List BookOperation) (operation : BookOperation)
    (later : List BookOperation) :
    let before := init.performAll earlier
    let after := init.performAll (earlier ++ [operation])
    let final := init.performAll (earlier ++ [operation] ++ later)
    (∀ tokenId book, after.books tokenId = some book → book.valid = true →
      (∀ side, ∀ level ∈ book.levels side,
        0 < level.1 ∧ level.1 < 1000000 ∧ 0 < level.2) ∧
      ∀ bid ask, book.bestBid = some bid → book.bestAsk = some ask → bid < ask) ∧
    (∀ tokenId book, before.books tokenId = some book →
      ∃ kept, final.books tokenId = some kept ∧ book.lastSequence ≤ kept.lastSequence) ∧
    (∀ change book, operation = .event (.update change) →
      (before.applyChange change).2 = .ok () →
      before.books change.tokenId = some book → book.lastSequence ≤ change.sequence →
      ∃ changed, after.books change.tokenId = some changed ∧
        (∀ reported, change.reportedBestBidScaled = some reported →
          changed.bestBid = if reported = 0 then none else some reported) ∧
        ∀ reported, change.reportedBestAskScaled = some reported →
          changed.bestAsk = if reported = 1000000 then none else some reported) ∧
    ∀ tokenId, ¬ before.Valid tokenId → after.Valid tokenId →
      ∃ snapshot, operation = .event (.snapshot snapshot) ∧ snapshot.tokenId = tokenId ∧
        (before.applySnapshot snapshot).2 = .ok () ∧
        (before.bookFor snapshot).lastSequence ≤ snapshot.sequence := by
  intro before after final
  have step : after = (before.perform operation).1 := performAll_append _ _
  refine ⟨fun tokenId book stored valid => ?_, fun tokenId book stored => ?_,
    fun change book own ran stored fresh => ?_, fun tokenId invalid valid => ?_⟩
  · have sound := sound_invariant.performAll Books.init _ tokenId book stored
    refine ⟨fun side level member => sound.ranged.of_mem_levels member, fun bid ask bids asks => ?_⟩
    have clean := sound.uncrossed valid
    rw [bids, asks] at clean
    exact validateCross_eq_nil clean
  · change ∃ kept, (init.performAll (earlier ++ [operation] ++ later)).books tokenId = some kept ∧ _
    rw [List.append_assoc, performAll_append]
    exact performAll_lastSequence_le _ stored
  · subst own
    rcases applyChange_cases before change with ⟨e, refused, _⟩ | ⟨found, same, _, applied⟩
    · rw [refused] at ran
      cases ran
    obtain rfl := Option.some.inj (same.symm.trans stored)
    rw [applied] at ran
    refine ⟨(found.apply change).1, ?_, OrderBook.apply_tops ran fresh⟩
    rw [step]
    change (before.applyChange change).1.books change.tokenId = _
    rw [applied, setBook_books_self]
  · rw [step] at valid
    exact perform_recovers invalid valid

end BookReconstructor

end PolymarketBt
