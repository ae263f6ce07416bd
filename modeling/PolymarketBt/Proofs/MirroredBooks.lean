import PolymarketBt.Proofs.TapeBuild

/-! # A reconstructor that is shown only what another accepts

A refused event leaves its mark on the reconstructor that refuses it: a half changed ladder, a
fresh book, the tick of a snapshot. A second one that is shown the accepted events alone has none of
them. The two still agree on every trusted book as long as no refused event brings a tick.
-/

namespace PolymarketBt

namespace OrderBook

/-- Two books of one token in one market and at one sequence; they are the same while the first is
trusted. -/
structure Alike (trusted shown : OrderBook) : Prop where
  conditionId : trusted.conditionId = shown.conditionId
  tokenId : trusted.tokenId = shown.tokenId
  outcome : trusted.outcome = shown.outcome
  lastSequence : trusted.lastSequence = shown.lastSequence
  same : trusted.valid = true → trusted = shown

theorem Alike.refl (book : OrderBook) : book.Alike book := ⟨rfl, rfl, rfl, rfl, fun _ => rfl⟩

/-- A snapshot that the first book takes is taken by the second one in the same way. -/
theorem Alike.replace {trusted shown : OrderBook} (alike : trusted.Alike shown)
    {snapshot : BookSnapshot} {taken : Bool} (ran : (trusted.replace snapshot).2 = .ok taken) :
    (shown.replace snapshot).2 = .ok taken ∧
      (trusted.replace snapshot).1.Alike (shown.replace snapshot).1 := by
  unfold OrderBook.replace at ran ⊢
  rw [← alike.conditionId, ← alike.tokenId, ← alike.lastSequence]
  split at ran
  · cases ran
  next mapped =>
  rw [if_neg mapped, if_neg mapped]
  split at ran
  · next stale =>
    rw [if_pos stale, if_pos stale]
    exact ⟨ran, alike⟩
  next fresh =>
  rw [if_neg fresh, if_neg fresh]
  split at ran
  · refine ⟨ran, rfl, rfl, alike.outcome, rfl, fun _ => ?_⟩
    rw [alike.outcome]
  · cases ran

/-- The identity and the sequence of a book are kept. -/
structure Kept (before after : OrderBook) : Prop where
  conditionId : after.conditionId = before.conditionId
  tokenId : after.tokenId = before.tokenId
  outcome : after.outcome = before.outcome
  lastSequence : after.lastSequence = before.lastSequence

theorem Kept.refl (book : OrderBook) : Kept book book := ⟨rfl, rfl, rfl, rfl⟩

theorem replace_kept {book : OrderBook} {snapshot : BookSnapshot} {e : PyError}
    (raised : (book.replace snapshot).2 = .error e) : Kept book (book.replace snapshot).1 := by
  rcases replace_accepted book snapshot with ⟨_, _, same | same⟩ | ⟨same, _⟩ | ⟨done, _⟩
  · rw [same]
    exact .refl book
  · rw [same]
    exact ⟨rfl, rfl, rfl, rfl⟩
  · rw [same] at raised
    cases raised
  · rw [done] at raised
    cases raised

theorem apply_identity (book : OrderBook) (change : BookLevelChange) :
    (book.apply change).1.conditionId = book.conditionId ∧
      (book.apply change).1.tokenId = book.tokenId ∧
      (book.apply change).1.outcome = book.outcome := by
  have restated : (book.restate change).conditionId = book.conditionId ∧
      (book.restate change).tokenId = book.tokenId ∧
      (book.restate change).outcome = book.outcome := by
    unfold restate
    split <;> exact ⟨rfl, rfl, rfl⟩
  have accepted (other : OrderBook) :
      (other.acceptChange change).1.conditionId = other.conditionId ∧
      (other.acceptChange change).1.tokenId = other.tokenId ∧
      (other.acceptChange change).1.outcome = other.outcome := by
    unfold acceptChange
    split <;> exact ⟨rfl, rfl, rfl⟩
  obtain ⟨condition, token, outcome⟩ := accepted ((book.restate change).pruneReported change)
  unfold OrderBook.apply
  split
  · exact ⟨rfl, rfl, rfl⟩
  split
  · exact ⟨rfl, rfl, rfl⟩
  split
  · exact ⟨condition.trans restated.1, token.trans restated.2.1, outcome.trans restated.2.2⟩
  · exact ⟨rfl, rfl, rfl⟩

theorem apply_kept {book : OrderBook} {change : BookLevelChange} {e : PyError}
    (raised : (book.apply change).2 = .error e) : Kept book (book.apply change).1 := by
  obtain ⟨condition, token, outcome⟩ := apply_identity book change
  refine ⟨condition, token, outcome, ?_⟩
  rcases apply_accepted book change with ⟨_, _, same | ⟨_, same⟩⟩ | ⟨same, _⟩ | ⟨done, _⟩
  · rw [same]
  · exact same
  · rw [same] at raised
    cases raised
  · rw [done] at raised
    cases raised

end OrderBook

open OrderBook (Alike Kept)

/-- The books of one token in a reconstructor that is shown only what the other accepts: a book that
has never been opened may be missing. -/
inductive MirrorsAt (tokenId : String) : Option OrderBook → Option OrderBook → Prop
  | absent : MirrorsAt tokenId none none
  | unopened {book : OrderBook} (own : book.tokenId = tokenId) (invalid : book.valid = false)
      (unread : book.lastSequence = 0) : MirrorsAt tokenId (some book) none
  | both {trusted shown : OrderBook} (alike : trusted.Alike shown) :
      MirrorsAt tokenId (some trusted) (some shown)

/-- A book that is no longer trusted mirrors what the one it was mirrored. -/
theorem MirrorsAt.spoil {tokenId : String} {found written : OrderBook} {shown : Option OrderBook}
    (here : MirrorsAt tokenId (some found) shown) (kept : Kept found written) :
    MirrorsAt tokenId (some { written with valid := false }) shown := by
  cases here with
  | unopened own invalid unread =>
    exact .unopened (kept.tokenId.trans own) rfl (kept.lastSequence.trans unread)
  | both alike =>
    exact .both {
      conditionId := kept.conditionId.trans alike.conditionId
      tokenId := kept.tokenId.trans alike.tokenId
      outcome := kept.outcome.trans alike.outcome
      lastSequence := kept.lastSequence.trans alike.lastSequence
      same := fun valid => by cases valid }

structure Mirrors (probe shown : BookReconstructor) : Prop where
  ticks : probe.effectiveTickSizes = shown.effectiveTickSizes
  books : ∀ tokenId, MirrorsAt tokenId (probe.books tokenId) (shown.books tokenId)

namespace Mirrors

open BookReconstructor

variable {probe shown : BookReconstructor}

theorem init : Mirrors .init .init := ⟨rfl, fun _ => .absent⟩

theorem setTick (mirrors : Mirrors probe shown) (tokenId : String) (tick : ℤ) :
    Mirrors (probe.setTick tokenId tick) (shown.setTick tokenId tick) := by
  refine ⟨?_, mirrors.books⟩
  unfold BookReconstructor.setTick
  rw [mirrors.ticks]

theorem setBook (mirrors : Mirrors probe shown) (tokenId : String) {book other : OrderBook}
    (alike : book.Alike other) :
    Mirrors (probe.setBook tokenId book) (shown.setBook tokenId other) := by
  refine ⟨mirrors.ticks, fun token => ?_⟩
  by_cases own : token = tokenId
  · subst own
    rw [setBook_books_self, setBook_books_self]
    exact .both alike
  · rw [setBook_books_of_ne _ own, setBook_books_of_ne _ own]
    exact mirrors.books token

/-- A book that the probe alone has may be changed as long as it stays unopened. -/
theorem setProbe (mirrors : Mirrors probe shown) {tokenId : String} {book : OrderBook}
    (here : MirrorsAt tokenId (some book) (shown.books tokenId)) :
    Mirrors (probe.setBook tokenId book) shown := by
  refine ⟨mirrors.ticks, fun token => ?_⟩
  by_cases own : token = tokenId
  · subst own
    rw [setBook_books_self]
    exact here
  · rw [setBook_books_of_ne _ own]
    exact mirrors.books token

theorem effectiveSnapshot (mirrors : Mirrors probe shown) (snapshot : BookSnapshot) :
    (probe.effectiveSnapshot snapshot).2 = (shown.effectiveSnapshot snapshot).2 ∧
      Mirrors (probe.effectiveSnapshot snapshot).1 (shown.effectiveSnapshot snapshot).1 := by
  unfold BookReconstructor.effectiveSnapshot
  rw [mirrors.ticks]
  split
  · exact ⟨rfl, mirrors.setTick _ _⟩
  · split
    · exact ⟨rfl, mirrors.setTick _ _⟩
    · exact ⟨rfl, mirrors⟩

theorem register (mirrors : Mirrors probe shown) {conditionId tokenId outcome : String}
    {registered : BookReconstructor} {book : OrderBook}
    (ran : probe.register conditionId tokenId outcome = (registered, .ok book)) :
    ∃ other found, shown.register conditionId tokenId outcome = (other, .ok found) ∧
      Mirrors registered other ∧ book.Alike found := by
  have here := mirrors.books tokenId
  unfold BookReconstructor.register at ran ⊢
  cases trusted : probe.books tokenId with
  | none =>
    rw [trusted] at here ran
    cases ran
    generalize shown.books tokenId = displayed at here ⊢
    cases here
    exact ⟨_, _, rfl, mirrors.setBook tokenId (.refl _), .refl _⟩
  | some own =>
    rw [trusted] at here ran
    dsimp only at ran
    split at ran
    · cases ran
    next mapped =>
    simp only [not_or, not_not] at mapped
    obtain ⟨rfl, found⟩ := Prod.mk.inj ran
    obtain rfl := Except.ok.inj found
    cases displayed : shown.books tokenId with
    | none =>
      rw [displayed] at here
      cases here with
      | unopened token invalid unread =>
        have alike : own.Alike (.init conditionId tokenId outcome) :=
          ⟨mapped.1, token, mapped.2, unread, fun valid => by simp [invalid] at valid⟩
        refine ⟨_, _, rfl, ⟨mirrors.ticks, fun other => ?_⟩, alike⟩
        by_cases same : other = tokenId
        · subst same
          rw [setBook_books_self, trusted]
          exact .both alike
        · rw [setBook_books_of_ne _ same]
          exact mirrors.books other
    | some found =>
      rw [displayed] at here
      cases here with
      | both alike =>
        refine ⟨shown, found, ?_, mirrors, alike⟩
        dsimp only
        rw [if_neg]
        rw [← alike.conditionId, ← alike.outcome]
        simp [mapped]

theorem applySnapshot (mirrors : Mirrors probe shown) {snapshot : BookSnapshot}
    (ran : (probe.applySnapshot snapshot).2 = .ok ()) :
    (shown.applySnapshot snapshot).2 = .ok () ∧
      Mirrors (probe.applySnapshot snapshot).1 (shown.applySnapshot snapshot).1 := by
  obtain ⟨used, ticked⟩ := mirrors.effectiveSnapshot snapshot
  unfold BookReconstructor.applySnapshot at ran ⊢
  generalize probe.effectiveSnapshot snapshot = first at used ticked ran ⊢
  generalize shown.effectiveSnapshot snapshot = second at used ticked ⊢
  obtain ⟨first, stated⟩ := first
  obtain ⟨second, other⟩ := second
  obtain rfl : stated = other := used
  dsimp only at ticked ran ⊢
  cases registration : first.register stated.conditionId stated.tokenId stated.outcome with
  | mk registered result =>
  rw [registration] at ran
  cases result with
  | error e => cases ran
  | ok book =>
    obtain ⟨shownRegistered, found, showing, mirrored, alike⟩ := ticked.register registration
    rw [showing]
    dsimp only at ran ⊢
    cases replacement : book.replace stated with
    | mk replaced taken =>
    rw [replacement] at ran
    cases taken with
    | error e => cases ran
    | ok taken =>
      have both := alike.replace (congrArg Prod.snd replacement)
      rw [replacement] at both
      cases shownReplacement : found.replace stated with
      | mk shownReplaced shownTaken =>
      rw [shownReplacement] at both
      obtain ⟨rfl, replacedAlike⟩ := both
      have done := mirrored.setBook stated.tokenId replacedAlike
      exact ⟨rfl, done.ticks, done.books⟩

theorem applyTickSizeChange (mirrors : Mirrors probe shown) {change : TickSizeChange}
    (ran : (probe.applyTickSizeChange change).2 = .ok ()) :
    (shown.applyTickSizeChange change).2 = .ok () ∧
      Mirrors (probe.applyTickSizeChange change).1 (shown.applyTickSizeChange change).1 := by
  have here := mirrors.books change.tokenId
  have ticked := mirrors.setTick change.tokenId change.newTickSizeScaled
  unfold BookReconstructor.applyTickSizeChange at ran ⊢
  split at ran
  · cases ran
  next positive =>
  rw [if_neg positive, if_neg positive]
  dsimp only at ran ⊢
  cases trusted : probe.books change.tokenId with
  | none =>
    rw [trusted] at here
    generalize shown.books change.tokenId = displayed at here ⊢
    cases here
    exact ⟨rfl, ticked⟩
  | some book =>
    rw [trusted] at here ran
    dsimp only at ran ⊢
    split at ran
    · cases ran
    next mapped =>
    rw [if_neg mapped]
    cases displayed : shown.books change.tokenId with
    | none =>
      rw [displayed] at here
      cases here with
      | unopened token invalid unread =>
        refine ⟨rfl, ticked.setProbe ?_⟩
        rw [setTick_books, displayed]
        exact .unopened token invalid unread
    | some found =>
      rw [displayed] at here
      cases here with
      | both alike =>
        dsimp only
        rw [if_neg (alike.conditionId ▸ mapped)]
        refine ⟨rfl, ticked.setBook _ ⟨alike.conditionId, alike.tokenId, alike.outcome,
          alike.lastSequence, fun valid => ?_⟩⟩
        rw [alike.same valid]

theorem applyChange (mirrors : Mirrors probe shown) {change : BookLevelChange}
    (ran : (probe.applyChange change).2 = .ok ()) :
    (shown.applyChange change).2 = .ok () ∧
      Mirrors (probe.applyChange change).1 (shown.applyChange change).1 := by
  have here := mirrors.books change.tokenId
  rcases applyChange_cases probe change with ⟨e, refused, _⟩ | ⟨book, trusted, valid, applied⟩
  · rw [refused] at ran
    cases ran
  · rw [trusted] at here
    cases displayed : shown.books change.tokenId with
    | none =>
      rw [displayed] at here
      cases here with
      | unopened _ invalid _ => simp [invalid] at valid
    | some found =>
      rw [displayed] at here
      cases here with
      | both alike =>
        obtain rfl := alike.same valid
        have same : shown.applyChange change =
            (shown.setBook change.tokenId (book.apply change).1, (book.apply change).2) := by
          unfold BookReconstructor.applyChange
          dsimp only
          rw [displayed]
          dsimp only
          rw [if_pos valid]
        rw [applied] at ran ⊢
        rw [same]
        exact ⟨ran, mirrors.setBook _ (.refl _)⟩

/-- An event that the probe accepts is accepted by the mirror, and they stay in step. -/
theorem accept (mirrors : Mirrors probe shown) {event : BookEvent}
    (ran : (probe.applyEvent event).2 = .ok ()) :
    (shown.applyEvent event).2 = .ok () ∧
      Mirrors (probe.applyEvent event).1 (shown.applyEvent event).1 := by
  cases event with
  | snapshot snapshot => exact mirrors.applySnapshot ran
  | tick change => exact mirrors.applyTickSizeChange ran
  | update change => exact mirrors.applyChange ran

end Mirrors

namespace BookReconstructor

variable {reconstructor : BookReconstructor}

/-- What a refused event leaves at its token: nothing new, or the book it found at its sequence. -/
theorem refused_books {event : BookEvent} {e : PyError}
    (raised : (reconstructor.applyEvent event).2 = .error e) :
    (reconstructor.applyEvent event).1.books = reconstructor.books ∨
      ∃ found written, reconstructor.Finds event.tokenId found ∧ Kept found written ∧
        (reconstructor.applyEvent event).1.books =
          Function.update reconstructor.books event.tokenId (some written) := by
  cases event with
  | snapshot snapshot =>
    change (reconstructor.applySnapshot snapshot).2 = .error e at raised
    rcases applySnapshot_cases reconstructor snapshot with
      ⟨_, _, books⟩ | ⟨tick, result, rfl, books, results⟩
    · exact .inl books
    · refine .inr ⟨_, _, finds_bookFor reconstructor snapshot, ?_, books⟩
      rw [results] at raised
      cases failed : ((reconstructor.bookFor snapshot).replace
          { snapshot with tickSizeScaled := tick }).2 with
      | error cause => exact OrderBook.replace_kept failed
      | ok taken =>
        rw [failed] at raised
        cases raised
  | tick change =>
    left
    change (reconstructor.applyTickSizeChange change).2 = .error e at raised
    change (reconstructor.applyTickSizeChange change).1.books = _
    unfold applyTickSizeChange at raised ⊢
    split at raised
    · next refused => rw [if_pos refused]
    next positive =>
    rw [if_neg positive]
    dsimp only at raised ⊢
    cases found : reconstructor.books change.tokenId with
    | none =>
      rw [found] at raised
      cases raised
    | some book =>
      rw [found] at raised
      dsimp only at raised ⊢
      split at raised
      · next mismatch =>
        rw [if_pos mismatch]
        rfl
      · cases raised
  | update change =>
    change (reconstructor.applyChange change).2 = .error e at raised
    rcases applyChange_cases reconstructor change with
      ⟨_, refused, _⟩ | ⟨book, stored, _, applied⟩
    · exact .inl (congrArg (fun result => result.1.books) refused)
    · refine .inr ⟨_, _, .stored stored, ?_, congrArg (fun result => result.1.books) applied⟩
      rw [applied] at raised
      exact OrderBook.apply_kept raised

theorem invalidate_ticks (tokenId : String) :
    (reconstructor.invalidate tokenId).effectiveTickSizes = reconstructor.effectiveTickSizes := by
  unfold invalidate
  split <;> rfl

end BookReconstructor

/-- A refused event leaves the mirror in step, as long as it leaves the ticks in force. -/
theorem Mirrors.refuse {probe shown : BookReconstructor} (mirrors : Mirrors probe shown)
    {event : BookEvent} {e : PyError} (raised : (probe.applyEvent event).2 = .error e)
    (ticks : (probe.applyEvent event).1.effectiveTickSizes = probe.effectiveTickSizes) :
    Mirrors ((probe.applyEvent event).1.invalidate event.tokenId) shown := by
  have here := mirrors.books event.tokenId
  refine ⟨(BookReconstructor.invalidate_ticks _).trans (ticks.trans mirrors.ticks), fun token => ?_⟩
  by_cases own : token = event.tokenId
  · subst own
    unfold BookReconstructor.invalidate
    rcases BookReconstructor.refused_books raised with
      books | ⟨found, written, finds, kept, books⟩
    · rw [books]
      cases trusted : probe.books event.tokenId with
      | none =>
        dsimp only
        rw [books, trusted]
        rwa [trusted] at here
      | some book =>
        rw [trusted] at here
        dsimp only
        rw [BookReconstructor.setBook_books_self]
        exact here.spoil (.refl book)
    · rw [books, Function.update_self]
      dsimp only
      rw [BookReconstructor.setBook_books_self]
      cases finds with
      | stored stored =>
        rw [stored] at here
        exact here.spoil kept
      | fresh absent conditionId outcome =>
        rw [absent] at here
        generalize shown.books event.tokenId = displayed at here ⊢
        cases here
        exact .unopened kept.tokenId rfl kept.lastSequence
  · rw [BookReconstructor.invalidate_books_of_ne own,
      BookReconstructor.applyEvent_books_of_ne probe event own]
    exact mirrors.books token

namespace BookReconstructor

variable {reconstructor : BookReconstructor}

/-! ## What is forwarded -/

/-- The events that a reconstructor accepts one after another, under the builder's rule. -/
def accepted : BookReconstructor → List BookEvent → List BookEvent
  | _, [] => []
  | probe, event :: rest =>
    match probe.applyEvent event with
    | (applied, .ok _) => event :: accepted applied rest
    | (applied, .error _) => accepted (applied.invalidate event.tokenId) rest

/-- Apply an event, and raise what it raises. -/
def applyStrict (reconstructor : BookReconstructor) (event : BookEvent) :
    Except PyError BookReconstructor :=
  (reconstructor.applyEvent event).2.map fun _ => (reconstructor.applyEvent event).1

/-- Apply events one after another; the first that raises ends it. -/
def applyAll (reconstructor : BookReconstructor) (events : List BookEvent) :
    Except PyError BookReconstructor :=
  events.foldlM applyStrict reconstructor

/-- No refused event brings a tick. -/
def KeepsTicks (events : List BookEvent) : Prop :=
  ∀ past event behind, events = past ++ event :: behind → ∀ e,
    ((BookReconstructor.init.absorbAll past).applyEvent event).2 = .error e →
      ((BookReconstructor.init.absorbAll past).applyEvent event).1.effectiveTickSizes =
        (BookReconstructor.init.absorbAll past).effectiveTickSizes

theorem KeepsTicks.left {past behind : List BookEvent} (keeps : KeepsTicks (past ++ behind)) :
    KeepsTicks past := by
  rintro earlier event later rfl
  exact keeps earlier event (later ++ behind) (by simp)

theorem absorb_of_ok {event : BookEvent} (ran : (reconstructor.applyEvent event).2 = .ok ()) :
    reconstructor.absorb event = (reconstructor.applyEvent event).1 := by
  unfold absorb
  split
  · next same => rw [same]
  · next raised =>
    rw [raised] at ran
    cases ran

theorem absorb_of_error {event : BookEvent} {e : PyError}
    (raised : (reconstructor.applyEvent event).2 = .error e) :
    reconstructor.absorb event = (reconstructor.applyEvent event).1.invalidate event.tokenId := by
  unfold absorb
  split
  · next same =>
    rw [same] at raised
    cases raised
  · next same => rw [same]

theorem absorbAll_snoc (past : List BookEvent) (event : BookEvent) :
    reconstructor.absorbAll (past ++ [event]) = (reconstructor.absorbAll past).absorb event := by
  simp [absorbAll]

theorem accepted_append (earlier later : List BookEvent) :
    accepted reconstructor (earlier ++ later) =
      accepted reconstructor earlier ++ accepted (reconstructor.absorbAll earlier) later := by
  induction earlier generalizing reconstructor with
  | nil => rfl
  | cons event rest ih =>
    rw [List.cons_append, accepted, accepted]
    change _ = _ ++ accepted ((reconstructor.absorb event).absorbAll rest) later
    unfold absorb
    rcases reconstructor.applyEvent event with ⟨applied, e | ⟨⟩⟩
    · exact ih
    · exact congrArg (event :: ·) ih

theorem accepted_ok {event : BookEvent} (ran : (reconstructor.applyEvent event).2 = .ok ()) :
    accepted reconstructor [event] = [event] := by
  unfold accepted
  split
  · rfl
  · next raised =>
    rw [raised] at ran
    cases ran

theorem accepted_error {event : BookEvent} {e : PyError}
    (raised : (reconstructor.applyEvent event).2 = .error e) :
    accepted reconstructor [event] = [] := by
  unfold accepted
  split
  · next same =>
    rw [same] at raised
    cases raised
  · rfl

theorem applyStrict_ok {event : BookEvent} (ran : (reconstructor.applyEvent event).2 = .ok ()) :
    reconstructor.applyStrict event = .ok (reconstructor.applyEvent event).1 := by
  rw [applyStrict, ran]
  rfl

theorem applyAll_snoc {past : List BookEvent} {event : BookEvent} {before : BookReconstructor}
    (ran : reconstructor.applyAll past = .ok before)
    (applied : (before.applyEvent event).2 = .ok ()) :
    reconstructor.applyAll (past ++ [event]) = .ok (before.applyEvent event).1 := by
  unfold applyAll at ran ⊢
  rw [List.foldlM_append, ran, Except.ok_bind, List.foldlM_cons, applyStrict_ok applied]
  rfl

/-- Applied on their own, the accepted events are never refused, and the books they leave mirror the
probe's. -/
theorem accepted_mirrors {events : List BookEvent} (keeps : KeepsTicks events) :
    ∃ shown, BookReconstructor.init.applyAll (accepted .init events) = .ok shown ∧
      Mirrors (BookReconstructor.init.absorbAll events) shown := by
  induction events using List.reverseRecOn with
  | nil => exact ⟨.init, rfl, .init⟩
  | append_singleton past event ih =>
    obtain ⟨shown, ran, mirrors⟩ := ih keeps.left
    rw [absorbAll_snoc, accepted_append]
    cases applied : ((BookReconstructor.init.absorbAll past).applyEvent event).2 with
    | ok done =>
      obtain ⟨taken, after⟩ := mirrors.accept applied
      rw [accepted_ok applied, absorb_of_ok applied]
      exact ⟨_, applyAll_snoc ran taken, after⟩
    | error e =>
      rw [accepted_error applied, absorb_of_error applied, List.append_nil]
      exact ⟨shown, ran, mirrors.refuse applied (keeps past event [] rfl e applied)⟩

end BookReconstructor

end PolymarketBt
