import PolymarketBt.Soundness.UncertaintyIntervals

/-! # Events older than the book of their token

A book refuses a snapshot or a level change whose sequence it has passed. The reconstructor around
it takes the tick of a snapshot before it asks the book and closes an interval after it, so a refused
snapshot is a no-op exactly when it brings no tick of its own and finds no interval to close.
-/

namespace PolymarketBt

/-- Everything that the rest of the program does to a reconstructor: its methods, and the two ways
in which a caller edits a book it was handed. -/
inductive BookCall where
  | operation (operation : BookOperation)
  | register (conditionId tokenId outcome : String)
  | invalidate (tokenId : String)
  | consume (tokenId : String) (side : Side) (priceScaled sizeScaled : ℤ)
deriving DecidableEq, Repr

open UncertaintyInterval

namespace BookReconstructor

variable {reconstructor : BookReconstructor}

def call (reconstructor : BookReconstructor) : BookCall → BookReconstructor
  | .operation operation => (reconstructor.perform operation).1
  | .register conditionId tokenId outcome =>
    (reconstructor.register conditionId tokenId outcome).1
  | .invalidate tokenId => reconstructor.invalidate tokenId
  | .consume tokenId side priceScaled sizeScaled =>
    match reconstructor.books tokenId with
    | none => reconstructor
    | some book => reconstructor.setBook tokenId (book.consume side priceScaled sizeScaled)

def callAll (reconstructor : BookReconstructor) (calls : List BookCall) : BookReconstructor :=
  calls.foldl call reconstructor

theorem callAll_append (earlier later : List BookCall) :
    reconstructor.callAll (earlier ++ later) = (reconstructor.callAll earlier).callAll later :=
  List.foldl_append

/-- The event is of a token that has a book, and the book has advanced past it. -/
def Refused (reconstructor : BookReconstructor) : BookEvent → Prop
  | .snapshot snapshot => ∃ book, reconstructor.books snapshot.tokenId = some book ∧
      snapshot.sequence < book.lastSequence
  | .update change => ∃ book, reconstructor.books change.tokenId = some book ∧
      change.sequence < book.lastSequence
  | .tick _ => False

/-- A snapshot brings no tick: its own is in force, or it has to yield to the one in force. -/
def KeepsTick (reconstructor : BookReconstructor) (snapshot : BookSnapshot) : Prop :=
  reconstructor.effectiveTickSizes snapshot.tokenId = some snapshot.tickSizeScaled ∨
    snapshot.source ≠ "clob_rest" ∧ reconstructor.effectiveTickSizes snapshot.tokenId ≠ none

/-- What a refused event must meet for the reconstructor to stay as it is. -/
def Quiet (reconstructor : BookReconstructor) : BookEvent → Prop
  | .snapshot snapshot => reconstructor.KeepsTick snapshot ∧
      (reconstructor.Mapped snapshot → reconstructor.openIntervals snapshot.tokenId = [])
  | .update _ => True
  | .tick _ => True

/-! ## Books stay under their own token -/

theorem register_keyed (keyed : reconstructor.Books fun tokenId book => book.tokenId = tokenId)
    (conditionId tokenId outcome : String) :
    (reconstructor.register conditionId tokenId outcome).1.Books
      fun tokenId book => book.tokenId = tokenId := by
  unfold register
  split
  · split
    · exact keyed
    · exact keyed
  · intro other book stored
    by_cases own : other = tokenId
    · subst own
      rw [setBook_books_self] at stored
      obtain rfl := Option.some.inj stored
      rfl
    · rw [setBook_books_of_ne _ own] at stored
      exact keyed other book stored

theorem call_keyed (keyed : reconstructor.Books fun tokenId book => book.tokenId = tokenId)
    (call : BookCall) :
    (reconstructor.call call).Books fun tokenId book => book.tokenId = tokenId := by
  cases call with
  | operation operation => exact keyed_invariant.writesAt keyed (perform_writes _ operation)
  | register conditionId tokenId outcome => exact register_keyed keyed conditionId tokenId outcome
  | invalidate tokenId => exact keyed_invariant.writesAt keyed (invalidate_writes _ tokenId)
  | consume tokenId side priceScaled sizeScaled =>
    change (match reconstructor.books tokenId with
      | none => reconstructor
      | some book => reconstructor.setBook tokenId (book.consume side priceScaled sizeScaled)).Books _
    split
    · exact keyed
    · next book found =>
      intro other after stored
      by_cases own : other = tokenId
      · subst own
        rw [setBook_books_self] at stored
        obtain rfl := Option.some.inj stored
        have token := keyed _ book found
        cases side <;> exact token
      · rw [setBook_books_of_ne _ own] at stored
        exact keyed other after stored

theorem callAll_keyed (keyed : reconstructor.Books fun tokenId book => book.tokenId = tokenId)
    (calls : List BookCall) :
    (reconstructor.callAll calls).Books fun tokenId book => book.tokenId = tokenId := by
  induction calls generalizing reconstructor with
  | nil => exact keyed
  | cons call rest ih => exact ih (call_keyed keyed call)

/-! ## One refused event -/

theorem effectiveSnapshot_ticks_iff (reconstructor : BookReconstructor) (snapshot : BookSnapshot) :
    (reconstructor.effectiveSnapshot snapshot).1.effectiveTickSizes =
        reconstructor.effectiveTickSizes ↔
      reconstructor.KeepsTick snapshot := by
  unfold effectiveSnapshot KeepsTick
  cases inForce : reconstructor.effectiveTickSizes snapshot.tokenId with
  | none => simp [setTick, inForce]
  | some tick =>
    by_cases recovery : snapshot.source = "clob_rest"
    · simp [setTick, inForce, recovery, eq_comm]
    · simp [recovery]

theorem closeLatest_eq_self_iff (snapshot : BookSnapshot) (intervals : List UncertaintyInterval) :
    closeLatest snapshot intervals = intervals ↔
      intervals.filter (OpenFor snapshot.tokenId) = [] := by
  constructor
  · intro same
    have closed := filter_closeLatest snapshot snapshot.tokenId intervals
    rw [same, if_pos rfl] at closed
    have := congrArg List.length closed
    rw [List.length_tail] at this
    exact List.eq_nil_of_length_eq_zero (by omega)
  · intro closed
    rw [(closeLatest_eq_closeAll_iff _ _).mpr (by simp [closed]), closeAll_eq_self closed]

theorem closing_eq_self_iff (reconstructor : BookReconstructor) (snapshot : BookSnapshot) :
    (closeLatest snapshot reconstructor.uncertainty.reverse).reverse = reconstructor.uncertainty ↔
      reconstructor.openIntervals snapshot.tokenId = [] := by
  rw [List.reverse_eq_iff, closeLatest_eq_self_iff, List.filter_reverse, List.reverse_eq_nil_iff]
  rfl

open Classical in
/-- A refused snapshot leaves the books alone, and still takes its tick and closes an interval. -/
theorem applySnapshot_refused
    (keyed : reconstructor.Books fun tokenId book => book.tokenId = tokenId)
    {snapshot : BookSnapshot} (refused : reconstructor.Refused (.snapshot snapshot)) :
    (reconstructor.applySnapshot snapshot).1 =
      { books := reconstructor.books
        effectiveTickSizes := (reconstructor.effectiveSnapshot snapshot).1.effectiveTickSizes
        uncertainty :=
          if reconstructor.Mapped snapshot then
            (closeLatest snapshot reconstructor.uncertainty.reverse).reverse
          else reconstructor.uncertainty } := by
  obtain ⟨book, stored, older⟩ := refused
  obtain ⟨tick, read⟩ := effectiveSnapshot_snapshot reconstructor snapshot
  have books := effectiveSnapshot_books reconstructor snapshot
  have open_ := effectiveSnapshot_uncertainty reconstructor snapshot
  have found : reconstructor.bookFor snapshot = book := by simp [bookFor, stored]
  have kept : Function.update reconstructor.books snapshot.tokenId (some book) =
      reconstructor.books := by
    rw [Function.update_eq_self_iff, stored]
  unfold applySnapshot
  rcases effective : reconstructor.effectiveSnapshot snapshot with ⟨ticked, ticketed⟩
  simp only [effective] at read books open_
  subst ticketed
  dsimp only
  unfold register
  rw [books, stored]
  dsimp only
  by_cases moved : book.conditionId ≠ snapshot.conditionId ∨ book.outcome ≠ snapshot.outcome
  · have unmapped : ¬ reconstructor.Mapped snapshot := by
      unfold Mapped
      rw [found]
      exact fun mapped => moved.elim (· mapped.1) (· mapped.2)
    rw [if_pos moved, if_neg unmapped]
    cases ticked
    simp only at books open_
    rw [books, open_]
  · have mapped : reconstructor.Mapped snapshot := by
      unfold Mapped
      rw [found]
      simpa only [not_or, not_not] using moved
    rw [if_neg moved, if_pos mapped]
    have dropped : book.replace { snapshot with tickSizeScaled := tick } = (book, .ok false) := by
      unfold OrderBook.replace
      rw [if_neg, if_pos older]
      simp only [not_or, not_not] at moved ⊢
      exact ⟨(keyed _ book stored).symm, moved.1.symm⟩
    simp only [dropped]
    unfold setBook
    rw [books, kept, open_, closeLatest_retick]

theorem applyChange_refused
    {change : BookLevelChange} (refused : reconstructor.Refused (.update change)) :
    (reconstructor.applyChange change).1 = reconstructor := by
  obtain ⟨book, stored, older⟩ := refused
  rcases applyChange_cases reconstructor change with ⟨e, raised, _⟩ | ⟨found, same, _, applied⟩
  · rw [raised]
  obtain rfl := Option.some.inj (same.symm.trans stored)
  have dropped : (found.apply change).1 = found := by
    unfold OrderBook.apply
    rw [if_pos older]
    split <;> rfl
  rw [applied, dropped]
  unfold setBook
  rw [Function.update_eq_self_iff.mpr stored.symm]

/-- A refused event leaves the whole state exactly when it is quiet. -/
theorem applyEvent_refused_iff
    (keyed : reconstructor.Books fun tokenId book => book.tokenId = tokenId)
    {event : BookEvent} (refused : reconstructor.Refused event) :
    (reconstructor.applyEvent event).1 = reconstructor ↔ reconstructor.Quiet event := by
  cases event with
  | tick change => exact refused.elim
  | update change => exact iff_of_true (applyChange_refused refused) trivial
  | snapshot snapshot =>
    change (reconstructor.applySnapshot snapshot).1 = reconstructor ↔ _
    rw [applySnapshot_refused keyed refused]
    have fields : ∀ other : BookReconstructor, other = reconstructor ↔
        other.books = reconstructor.books ∧ other.effectiveTickSizes =
          reconstructor.effectiveTickSizes ∧ other.uncertainty = reconstructor.uncertainty := by
      intro other
      cases other
      cases reconstructor
      simp only [mk.injEq]
      tauto
    rw [fields]
    simp only [true_and]
    rw [effectiveSnapshot_ticks_iff]
    refine and_congr Iff.rfl ?_
    by_cases mapped : reconstructor.Mapped snapshot
    · rw [if_pos mapped, closing_eq_self_iff]
      exact ⟨fun closed _ => closed, fun closed => closed mapped⟩
    · rw [if_neg mapped]
      exact iff_of_true rfl fun holds => absurd holds mapped

/-! ## Runs -/

/-- Every refused event of the run leaves the state as it was, and the rest of the run goes on as if
the event had not been there. -/
def RefusedAreNoOps (calls : List BookCall) : Prop :=
  ∀ earlier event later, calls = earlier ++ .operation (.event event) :: later →
    (init.callAll earlier).Refused event →
    ((init.callAll earlier).applyEvent event).1 = init.callAll earlier ∧
      init.callAll calls = init.callAll (earlier ++ later)

/-- Every refused event of the run is quiet in the state it meets. -/
def QuietRun (calls : List BookCall) : Prop :=
  ∀ earlier event later, calls = earlier ++ .operation (.event event) :: later →
    (init.callAll earlier).Refused event → (init.callAll earlier).Quiet event

/-- The refused events of a run are no-ops exactly when each of them is quiet. -/
theorem refusedAreNoOps_iff (calls : List BookCall) : RefusedAreNoOps calls ↔ QuietRun calls := by
  have keyed : ∀ earlier, (init.callAll earlier).Books fun tokenId book => book.tokenId = tokenId :=
    callAll_keyed Books.init
  constructor
  · intro noOps earlier event later split refused
    exact (applyEvent_refused_iff (keyed earlier) refused).mp
      (noOps earlier event later split refused).1
  · rintro quiet earlier event later rfl refused
    have same := (applyEvent_refused_iff (keyed earlier) refused).mpr
      (quiet earlier event later rfl refused)
    refine ⟨same, ?_⟩
    rw [callAll_append, callAll_append]
    change ((init.callAll earlier).applyEvent event).1.callAll later = _
    rw [same]

/-! ## A late recovery answer -/

private def offered (sequence : ℤ) (source : String) (tickSizeScaled bid ask : ℤ) : BookSnapshot where
  sequence := sequence
  source := source
  conditionId := "0x0f"
  tokenId := "17"
  outcome := "UP"
  receivedUtcNs := 100 * sequence
  bookHash := none
  tickSizeScaled := tickSizeScaled
  minimumOrderSizeScaled := 5000000
  bids := [⟨bid, 1000000⟩]
  asks := [⟨ask, 1000000⟩]

/-- The book has advanced to a tick of 0.001, and a recovery answer that was requested before it
comes back with the tick of 0.01; the next websocket snapshot quotes between the coarse ticks. -/
def lateRecovery : List BookCall :=
  [.operation (.event (.snapshot (offered 2 "clob_rest" 1000 480000 520000))),
    .operation (.event (.snapshot (offered 1 "clob_rest" 10000 480000 520000))),
    .operation (.event (.snapshot (offered 3 "clob_market_ws" 10000 495000 505000)))]

theorem lateRecovery_not_noOp : ¬ RefusedAreNoOps lateRecovery := by
  intro noOps
  have same := (noOps _ _ _ (show lateRecovery =
    [.operation (.event (.snapshot (offered 2 "clob_rest" 1000 480000 520000)))] ++
      .operation (.event (.snapshot (offered 1 "clob_rest" 10000 480000 520000))) ::
      [.operation (.event (.snapshot (offered 3 "clob_market_ws" 10000 495000 505000)))] from rfl)
    ⟨_, rfl, by decide +kernel⟩).2
  have lost : (((init.callAll lateRecovery).books "17").map OrderBook.valid) = some false := by
    decide +kernel
  rw [same] at lost
  have kept : (((init.callAll ([.operation (.event (.snapshot
      (offered 2 "clob_rest" 1000 480000 520000)))] ++
      [.operation (.event (.snapshot (offered 3 "clob_market_ws" 10000 495000 505000)))])).books
      "17").map OrderBook.valid) = some true := by
    decide +kernel
  rw [kept] at lost
  cases lost

end BookReconstructor

end PolymarketBt
