import PolymarketBt.Proofs.Reconstructor
import PolymarketBt.Proofs.TapeNavigation

/-! # What a tape build knows about the books

Accepted events leave a row, refused ones open a span, and a snapshot ends the span even when it is
stale. The invariant `Tracks` ties the three together: as long as a token has no open span, its last
row shows its book. A span that is open at some instant still covers that instant in the finished
tape, and a row written later carries a later stamp.
-/

namespace PolymarketBt

open BookReconstructor

/-- What a row shows of the book that produced it. -/
structure ShowsBook (depth : Option ℕ) (row : TapeRow) (book : OrderBook) : Prop where
  ladder : ∀ side, row.ladder side = LadderColumns.kept depth (book.levels side)
  depthBeyond : ∀ levels, depth = some levels → ∀ side,
    row.depthBeyond side = (((book.levels side).drop levels).map Prod.snd).sum
  bestBid : row.bestBidScaled = book.bestBid
  bestAsk : row.bestAskScaled = book.bestAsk

namespace LadderColumns

theorem kept_subset {depth : Option ℕ} {levels : List (ℤ × ℤ)} {level : ℤ × ℤ}
    (member : level ∈ kept depth levels) : level ∈ levels := by
  cases depth with
  | none => exact member
  | some depth => exact List.mem_of_mem_take member

/-- Storing and reading a ladder of positive sizes gives its kept levels back. -/
theorem levels_store (depth : Option ℕ) (levels : List (ℤ × ℤ))
    (positive : ∀ level ∈ levels, 0 < level.2) : (store depth levels).levels = kept depth levels := by
  have zeros : ∀ zero ∈ padding depth levels, zero = 0 := by
    cases depth with
    | none => simp [padding]
    | some depth => simp [padding]
  have keeps : (kept depth levels).filter (fun level => decide (0 < level.2)) =
      kept depth levels :=
    List.filter_eq_self.mpr fun level member => by simpa using positive _ (kept_subset member)
  have drops : ((padding depth levels).zip (padding depth levels)).filter
      (fun level => decide (0 < level.2)) = [] := by
    rw [List.filter_eq_nil_iff]
    intro level member
    simp [zeros level.2 (List.of_mem_zip member).2]
  simp only [LadderColumns.levels, store]
  rw [List.zip_append (by simp), List.filter_append, drops, List.append_nil,
    ← List.unzip_fst, ← List.unzip_snd, List.zip_unzip, keeps]

end LadderColumns

/-- A positive best price survives the sentinel of its column. -/
theorem readQuote_getD {best : Option ℤ} (positive : ∀ price ∈ best, 0 < price) :
    readQuote (best.getD noQuote) = best := by
  cases best with
  | none => rfl
  | some price =>
    have := positive price rfl
    simp only [Option.getD_some, readQuote, noQuote]
    exact if_neg (by omega)

namespace TapeBuilder

variable {builder : TapeBuilder} {episode : Episode}

theorem tokens_eq_some {tokenId : String} {tokenIndex : TokenIndex}
    (found : tokens episode tokenId = some tokenIndex) : tokenId = episode.tokenIdOf tokenIndex := by
  unfold tokens at found
  split at found
  · next down =>
    cases found
    exact down
  · split at found
    · next up =>
      cases found
      exact up
    · cases found

theorem head?_kept {depth : Option ℕ} (levels : depth ≠ some 0) (ladder : List (ℤ × ℤ)) :
    (LadderColumns.kept depth ladder).head? = ladder.head? := by
  cases depth with
  | none => rfl
  | some depth =>
    cases depth with
    | zero => exact (levels rfl).elim
    | succ depth => cases ladder <;> rfl

/-- The row written for a book shows it. -/
theorem showsBook_rowOf (levels : builder.depth ≠ some 0) {book : OrderBook}
    (positive : book.Positive) (event : BookEvent) (tokenIndex : TokenIndex) :
    ShowsBook builder.depth (builder.rowOf event tokenIndex book) book := by
  have best : ∀ side, ∀ price ∈ ((book.levels side).head?).map Prod.fst, 0 < price := by
    intro side price best
    obtain ⟨level, head, rfl⟩ := Option.map_eq_some_iff.mp best
    exact (positive.of_mem_levels (List.mem_of_head? head)).1
  refine ⟨?_, ?_, ?_, ?_⟩
  · intro side
    have stored := LadderColumns.levels_store builder.depth (book.levels side)
      fun level member => (positive.of_mem_levels member).2
    cases side <;> exact stored
  · rintro depth found side
    cases side <;> simp [TapeRow.depthBeyond, TapeRow.columns, rowOf, LadderColumns.store, found]
  · simp only [TapeRow.bestBidScaled, rowOf, bestColumn, head?_kept levels]
    exact readQuote_getD (best .buy)
  · simp only [TapeRow.bestAskScaled, rowOf, bestColumn, head?_kept levels]
    exact readQuote_getD (best .sell)

/-! ## The invariant of a build -/

def lastRow (rows : List TapeRow) (tokenIndex : TokenIndex) : Option TapeRow :=
  (rows.filter fun row => row.tokenIndex = tokenIndex).getLast?

/-- A token without an open span. -/
def Settled (state : BuildState) (tokenId : String) : Prop :=
  ∀ span ∈ state.pendingUncertain, span.tokenId ≠ tokenId

/-- The last row of the token shows its book; without a book there is no row. -/
def Shown (builder : TapeBuilder) (episode : Episode) (state : BuildState) (tokenIndex : TokenIndex) :
    Prop :=
  match state.reconstructor.books (episode.tokenIdOf tokenIndex) with
  | none => lastRow state.rows tokenIndex = none
  | some book => ∃ row, lastRow state.rows tokenIndex = some row ∧
      row.bookValid = book.valid ∧ ShowsBook builder.depth row book

/-- What a build knows after the events of `past`. -/
structure Tracks (builder : TapeBuilder) (episode : Episode) (past : List BookEvent)
    (state : BuildState) : Prop where
  reconstructor : state.reconstructor = BookReconstructor.init.absorbAll past
  positive : state.reconstructor.Positive
  stamps : (state.rows.map TapeRow.receivedUtcNs).Sublist (past.map BookEvent.receivedUtcNs)
  indexed : ∀ row ∈ state.rows,
    tokens episode (episode.tokenIdOf row.tokenIndex) = some row.tokenIndex
  opened : ∀ span ∈ state.pendingUncertain,
    span.endUtcNs = none ∧ span.startUtcNs ∈ past.map BookEvent.receivedUtcNs
  closed : ∀ span ∈ state.pendingUncertain, ∀ book,
    state.reconstructor.books span.tokenId = some book → book.valid = false
  current : ∀ tokenIndex, tokens episode (episode.tokenIdOf tokenIndex) = some tokenIndex →
    Settled state (episode.tokenIdOf tokenIndex) → Shown builder episode state tokenIndex

theorem mem_of_lastRow {rows : List TapeRow} {tokenIndex : TokenIndex} {row : TapeRow}
    (last : lastRow rows tokenIndex = some row) : row ∈ rows ∧ row.tokenIndex = tokenIndex := by
  simpa using List.mem_filter.mp (List.mem_of_getLast? last)

theorem lastRow_append_self (rows : List TapeRow) {row : TapeRow} :
    lastRow (rows ++ [row]) row.tokenIndex = some row := by
  simp [lastRow]

theorem lastRow_append_of_ne (rows : List TapeRow) {row : TapeRow} {tokenIndex : TokenIndex}
    (distinct : row.tokenIndex ≠ tokenIndex) :
    lastRow (rows ++ [row]) tokenIndex = lastRow rows tokenIndex := by
  simp [lastRow, distinct]

theorem settled_refuse {state : BuildState} {applied : BookReconstructor} {event : BookEvent}
    {error : PyError} {tokenId : String}
    (settled : Settled (refuse state applied event error) tokenId) :
    Settled state tokenId ∧ tokenId ≠ event.tokenId := by
  unfold Settled refuse at settled
  dsimp only at settled
  split at settled
  · next already =>
    obtain ⟨span, member, same⟩ := List.any_eq_true.mp already
    refine ⟨settled, fun equal => settled span member ?_⟩
    exact (of_decide_eq_true same).trans equal.symm
  · refine ⟨fun span member => settled span (List.mem_append_left _ member), fun equal => ?_⟩
    exact settled _ (List.mem_append_right _ (List.mem_singleton_self _)) equal.symm

theorem closeSpan_reconstructor (state : BuildState) (event : BookEvent) :
    (closeSpan state event).reconstructor = state.reconstructor := by
  cases event <;> rfl

theorem closeSpan_rows (state : BuildState) (event : BookEvent) :
    (closeSpan state event).rows = state.rows := by
  cases event <;> rfl

theorem closeSpan_pending (state : BuildState) (event : BookEvent) :
    (closeSpan state event).pendingUncertain ⊆ state.pendingUncertain := by
  cases event with
  | snapshot snapshot => exact List.filter_subset_self _
  | tick change => exact List.Subset.refl _
  | update change => exact List.Subset.refl _

theorem settled_closeSpan (state : BuildState) {event : BookEvent} {tokenId : String}
    (distinct : tokenId ≠ event.tokenId) (settled : Settled (closeSpan state event) tokenId) :
    Settled state tokenId := by
  cases event with
  | snapshot snapshot =>
    intro span member same
    refine settled span (List.mem_filter.mpr ⟨member, ?_⟩) same
    simpa [same] using distinct
  | tick change => exact settled
  | update change => exact settled

@[simp] theorem appendRow_reconstructor (state : BuildState) (event : BookEvent)
    (tokenIndex : TokenIndex) :
    (builder.appendRow state event tokenIndex).reconstructor = state.reconstructor := by
  unfold appendRow
  split <;> rfl

@[simp] theorem appendRow_pending (state : BuildState) (event : BookEvent)
    (tokenIndex : TokenIndex) :
    (builder.appendRow state event tokenIndex).pendingUncertain = state.pendingUncertain := by
  unfold appendRow
  split <;> rfl

@[simp] theorem appendRow_uncertainty (state : BuildState) (event : BookEvent)
    (tokenIndex : TokenIndex) :
    (builder.appendRow state event tokenIndex).uncertainty = state.uncertainty := by
  unfold appendRow
  split <;> rfl

/-- A refused event leaves the rows alone; an accepted one writes at most its own row. -/
theorem step_cases {state after : BuildState} {event : BookEvent}
    (ran : builder.step episode state event = .ok after) :
    ∃ tokenIndex, tokens episode event.tokenId = some tokenIndex ∧
      ((∃ e applied, state.reconstructor.applyEvent event = (applied, .error e) ∧
        after = refuse state applied event e) ∨
      ∃ applied, state.reconstructor.applyEvent event = (applied, .ok ()) ∧
        after = builder.appendRow (closeSpan { state with reconstructor := applied } event) event
          tokenIndex) := by
  unfold step at ran
  split at ran
  · cases ran
  · next tokenIndex found =>
    refine ⟨tokenIndex, found, ?_⟩
    split at ran
    · next applied e raised => exact .inl ⟨e, applied, raised, (Except.ok.inj ran).symm⟩
    · next applied result accepted => exact .inr ⟨applied, accepted, (Except.ok.inj ran).symm⟩

theorem Tracks.init : Tracks builder episode [] ⟨.init, [], 0, [], []⟩ where
  reconstructor := rfl
  positive := BookReconstructor.Positive.init
  stamps := List.Sublist.refl _
  indexed := by simp
  opened := by simp
  closed := by simp
  current := fun _ _ _ => rfl

private theorem absorbAll_concat (past : List BookEvent) (event : BookEvent) :
    BookReconstructor.init.absorbAll (past ++ [event]) =
      (BookReconstructor.init.absorbAll past).absorb event := by
  simp [BookReconstructor.absorbAll]

theorem Tracks.refuse {past : List BookEvent} {state : BuildState} {event : BookEvent} {e : PyError}
    {applied : BookReconstructor} (tracks : Tracks builder episode past state)
    (raised : state.reconstructor.applyEvent event = (applied, .error e)) :
    Tracks builder episode (past ++ [event]) (refuse state applied event e) where
  reconstructor := by
    rw [absorbAll_concat, ← tracks.reconstructor]
    simp [BookReconstructor.absorb, raised, TapeBuilder.refuse]
  positive := by
    have positive := tracks.positive.applyEvent event
    rw [raised] at positive
    exact positive.invalidate _
  stamps := by
    rw [List.map_append]
    exact tracks.stamps.trans (List.sublist_append_left _ _)
  indexed := tracks.indexed
  opened := by
    intro span member
    rw [List.map_append]
    simp only [TapeBuilder.refuse] at member
    split at member
    · exact ⟨(tracks.opened span member).1, List.mem_append_left _ (tracks.opened span member).2⟩
    · rcases List.mem_append.mp member with old | new
      · exact ⟨(tracks.opened span old).1, List.mem_append_left _ (tracks.opened span old).2⟩
      · obtain rfl := List.mem_singleton.mp new
        exact ⟨rfl, by simp⟩
  closed := by
    intro span member book stored
    by_cases own : span.tokenId = event.tokenId
    · rw [own] at stored
      exact invalidate_books_self stored
    · have older : span ∈ state.pendingUncertain := by
        simp only [TapeBuilder.refuse] at member
        split at member
        · exact member
        · rcases List.mem_append.mp member with old | new
          · exact old
          · obtain rfl := List.mem_singleton.mp new
            exact (own rfl).elim
      have frame := applyEvent_books_of_ne state.reconstructor event own
      rw [raised] at frame
      exact tracks.closed span older book
        (frame.symm.trans ((invalidate_books_of_ne own).symm.trans stored))
  current := by
    intro tokenIndex indexed settled
    obtain ⟨before, distinct⟩ := settled_refuse settled
    have shown := tracks.current tokenIndex indexed before
    have frame := applyEvent_books_of_ne state.reconstructor event distinct
    rw [raised] at frame
    have books : (TapeBuilder.refuse state applied event e).reconstructor.books
        (episode.tokenIdOf tokenIndex) =
          state.reconstructor.books (episode.tokenIdOf tokenIndex) :=
      (invalidate_books_of_ne distinct).trans frame
    unfold Shown at shown ⊢
    rw [books]
    exact shown

/-- Only a tick change can succeed without leaving a book at its token, and it creates none. -/
theorem applyEvent_absent {reconstructor applied : BookReconstructor} {event : BookEvent}
    (accepted : reconstructor.applyEvent event = (applied, .ok ()))
    (absent : applied.books event.tokenId = none) :
    (∀ snapshot, event ≠ .snapshot snapshot) ∧ reconstructor.books event.tokenId = none := by
  cases event with
  | snapshot snapshot =>
    change reconstructor.applySnapshot snapshot = _ at accepted
    change applied.books snapshot.tokenId = none at absent
    rcases applySnapshot_cases reconstructor snapshot with
      ⟨e, raised, _⟩ | ⟨tick, result, _, books, _⟩
    · rw [accepted] at raised
      cases raised
    · rw [accepted] at books
      rw [books, Function.update_self] at absent
      cases absent
  | tick change =>
    refine ⟨by simp, ?_⟩
    change reconstructor.applyTickSizeChange change = _ at accepted
    change applied.books change.tokenId = none at absent
    rcases applyTickSizeChange_cases reconstructor change with
      books | ⟨book, _, books⟩
    · rw [accepted] at books
      exact (congrFun books change.tokenId).symm.trans absent
    · rw [accepted] at books
      rw [books, Function.update_self] at absent
      cases absent
  | update change =>
    change reconstructor.applyChange change = _ at accepted
    change applied.books change.tokenId = none at absent
    rcases applyChange_cases reconstructor change with
      ⟨e, refused, _⟩ | ⟨book, _, _, updated⟩
    · rw [accepted] at refused
      cases refused
    · rw [accepted] at updated
      obtain rfl := (Prod.mk.injEq .. ▸ updated).1
      simp at absent

/-- A span that survives an accepted event of its own token still has an invalid book: the event is a
tick change, since an update needs a valid book and a snapshot would have closed the span. -/
theorem accepted_pending {state : BuildState} {applied : BookReconstructor} {event : BookEvent}
    (closed : ∀ span ∈ state.pendingUncertain, ∀ book,
      state.reconstructor.books span.tokenId = some book → book.valid = false)
    (accepted : state.reconstructor.applyEvent event = (applied, .ok ())) {span : UncertaintySpan}
    (member : span ∈ (closeSpan { state with reconstructor := applied } event).pendingUncertain)
    (own : span.tokenId = event.tokenId) {book : OrderBook}
    (stored : applied.books span.tokenId = some book) : book.valid = false := by
  cases event with
  | snapshot snapshot => exact absurd own (of_decide_eq_true (List.mem_filter.mp member).2)
  | tick change =>
    change state.reconstructor.applyTickSizeChange change = _ at accepted
    rw [own] at stored
    rcases applyTickSizeChange_cases state.reconstructor change with
      books | ⟨before, beforeStored, books⟩
    · rw [accepted] at books
      exact closed span member book (own ▸ (congrFun books change.tokenId).symm.trans stored)
    · rw [accepted] at books
      change applied.books change.tokenId = some book at stored
      rw [books, Function.update_self] at stored
      obtain rfl := Option.some.inj stored
      exact closed span member before (own ▸ beforeStored)
  | update change =>
    change state.reconstructor.applyChange change = _ at accepted
    rcases applyChange_cases state.reconstructor change with
      ⟨e, refused, _⟩ | ⟨before, beforeStored, valid, _⟩
    · rw [accepted] at refused
      cases refused
    · exact absurd (closed span member before (own ▸ beforeStored)) (by simp [valid])

/-- The rows after an accepted event: those before it, and its own when its token has a book. -/
theorem appendRow_cases (builder : TapeBuilder) (state : BuildState) (event : BookEvent) (tokenIndex : TokenIndex) :
    (state.reconstructor.books event.tokenId = none ∧
      (builder.appendRow state event tokenIndex).rows = state.rows) ∨
    ∃ book, state.reconstructor.books event.tokenId = some book ∧
      (builder.appendRow state event tokenIndex).rows =
        state.rows ++ [builder.rowOf event tokenIndex book] := by
  unfold appendRow
  split
  · next absent => exact .inl ⟨absent, rfl⟩
  · next book stored => exact .inr ⟨book, stored, rfl⟩

theorem Tracks.accept (levels : builder.depth ≠ some 0) {past : List BookEvent}
    {state : BuildState} {event : BookEvent} {applied : BookReconstructor} {tokenIndex : TokenIndex}
    (tracks : Tracks builder episode past state)
    (found : tokens episode event.tokenId = some tokenIndex)
    (accepted : state.reconstructor.applyEvent event = (applied, .ok ())) :
    Tracks builder episode (past ++ [event])
      (builder.appendRow (closeSpan { state with reconstructor := applied } event) event
        tokenIndex) := by
  have named := tokens_eq_some found
  have positive := tracks.positive.applyEvent event
  rw [accepted] at positive
  have frame : ∀ tokenId, tokenId ≠ event.tokenId →
      applied.books tokenId = state.reconstructor.books tokenId := by
    intro tokenId distinct
    have frame := applyEvent_books_of_ne state.reconstructor event distinct
    rwa [accepted] at frame
  have rows := appendRow_cases builder
    (closeSpan { state with reconstructor := applied } event) event tokenIndex
  rw [closeSpan_reconstructor, closeSpan_rows] at rows
  dsimp only at rows
  have indexed : ∀ row ∈ (builder.appendRow (closeSpan { state with reconstructor := applied } event)
      event tokenIndex).rows,
      tokens episode (episode.tokenIdOf row.tokenIndex) = some row.tokenIndex := by
    intro row member
    rcases rows with ⟨_, rows⟩ | ⟨book, _, rows⟩
    · exact tracks.indexed row (rows ▸ member)
    · rcases List.mem_append.mp (rows ▸ member) with old | new
      · exact tracks.indexed row old
      · obtain rfl := List.mem_singleton.mp new
        exact named ▸ found
  refine ⟨?_, ?_, ?_, indexed, ?_, ?_, ?_⟩
  · rw [appendRow_reconstructor, closeSpan_reconstructor, absorbAll_concat, ← tracks.reconstructor]
    simp [BookReconstructor.absorb, accepted]
  · rw [appendRow_reconstructor, closeSpan_reconstructor]
    exact positive
  · rw [List.map_append]
    rcases rows with ⟨_, rows⟩ | ⟨book, _, rows⟩
    · rw [rows]
      exact tracks.stamps.trans (List.sublist_append_left _ _)
    · rw [rows, List.map_append]
      exact tracks.stamps.append (List.Sublist.refl _)
  · intro span member
    rw [appendRow_pending] at member
    have before := tracks.opened span
      (closeSpan_pending { state with reconstructor := applied } event member)
    exact ⟨before.1, by rw [List.map_append]; exact List.mem_append_left _ before.2⟩
  · intro span member book stored
    rw [appendRow_pending] at member
    rw [appendRow_reconstructor, closeSpan_reconstructor] at stored
    have older := closeSpan_pending { state with reconstructor := applied } event member
    by_cases own : span.tokenId = event.tokenId
    · exact accepted_pending tracks.closed accepted member own stored
    · exact tracks.closed span older book ((frame _ own).symm.trans stored)
  · intro other known settled
    rw [Settled, appendRow_pending] at settled
    unfold Shown
    rw [appendRow_reconstructor, closeSpan_reconstructor]
    by_cases same : episode.tokenIdOf other = event.tokenId
    · obtain rfl : tokenIndex = other := by
        rw [same, found] at known
        exact Option.some.inj known
      rw [same]
      rcases rows with ⟨absent, rows⟩ | ⟨book, stored, rows⟩
      · -- A tick change of a token without a book, which therefore has no row either.
        obtain ⟨notSnapshot, before⟩ := applyEvent_absent accepted absent
        have unclosed : Settled state (episode.tokenIdOf tokenIndex) := by
          cases event with
          | snapshot snapshot => exact (notSnapshot snapshot rfl).elim
          | tick change => exact settled
          | update change => exact settled
        have shown := tracks.current tokenIndex known unclosed
        unfold Shown at shown
        rw [same, before] at shown
        rw [absent, rows]
        exact shown
      · rw [stored, rows]
        exact ⟨_, lastRow_append_self _, rfl,
          showsBook_rowOf levels (positive _ _ stored) event tokenIndex⟩
    · have distinct : tokenIndex ≠ other := by
        rintro rfl
        exact same named.symm
      have unchanged : lastRow (builder.appendRow
          (closeSpan { state with reconstructor := applied } event) event tokenIndex).rows other =
            lastRow state.rows other := by
        rcases rows with ⟨_, rows⟩ | ⟨book, _, rows⟩
        · rw [rows]
        · rw [rows]
          exact lastRow_append_of_ne _ distinct
      have shown := tracks.current other known
        (settled_closeSpan { state with reconstructor := applied } same settled)
      unfold Shown at shown
      rw [frame _ same, unchanged]
      exact shown

/-- A completed build tracks the reconstruction of all its events. -/
theorem Tracks.of_scan (levels : builder.depth ≠ some 0) {events : List BookEvent}
    {state : BuildState} (scanned : builder.scan episode events = .ok state) :
    Tracks builder episode events state := by
  refine Except.foldlM_history (Tracks builder episode) Tracks.init ?_ scanned
  intro past event state after _ tracks ran
  obtain ⟨tokenIndex, found, ⟨e, applied, raised, rfl⟩ | ⟨applied, accepted, rfl⟩⟩ := step_cases ran
  · exact tracks.refuse raised
  · exact tracks.accept levels found accepted

/-! ## Later events do not change what an instant sees -/

/-- Some span of the token, open or closed, covers the instant. -/
def Exposed (state : BuildState) (tokenId : String) (timestampNs : ℤ) : Prop :=
  ∃ span ∈ state.uncertainty ++ state.pendingUncertain, span.covers tokenId timestampNs = true

theorem exposed_refuse {state : BuildState} {applied : BookReconstructor} {event : BookEvent}
    {e : PyError} {tokenId : String} {timestampNs : ℤ} (exposed : Exposed state tokenId timestampNs) :
    Exposed (refuse state applied event e) tokenId timestampNs := by
  obtain ⟨span, member, covers⟩ := exposed
  refine ⟨span, ?_, covers⟩
  simp only [refuse]
  split
  · exact member
  · rw [← List.append_assoc]
    exact List.mem_append_left _ member

/-- Closing a span after the instant keeps the instant covered. -/
theorem exposed_closeSpan (state : BuildState) {event : BookEvent} {tokenId : String}
    {timestampNs : ℤ} (later : timestampNs < event.receivedUtcNs)
    (exposed : Exposed state tokenId timestampNs) :
    Exposed (closeSpan state event) tokenId timestampNs := by
  cases event with
  | tick change => exact exposed
  | update change => exact exposed
  | snapshot snapshot =>
    obtain ⟨span, member, covers⟩ := exposed
    rcases List.mem_append.mp member with closed | pending
    · exact ⟨span, List.mem_append_left _ (List.mem_append_left _ closed), covers⟩
    · by_cases own : span.tokenId = snapshot.tokenId
      · refine ⟨{ span with endUtcNs := some snapshot.receivedUtcNs }, ?_, ?_⟩
        · refine List.mem_append_left _ (List.mem_append_right _ (List.mem_map_of_mem ?_))
          exact List.mem_filter.mpr ⟨pending, decide_eq_true own⟩
        · simp only [UncertaintySpan.covers, Bool.and_eq_true, decide_eq_true_eq,
            Option.all_some] at covers ⊢
          exact ⟨covers.1, le_of_lt later⟩
      · exact ⟨span, List.mem_append_right _ (List.mem_filter.mpr ⟨pending, decide_eq_true own⟩),
          covers⟩

theorem exposed_step {state after : BuildState} {event : BookEvent} {tokenId : String}
    {timestampNs : ℤ} (ran : builder.step episode state event = .ok after)
    (later : timestampNs < event.receivedUtcNs) (exposed : Exposed state tokenId timestampNs) :
    Exposed after tokenId timestampNs := by
  obtain ⟨tokenIndex, _, ⟨e, applied, _, rfl⟩ | ⟨applied, _, rfl⟩⟩ := step_cases ran
  · exact exposed_refuse exposed
  · unfold Exposed
    rw [appendRow_uncertainty, appendRow_pending]
    exact exposed_closeSpan { state with reconstructor := applied } later exposed

theorem exposed_foldlM {events : List BookEvent} {state final : BuildState} {tokenId : String}
    {timestampNs : ℤ} (ran : events.foldlM (builder.step episode) state = .ok final)
    (later : ∀ event ∈ events, timestampNs < event.receivedUtcNs)
    (exposed : Exposed state tokenId timestampNs) : Exposed final tokenId timestampNs :=
  Except.foldlM_history (fun _ current => Exposed current tokenId timestampNs) exposed
    (fun _ event _ _ member covered stepped => exposed_step stepped (later event member) covered) ran

theorem step_rows {state after : BuildState} {event : BookEvent}
    (ran : builder.step episode state event = .ok after) :
    ∃ later, after.rows = state.rows ++ later ∧
      ∀ row ∈ later, row.receivedUtcNs = event.receivedUtcNs := by
  obtain ⟨tokenIndex, _, ⟨e, applied, _, rfl⟩ | ⟨applied, _, rfl⟩⟩ := step_cases ran
  · exact ⟨[], by simp [refuse], by simp⟩
  · rcases appendRow_cases builder
        (closeSpan { state with reconstructor := applied } event) event tokenIndex with
      ⟨_, rows⟩ | ⟨book, _, rows⟩
    · exact ⟨[], by rw [rows, closeSpan_rows, List.append_nil], by simp⟩
    · refine ⟨[builder.rowOf event tokenIndex book], by rw [rows, closeSpan_rows], ?_⟩
      intro row member
      obtain rfl := List.mem_singleton.mp member
      rfl

/-- Later events only add rows, with their own stamps. -/
theorem foldlM_rows {events : List BookEvent} {state final : BuildState}
    (ran : events.foldlM (builder.step episode) state = .ok final) :
    ∃ later, final.rows = state.rows ++ later ∧
      ∀ row ∈ later, ∃ event ∈ events, row.receivedUtcNs = event.receivedUtcNs := by
  refine Except.foldlM_history (fun past current => ∃ later, current.rows = state.rows ++ later ∧
    ∀ row ∈ later, ∃ event ∈ past, row.receivedUtcNs = event.receivedUtcNs)
    ⟨[], by simp, by simp⟩ ?_ ran
  rintro past event current after _ ⟨later, rows, stamps⟩ stepped
  obtain ⟨own, added, ownStamps⟩ := step_rows stepped
  refine ⟨later ++ own, by rw [added, rows, List.append_assoc], fun row member => ?_⟩
  rcases List.mem_append.mp member with old | new
  · obtain ⟨event, inPast, same⟩ := stamps row old
    exact ⟨event, List.mem_append_left _ inPast, same⟩
  · exact ⟨event, by simp, ownStamps row new⟩

/-- A completed scan of a concatenation passed through the state of its first part. -/
theorem scan_append {past future : List BookEvent} {final : BuildState}
    (scanned : builder.scan episode (past ++ future) = .ok final) :
    ∃ state, builder.scan episode past = .ok state ∧
      future.foldlM (builder.step episode) state = .ok final := by
  rwa [scan, List.foldlM_append, Except.bind_eq_ok] at scanned

/-! ## Looking up a row of the finished tape -/

theorem received_split {events : List BookEvent}
    (ordered : events.Pairwise fun earlier later => earlier.receivedUtcNs ≤ later.receivedUtcNs)
    (timestampNs : ℤ) :
    events = events.filter (fun event => event.receivedUtcNs ≤ timestampNs) ++
      events.filter (fun event => !decide (event.receivedUtcNs ≤ timestampNs)) := by
  have sorted : (events.map BookEvent.receivedUtcNs).Pairwise (· ≤ ·) := List.pairwise_map.mpr ordered
  rw [← List.take_bisectRight _ sorted timestampNs, ← List.drop_bisectRight _ sorted timestampNs,
    List.take_append_drop]

/-- The rows of a build stand in receipt order when its events do. -/
theorem Tracks.ordered {past : List BookEvent} {state : BuildState}
    (tracks : Tracks builder episode past state)
    (ordered : past.Pairwise fun earlier later => earlier.receivedUtcNs ≤ later.receivedUtcNs) :
    state.rows.Pairwise fun earlier later => earlier.receivedUtcNs ≤ later.receivedUtcNs := by
  rw [← List.pairwise_map (f := TapeRow.receivedUtcNs) (R := (· ≤ ·))]
  exact (List.pairwise_map.mpr ordered).sublist tracks.stamps

/-- The row found at an instant is the last row of the build after the events received by then. -/
theorem lastRow_of_rowAt (tape : EpisodeTape) (ordered : tape.Ordered) {rows later : List TapeRow}
    {timestampNs : ℤ} (split : tape.rows = rows ++ later)
    (before : ∀ row ∈ rows, row.receivedUtcNs ≤ timestampNs)
    (after : ∀ row ∈ later, timestampNs < row.receivedUtcNs) {tokenIndex : TokenIndex}
    {row : TapeRow} (position : ℕ)
    (met : rowAt (tokenRows tape tokenIndex) timestampNs = some (row, position)) :
    lastRow rows tokenIndex = some row := by
  rw [rowAt_eq_getLast? (stamps_sorted ordered tokenIndex)] at met
  have projected := congrArg (Option.map Prod.fst) met
  rw [← List.getLast?_map] at projected
  have visible : ((tokenRows tape tokenIndex).filter
      fun entry => decide (entry.1.receivedUtcNs ≤ timestampNs)).map Prod.fst =
      (tape.rows.filter fun row => row.tokenIndex = tokenIndex).filter
        fun row => decide (row.receivedUtcNs ≤ timestampNs) := by
    rw [← tokenRows_map_fst, List.filter_map]
    rfl
  have kept : rows.filter (fun row => decide (row.receivedUtcNs ≤ timestampNs)) = rows :=
    List.filter_eq_self.mpr fun row member => by simpa using before row member
  have dropped : later.filter (fun row => decide (row.receivedUtcNs ≤ timestampNs)) = [] :=
    List.filter_eq_nil_iff.mpr fun row member => by simpa using after row member
  rw [visible, List.filter_comm, split, List.filter_append, kept, dropped, List.append_nil]
    at projected
  exact projected

end TapeBuilder

end PolymarketBt
