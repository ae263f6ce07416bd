import PolymarketBt.Soundness.BookQuarantine

/-! # Uncertainty intervals against the validity of the book

A mark opens an interval and a snapshot closes the latest open one of its token, whether or not it
replaced the book. The intervals therefore say when a book is valid exactly in those runs where a
replacing snapshot never meets two open intervals and a stale one never meets any.
-/

namespace PolymarketBt

namespace UncertaintyInterval

/-- Open for a token: nothing has closed it yet. -/
def OpenFor (tokenId : String) (interval : UncertaintyInterval) : Prop :=
  interval.tokenId = tokenId ∧ interval.endUtcNs = none

instance (tokenId : String) : DecidablePred (OpenFor tokenId) :=
  fun interval => inferInstanceAs (Decidable (interval.tokenId = tokenId ∧ interval.endUtcNs = none))

def closedBy (snapshot : BookSnapshot) (interval : UncertaintyInterval) : UncertaintyInterval :=
  { interval with
    endUtcNs := some snapshot.receivedUtcNs
    lastSequence := some snapshot.sequence }

end UncertaintyInterval

open UncertaintyInterval

namespace BookReconstructor

variable {reconstructor : BookReconstructor} {snapshot : BookSnapshot}

/-- Close every open interval of the token of a snapshot. -/
def closeAll (snapshot : BookSnapshot) (intervals : List UncertaintyInterval) :
    List UncertaintyInterval :=
  intervals.map fun interval =>
    if OpenFor snapshot.tokenId interval then interval.closedBy snapshot else interval

theorem closeLatest_retick (snapshot : BookSnapshot) (tick : ℤ)
    (intervals : List UncertaintyInterval) :
    closeLatest { snapshot with tickSizeScaled := tick } intervals =
      closeLatest snapshot intervals := by
  induction intervals with
  | nil => rfl
  | cons interval rest ih =>
    unfold closeLatest
    rw [ih]

/-- The latest open interval is the first in reversed order, and it alone is closed. -/
theorem filter_closeLatest (snapshot : BookSnapshot) (tokenId : String)
    (intervals : List UncertaintyInterval) :
    (closeLatest snapshot intervals).filter (OpenFor tokenId) =
      if tokenId = snapshot.tokenId then (intervals.filter (OpenFor tokenId)).tail
      else intervals.filter (OpenFor tokenId) := by
  induction intervals with
  | nil => simp [closeLatest]
  | cons interval rest ih =>
    unfold closeLatest
    split
    · next own =>
      by_cases same : tokenId = snapshot.tokenId
      · simp [OpenFor, same, own]
      · have other : ¬ snapshot.tokenId = tokenId := fun equal => same equal.symm
        simp [OpenFor, same, own, other]
    · next foreign =>
      rw [List.filter_cons, ih, List.filter_cons]
      by_cases same : tokenId = snapshot.tokenId
      · subst same
        simp [show ¬ OpenFor snapshot.tokenId interval from foreign]
      · simp only [if_neg same]

theorem filter_closeAll (snapshot : BookSnapshot) (intervals : List UncertaintyInterval) :
    (closeAll snapshot intervals).filter (OpenFor snapshot.tokenId) = [] := by
  rw [List.filter_eq_nil_iff]
  intro interval member
  obtain ⟨original, _, rfl⟩ := List.mem_map.mp member
  split
  · simp [OpenFor, closedBy]
  · next closed => simpa using closed

theorem closeAll_eq_self {intervals : List UncertaintyInterval}
    (closed : intervals.filter (OpenFor snapshot.tokenId) = []) :
    closeAll snapshot intervals = intervals := by
  conv_rhs => rw [← List.map_id intervals]
  refine List.map_congr_left fun interval member => ?_
  have := List.filter_eq_nil_iff.mp closed interval member
  rw [if_neg (by simpa using this)]
  rfl

/-- Closing the latest interval closes all of them when at most one is open. -/
theorem closeLatest_eq_closeAll_iff (snapshot : BookSnapshot)
    (intervals : List UncertaintyInterval) :
    closeLatest snapshot intervals = closeAll snapshot intervals ↔
      (intervals.filter (OpenFor snapshot.tokenId)).length ≤ 1 := by
  constructor
  · intro same
    have closed := filter_closeLatest snapshot snapshot.tokenId intervals
    rw [same, filter_closeAll, if_pos rfl] at closed
    have := congrArg List.length closed
    simp only [List.length_nil, List.length_tail] at this
    omega
  · induction intervals with
    | nil => exact fun _ => rfl
    | cons interval rest ih =>
      intro few
      unfold closeLatest
      by_cases own : OpenFor snapshot.tokenId interval
      · rw [List.filter_cons_of_pos (by simpa using own), List.length_cons] at few
        have closed : rest.filter (OpenFor snapshot.tokenId) = [] :=
          List.eq_nil_of_length_eq_zero (by omega)
        have later := closeAll_eq_self closed
        rw [if_pos (show interval.tokenId = snapshot.tokenId ∧ interval.endUtcNs = none from own)]
        change _ = (if _ then _ else _) :: closeAll snapshot rest
        rw [later, if_pos own]
        rfl
      · rw [List.filter_cons_of_neg (by simpa using own)] at few
        rw [if_neg (show ¬ (interval.tokenId = snapshot.tokenId ∧ interval.endUtcNs = none) from own)]
        change _ = (if _ then _ else _) :: closeAll snapshot rest
        rw [ih few, if_neg own]

theorem reverse_closeLatest_eq_closeAll_iff (snapshot : BookSnapshot)
    (intervals : List UncertaintyInterval) :
    (closeLatest snapshot intervals.reverse).reverse = closeAll snapshot intervals ↔
      (intervals.filter (OpenFor snapshot.tokenId)).length ≤ 1 := by
  have reversed : closeAll snapshot intervals.reverse = (closeAll snapshot intervals).reverse :=
    List.map_reverse
  rw [List.reverse_eq_iff, ← reversed, closeLatest_eq_closeAll_iff, List.filter_reverse,
    List.length_reverse]

/-! ## The two kinds of snapshots that succeed -/

/-- The snapshot fits the mapping of its token. -/
def Mapped (reconstructor : BookReconstructor) (snapshot : BookSnapshot) : Prop :=
  (reconstructor.bookFor snapshot).conditionId = snapshot.conditionId ∧
    (reconstructor.bookFor snapshot).outcome = snapshot.outcome

/-- The snapshot is in sequence and passes every check under the tick in force. -/
def Replaces (reconstructor : BookReconstructor) (snapshot : BookSnapshot) : Prop :=
  reconstructor.Mapped snapshot ∧
    (reconstructor.bookFor snapshot).lastSequence ≤ snapshot.sequence ∧
    (OrderBook.readSnapshot (reconstructor.effectiveSnapshot snapshot).2).2.2 = []

/-- The snapshot is older than the book of its token. -/
def Stale (reconstructor : BookReconstructor) (snapshot : BookSnapshot) : Prop :=
  reconstructor.Mapped snapshot ∧ snapshot.sequence < (reconstructor.bookFor snapshot).lastSequence

def openIntervals (reconstructor : BookReconstructor) (tokenId : String) :
    List UncertaintyInterval :=
  reconstructor.uncertainty.filter (OpenFor tokenId)

theorem Writes.tokenId {before after : OrderBook} (writes : Writes before after) :
    after.tokenId = before.tokenId := by
  cases writes with
  | replace snapshot =>
    unfold OrderBook.replace
    split
    · rfl
    split
    · rfl
    split <;> rfl
  | apply change =>
    have restated : ((before.restate change).pruneReported change).tokenId = before.tokenId := by
      unfold OrderBook.restate
      split <;> rfl
    unfold OrderBook.apply OrderBook.acceptChange
    split
    · rfl
    split
    · rfl
    split
    · split <;> exact restated
    · rfl
  | retick tick => rfl
  | invalidate => rfl

/-- Every book is stored under its own token. -/
theorem keyed_invariant : BookInvariant fun tokenId book => book.tokenId = tokenId where
  fresh _ _ _ := rfl
  step _ _ _ writes keyed := writes.tokenId.trans keyed

/-- A keyed book refuses no mapped snapshot for its mapping. -/
theorem replace_mapped {book : OrderBook} {snapshot : BookSnapshot}
    (token : book.tokenId = snapshot.tokenId) (condition : book.conditionId = snapshot.conditionId) :
    (snapshot.sequence < book.lastSequence ∧ book.replace snapshot = (book, .ok false)) ∨
    (book.lastSequence ≤ snapshot.sequence ∧ (OrderBook.readSnapshot snapshot).2.2 = [] ∧
      (book.replace snapshot).2 = .ok true) ∨
    (book.lastSequence ≤ snapshot.sequence ∧ (OrderBook.readSnapshot snapshot).2.2 ≠ [] ∧
      ∃ e, (book.replace snapshot).2 = .error e) := by
  unfold OrderBook.replace
  rw [if_neg (by simp [token, condition])]
  split
  · next stale => exact .inl ⟨stale, rfl⟩
  next fresh =>
  split
  · next read => exact .inr (.inl ⟨not_lt.mp fresh, by rw [read], rfl⟩)
  · next bids asks issues found read =>
    exact .inr (.inr ⟨not_lt.mp fresh, by rw [read]; exact found, _, rfl⟩)

theorem effectiveSnapshot_uncertainty (reconstructor : BookReconstructor) (snapshot : BookSnapshot) :
    (reconstructor.effectiveSnapshot snapshot).1.uncertainty = reconstructor.uncertainty := by
  unfold effectiveSnapshot
  split
  · rfl
  · split <;> rfl

theorem register_mapped (reconstructor : BookReconstructor) (snapshot : BookSnapshot) :
    (¬ reconstructor.Mapped snapshot ∧ ∃ e,
      reconstructor.register snapshot.conditionId snapshot.tokenId snapshot.outcome =
        (reconstructor, .error e)) ∨
    (reconstructor.Mapped snapshot ∧ ∃ registered,
      reconstructor.register snapshot.conditionId snapshot.tokenId snapshot.outcome =
        (registered, .ok (reconstructor.bookFor snapshot)) ∧
      registered.uncertainty = reconstructor.uncertainty) := by
  unfold register Mapped bookFor
  cases stored : reconstructor.books snapshot.tokenId with
  | none => exact .inr ⟨⟨rfl, rfl⟩, _, rfl, rfl⟩
  | some book =>
    simp only [Option.getD_some]
    by_cases moved : book.conditionId ≠ snapshot.conditionId ∨ book.outcome ≠ snapshot.outcome
    · refine .inl ⟨fun mapped => ?_, _, if_pos moved⟩
      exact moved.elim (· mapped.1) (· mapped.2)
    · refine .inr ⟨?_, _, if_neg moved, rfl⟩
      simpa only [not_or, not_not] using moved

/-- A snapshot that succeeds closes the latest open interval, and one that raises closes none. -/
theorem applySnapshot_closes (reconstructor : BookReconstructor) (snapshot : BookSnapshot) :
    (¬ reconstructor.Mapped snapshot ∧ (∃ e, (reconstructor.applySnapshot snapshot).2 = .error e) ∧
      (reconstructor.applySnapshot snapshot).1.uncertainty = reconstructor.uncertainty) ∨
    (reconstructor.Mapped snapshot ∧
      ∀ result, ((reconstructor.bookFor snapshot).replace
          (reconstructor.effectiveSnapshot snapshot).2).2 = result →
        (reconstructor.applySnapshot snapshot).2 = result.map (fun _ => ()) ∧
        (reconstructor.applySnapshot snapshot).1.uncertainty =
          match result with
          | .error _ => reconstructor.uncertainty
          | .ok _ => (closeLatest snapshot reconstructor.uncertainty.reverse).reverse) := by
  obtain ⟨tick, read⟩ := effectiveSnapshot_snapshot reconstructor snapshot
  have books := effectiveSnapshot_books reconstructor snapshot
  have open_ := effectiveSnapshot_uncertainty reconstructor snapshot
  unfold applySnapshot
  rcases effective : reconstructor.effectiveSnapshot snapshot with ⟨ticked, ticketed⟩
  simp only [effective] at read books open_
  subst ticketed
  dsimp only
  have found : ticked.bookFor snapshot = reconstructor.bookFor snapshot := by
    unfold bookFor
    rw [books]
  have mapping : ticked.Mapped snapshot ↔ reconstructor.Mapped snapshot := by
    unfold Mapped
    rw [found]
  rcases register_mapped ticked snapshot with
    ⟨unmapped, e, registered⟩ | ⟨mapped, after, registered, kept⟩
  · rw [registered]
    exact .inl ⟨mapping.not.mp unmapped, ⟨e, rfl⟩, open_⟩
  · refine .inr ⟨mapping.mp mapped, ?_⟩
    rintro result rfl
    rw [registered, found]
    rcases replaced : (reconstructor.bookFor snapshot).replace
      { snapshot with tickSizeScaled := tick } with ⟨book, e | done⟩
    · simp only [replaced]
      exact ⟨rfl, kept.trans open_⟩
    · simp only [replaced]
      rw [closeLatest_retick, kept, open_]
      exact ⟨rfl, rfl⟩

/-- The kinds of snapshots: one replaces the book, one is dropped as stale and closes an interval
all the same, and one raises. -/
theorem applySnapshot_kinds
    (keyed : reconstructor.Books fun tokenId book => book.tokenId = tokenId)
    (snapshot : BookSnapshot) :
    (reconstructor.Replaces snapshot ∧ (reconstructor.applySnapshot snapshot).1.uncertainty =
      (closeLatest snapshot reconstructor.uncertainty.reverse).reverse) ∨
    (reconstructor.Stale snapshot ∧ (reconstructor.applySnapshot snapshot).1.uncertainty =
      (closeLatest snapshot reconstructor.uncertainty.reverse).reverse) ∨
    (¬ reconstructor.Replaces snapshot ∧ ¬ reconstructor.Stale snapshot ∧
      (∃ e, (reconstructor.applySnapshot snapshot).2 = .error e) ∧
      (reconstructor.applySnapshot snapshot).1.uncertainty = reconstructor.uncertainty) := by
  rcases applySnapshot_closes reconstructor snapshot with ⟨unmapped, raised, kept⟩ | ⟨mapped, closes⟩
  · exact .inr (.inr ⟨fun replaces => unmapped replaces.1, fun stale => unmapped stale.1, raised, kept⟩)
  have token := keyed_invariant.found keyed (finds_bookFor reconstructor snapshot)
  obtain ⟨tick, read⟩ := effectiveSnapshot_snapshot reconstructor snapshot
  have sequence : (reconstructor.effectiveSnapshot snapshot).2.sequence = snapshot.sequence := by
    rw [read]
  have named : (reconstructor.bookFor snapshot).tokenId =
      (reconstructor.effectiveSnapshot snapshot).2.tokenId := by
    rw [read]
    exact token
  have conditioned : (reconstructor.bookFor snapshot).conditionId =
      (reconstructor.effectiveSnapshot snapshot).2.conditionId := by
    rw [read]
    exact mapped.1
  rcases replace_mapped named conditioned with
    ⟨stale, result⟩ | ⟨fresh, clean, result⟩ | ⟨fresh, issues, e, result⟩
  · exact .inr (.inl ⟨⟨mapped, sequence ▸ stale⟩, (closes _ (congrArg Prod.snd result)).2⟩)
  · exact .inl ⟨⟨mapped, sequence ▸ fresh, clean⟩, (closes _ result).2⟩
  · refine .inr (.inr ⟨fun replaces => issues replaces.2.2, fun stale => ?_,
      ⟨e, (closes _ result).1⟩, (closes _ result).2⟩)
    have := stale.2
    omega

/-- A book becomes valid only through a snapshot that replaces it. -/
theorem replaces_of_recovers
    (keyed : reconstructor.Books fun tokenId book => book.tokenId = tokenId)
    {operation : BookOperation} {tokenId : String} (invalid : ¬ reconstructor.Valid tokenId)
    (valid : (reconstructor.perform operation).1.Valid tokenId) :
    ∃ snapshot, operation = .event (.snapshot snapshot) ∧ snapshot.tokenId = tokenId ∧
      reconstructor.Replaces snapshot := by
  obtain ⟨snapshot, rfl, own, ran, fresh⟩ := perform_recovers invalid valid
  refine ⟨snapshot, rfl, own, ?_⟩
  rcases applySnapshot_kinds keyed snapshot with
    ⟨replaces, _⟩ | ⟨stale, _⟩ | ⟨_, _, ⟨e, raised⟩, _⟩
  · exact replaces
  · exact absurd stale.2 (not_lt.mpr fresh)
  · rw [raised] at ran
    cases ran

/-- What a step does to the open intervals of a token. -/
theorem perform_openIntervals
    (keyed : reconstructor.Books fun tokenId book => book.tokenId = tokenId)
    (operation : BookOperation) :
    (∃ tokenId startUtcNs reason firstSequence,
      operation = .markUncertain tokenId startUtcNs reason firstSequence ∧
      (reconstructor.perform operation).1.uncertainty = reconstructor.uncertainty ++
        [⟨tokenId, startUtcNs, none, reason, firstSequence, none⟩]) ∨
    (∃ snapshot, operation = .event (.snapshot snapshot) ∧
      (reconstructor.Replaces snapshot ∨ reconstructor.Stale snapshot) ∧
      (reconstructor.perform operation).1.uncertainty =
        (closeLatest snapshot reconstructor.uncertainty.reverse).reverse) ∨
    ((∀ snapshot, operation = .event (.snapshot snapshot) →
        ¬ reconstructor.Replaces snapshot ∧ ¬ reconstructor.Stale snapshot) ∧
      (reconstructor.perform operation).1.uncertainty = reconstructor.uncertainty) := by
  cases operation with
  | markUncertain tokenId startUtcNs reason firstSequence => exact .inl ⟨_, _, _, _, rfl, rfl⟩
  | event event =>
    cases event with
    | snapshot snapshot =>
      rcases applySnapshot_kinds keyed snapshot with
        ⟨replaces, closes⟩ | ⟨stale, closes⟩ | ⟨keeps, fresh, _, kept⟩
      · exact .inr (.inl ⟨snapshot, rfl, .inl replaces, closes⟩)
      · exact .inr (.inl ⟨snapshot, rfl, .inr stale, closes⟩)
      · refine .inr (.inr ⟨?_, kept⟩)
        rintro other same
        cases same
        exact ⟨keeps, fresh⟩
    | tick change =>
      refine .inr (.inr ⟨fun snapshot same => (nomatch same), ?_⟩)
      change (reconstructor.applyTickSizeChange change).1.uncertainty = _
      unfold applyTickSizeChange
      split
      · rfl
      dsimp only
      split
      · rfl
      split <;> rfl
    | update change =>
      refine .inr (.inr ⟨fun snapshot same => (nomatch same), ?_⟩)
      change (reconstructor.applyChange change).1.uncertainty = _
      unfold applyChange
      split
      · rfl
      split <;> rfl

theorem openIntervals_closes {after : BookReconstructor} {snapshot : BookSnapshot}
    (closes : after.uncertainty = (closeLatest snapshot reconstructor.uncertainty.reverse).reverse)
    (tokenId : String) :
    after.openIntervals tokenId =
      if tokenId = snapshot.tokenId then (reconstructor.openIntervals tokenId).dropLast
      else reconstructor.openIntervals tokenId := by
  unfold openIntervals
  rw [closes, List.filter_reverse, filter_closeLatest]
  split
  · rw [List.filter_reverse, List.tail_reverse, List.reverse_reverse]
  · rw [List.filter_reverse, List.reverse_reverse]

/-! ## Runs -/

/-- A replacing snapshot meets at most one open interval of its token, and a stale one meets none. -/
def Settled (reconstructor : BookReconstructor) (operation : BookOperation) : Prop :=
  ∀ snapshot, operation = .event (.snapshot snapshot) →
    (reconstructor.Replaces snapshot → (reconstructor.openIntervals snapshot.tokenId).length ≤ 1) ∧
    (reconstructor.Stale snapshot → reconstructor.openIntervals snapshot.tokenId = [])

/-- The token was marked, and no snapshot has replaced its book since. -/
def Awaiting (operations : List BookOperation) (tokenId : String) : Prop :=
  ∃ earlier startUtcNs reason firstSequence later,
    operations = earlier ++ .markUncertain tokenId startUtcNs reason firstSequence :: later ∧
    ∀ between snapshot rest, later = between ++ .event (.snapshot snapshot) :: rest →
      snapshot.tokenId = tokenId →
      ¬ (init.performAll (earlier ++ .markUncertain tokenId startUtcNs reason firstSequence ::
        between)).Replaces snapshot

/-- At every point of the run a valid book has no open interval and an awaited one has an open
interval; a replacing snapshot closes all of its token's open intervals, and another closes none. -/
def IntervalsTrackValidity (operations : List BookOperation) : Prop :=
  ∀ earlier later, operations = earlier ++ later →
    (∀ tokenId, (init.performAll earlier).Valid tokenId →
      (init.performAll earlier).openIntervals tokenId = []) ∧
    (∀ tokenId book, (init.performAll earlier).books tokenId = some book →
      Awaiting earlier tokenId → (init.performAll earlier).openIntervals tokenId ≠ []) ∧
    ∀ snapshot rest, later = .event (.snapshot snapshot) :: rest →
      ((init.performAll earlier).Replaces snapshot →
        ((init.performAll earlier).applySnapshot snapshot).1.uncertainty =
          closeAll snapshot (init.performAll earlier).uncertainty) ∧
      (¬ (init.performAll earlier).Replaces snapshot →
        ((init.performAll earlier).applySnapshot snapshot).1.uncertainty =
          (init.performAll earlier).uncertainty)

/-- A settled step keeps the valid books without open intervals. -/
theorem Settled.keeps_valid
    (keyed : reconstructor.Books fun tokenId book => book.tokenId = tokenId)
    {operation : BookOperation} (settled : reconstructor.Settled operation)
    (tracked : ∀ tokenId, reconstructor.Valid tokenId → reconstructor.openIntervals tokenId = [])
    {tokenId : String} (valid : (reconstructor.perform operation).1.Valid tokenId) :
    (reconstructor.perform operation).1.openIntervals tokenId = [] := by
  by_cases before : reconstructor.Valid tokenId
  · have closed := tracked tokenId before
    rcases perform_openIntervals keyed operation with
      ⟨marked, startUtcNs, reason, firstSequence, rfl, opens⟩ | ⟨snapshot, rfl, _, closes⟩ | ⟨_, kept⟩
    · by_cases own : tokenId = marked
      · obtain ⟨book, stored, sound⟩ := valid
        subst own
        rw [invalidate_books_self stored] at sound
        cases sound
      · have other : ¬ marked = tokenId := fun equal => own equal.symm
        unfold openIntervals at closed ⊢
        rw [opens, List.filter_append, closed]
        simp [OpenFor, other]
    · rw [openIntervals_closes closes, closed]
      simp
    · unfold openIntervals
      rw [kept]
      exact closed
  · obtain ⟨snapshot, rfl, rfl, replaces⟩ := replaces_of_recovers keyed before valid
    have few := (settled snapshot rfl).1 replaces
    rcases perform_openIntervals keyed (.event (.snapshot snapshot)) with
      ⟨_, _, _, _, mark, _⟩ | ⟨same, own, _, closes⟩ | ⟨keeps, _⟩
    · cases mark
    · cases own
      rw [openIntervals_closes closes, if_pos rfl]
      apply List.eq_nil_of_length_eq_zero
      rw [List.length_dropLast]
      omega
    · exact absurd replaces (keeps snapshot rfl).1

/-- A settled step that replaces no book of the token leaves it an open interval. -/
theorem Settled.keeps_open
    (keyed : reconstructor.Books fun tokenId book => book.tokenId = tokenId)
    {operation : BookOperation} (settled : reconstructor.Settled operation) {tokenId : String}
    (opened : reconstructor.openIntervals tokenId ≠ [])
    (awaiting : ∀ snapshot, operation = .event (.snapshot snapshot) → snapshot.tokenId = tokenId →
      ¬ reconstructor.Replaces snapshot) :
    (reconstructor.perform operation).1.openIntervals tokenId ≠ [] := by
  rcases perform_openIntervals keyed operation with
    ⟨marked, startUtcNs, reason, firstSequence, rfl, opens⟩ | ⟨snapshot, rfl, kind, closes⟩ | ⟨_, kept⟩
  · unfold openIntervals at opened ⊢
    rw [opens, List.filter_append]
    exact List.append_ne_nil_of_left_ne_nil opened _
  · rw [openIntervals_closes closes]
    split
    · next own =>
      subst own
      rcases kind with replaces | stale
      · exact absurd replaces (awaiting snapshot rfl rfl)
      · exact absurd ((settled snapshot rfl).2 stale) opened
    · exact opened
  · unfold openIntervals at opened ⊢
    rwa [kept]

/-- Every step of the run is settled in the state it meets. -/
def SettledRun (operations : List BookOperation) : Prop :=
  ∀ earlier operation later, operations = earlier ++ operation :: later →
    (init.performAll earlier).Settled operation

theorem performAll_keyed (operations : List BookOperation) :
    (init.performAll operations).Books fun tokenId book => book.tokenId = tokenId :=
  keyed_invariant.performAll Books.init operations

theorem performAll_concat (earlier : List BookOperation) (operation : BookOperation) :
    init.performAll (earlier ++ [operation]) = ((init.performAll earlier).perform operation).1 :=
  performAll_append _ _

theorem SettledRun.valid_closed {operations : List BookOperation} (settled : SettledRun operations)
    {tokenId : String} (valid : (init.performAll operations).Valid tokenId) :
    (init.performAll operations).openIntervals tokenId = [] := by
  induction operations using List.reverseRecOn generalizing tokenId with
  | nil =>
    obtain ⟨book, stored, _⟩ := valid
    cases stored
  | append_singleton earlier operation ih =>
    have before : SettledRun earlier := fun first step rest split =>
      settled first step (rest ++ [operation]) (by simp [split])
    rw [performAll_concat] at valid ⊢
    exact (settled earlier operation [] rfl).keeps_valid (performAll_keyed earlier)
      (fun _ => ih before) valid

theorem SettledRun.awaiting_open {operations : List BookOperation} (settled : SettledRun operations)
    {tokenId : String} (awaiting : Awaiting operations tokenId) :
    (init.performAll operations).openIntervals tokenId ≠ [] := by
  obtain ⟨earlier, startUtcNs, reason, firstSequence, later, rfl, unreplaced⟩ := awaiting
  induction later using List.reverseRecOn with
  | nil =>
    rw [performAll_concat]
    change List.filter _ (_ ++ [_]) ≠ []
    simp [OpenFor]
  | append_singleton between operation ih =>
    have before : SettledRun (earlier ++
        .markUncertain tokenId startUtcNs reason firstSequence :: between) :=
      fun first step rest split => settled first step (rest ++ [operation]) (by
        rw [← List.cons_append, ← List.append_assoc, split]
        simp)
    have opened := ih (fun first snapshot rest split =>
      unreplaced first snapshot (rest ++ [operation]) (by simp [split])) before
    have step := settled (earlier ++ .markUncertain tokenId startUtcNs reason firstSequence :: between)
      operation [] (by simp)
    rw [show earlier ++ .markUncertain tokenId startUtcNs reason firstSequence ::
        (between ++ [operation]) = (earlier ++
          .markUncertain tokenId startUtcNs reason firstSequence :: between) ++ [operation] by simp,
      performAll_concat]
    refine step.keeps_open (performAll_keyed _) opened fun snapshot same own => ?_
    exact unreplaced between snapshot [] (by rw [same]) own

/-- The intervals track the validity of every book exactly in the settled runs. -/
theorem intervalsTrackValidity_iff (operations : List BookOperation) :
    IntervalsTrackValidity operations ↔ SettledRun operations := by
  constructor
  · rintro tracked earlier operation later rfl snapshot rfl
    obtain ⟨_, _, closing⟩ := tracked earlier _ rfl
    obtain ⟨replacing, other⟩ := closing snapshot later rfl
    rcases applySnapshot_kinds (performAll_keyed earlier) snapshot with
      ⟨replaces, closes⟩ | ⟨stale, closes⟩ | ⟨keeps, fresh, _⟩
    · refine ⟨fun _ => ?_, fun stale => absurd stale.2 (not_lt.mpr replaces.2.1)⟩
      rw [replacing replaces, eq_comm, reverse_closeLatest_eq_closeAll_iff] at closes
      exact closes
    · have keeps : ¬ (init.performAll earlier).Replaces snapshot := fun replaces =>
        not_lt.mpr replaces.2.1 stale.2
      refine ⟨fun replaces => absurd replaces keeps, fun _ => ?_⟩
      have shorter := openIntervals_closes closes snapshot.tokenId
      rw [if_pos rfl] at shorter
      unfold openIntervals at shorter ⊢
      rw [other keeps] at shorter
      have lengths := congrArg List.length shorter
      rw [List.length_dropLast] at lengths
      exact List.eq_nil_of_length_eq_zero (by omega)
    · exact ⟨fun replaces => absurd replaces keeps, fun stale => absurd stale fresh⟩
  · rintro settled earlier later rfl
    have before : SettledRun earlier := fun first step rest split =>
      settled first step (rest ++ later) (by simp [split])
    refine ⟨fun tokenId valid => before.valid_closed valid,
      fun tokenId book _ awaiting => before.awaiting_open awaiting, ?_⟩
    rintro snapshot rest rfl
    obtain ⟨few, none⟩ := settled earlier _ rest rfl snapshot rfl
    rcases applySnapshot_kinds (performAll_keyed earlier) snapshot with
      ⟨replaces, closes⟩ | ⟨stale, closes⟩ | ⟨keeps, _, _, kept⟩
    · refine ⟨fun _ => ?_, fun keeps => absurd replaces keeps⟩
      rw [closes, reverse_closeLatest_eq_closeAll_iff]
      exact few replaces
    · refine ⟨fun replaces => absurd stale.2 (not_lt.mpr replaces.2.1), fun _ => ?_⟩
      have closed := none stale
      unfold openIntervals at closed
      rw [closes, (reverse_closeLatest_eq_closeAll_iff _ _).mpr (by rw [closed]; simp),
        closeAll_eq_self closed]
    · exact ⟨fun replaces => absurd replaces keeps, fun _ => kept⟩

/-! ## Where marks are stacked -/

private def quoted (sequence receivedUtcNs : ℤ) (bid ask : ℤ) (source : String) : BookSnapshot where
  sequence := sequence
  source := source
  conditionId := "0x0f"
  tokenId := "17"
  outcome := "UP"
  receivedUtcNs := receivedUtcNs
  bookHash := none
  tickSizeScaled := 10000
  minimumOrderSizeScaled := 5000000
  bids := [⟨bid, 1000000⟩]
  asks := [⟨ask, 1000000⟩]

/-- A reconnection marks the token, its crossed recovery snapshot raises and is marked again, and
the next websocket snapshot is good. -/
def stackedMarks : List BookOperation :=
  [.event (.snapshot (quoted 1 100 480000 520000 "clob_market_ws")),
    .markUncertain "17" 200 "websocket reconnection" none,
    .event (.snapshot (quoted 2 300 530000 520000 "clob_rest")),
    .markUncertain "17" 310 "best bid 530000 is not below best ask 520000" none,
    .event (.snapshot (quoted 3 400 490000 510000 "clob_market_ws"))]

theorem stackedMarks_not_tracked : ¬ IntervalsTrackValidity stackedMarks := by
  intro tracked
  obtain ⟨closed, _⟩ := tracked stackedMarks [] (by simp)
  have valid : (init.performAll stackedMarks).Valid "17" := by
    refine ⟨_, rfl, ?_⟩
    decide +kernel
  have opened : (init.performAll stackedMarks).openIntervals "17" ≠ [] := by
    decide +kernel
  exact opened (closed "17" valid)

end BookReconstructor

end PolymarketBt
