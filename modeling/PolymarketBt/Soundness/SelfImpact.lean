import PolymarketBt.Proofs.FastSim.Send
import PolymarketBt.Soundness.TapeRefinement

/-! # The self-impact overlay against a book that consumes its fills

The reference keeps one reconstructor, feeds it every event, and consumes every fill in its book.
The simulator sees the finished tape only: it looks up the row of an arrival, replays the
restatements since its cursor into the overlay, and adds its slices. The two are run side by side
over one interleaving of events and orders.

Between two orders the overlay lags behind the tape. The coupling therefore speaks of the overlay
after an imagined replay of all rows written so far; an order performs exactly that replay. A stale
event the book drops still writes a row, so the coupling survives it only when the dropped event
restates no level that carries consumption.
-/

namespace PolymarketBt

/-- One order of a run on a token: when it met the book, its side, and what it took. -/
structure ImpactOrder where
  arrivalNs : ℤ
  side : Side
  slices : List FillSlice
deriving DecidableEq, Repr

inductive ImpactAction where
  | event (event : BookEvent)
  | order (order : ImpactOrder)
deriving DecidableEq, Repr

namespace ImpactAction

def event? : ImpactAction → Option BookEvent
  | event e => some e
  | order _ => none

/-- Events precede an order that arrives at their instant, and events and orders stand in order. -/
def Precedes : ImpactAction → ImpactAction → Prop
  | event e, event f => e.receivedUtcNs ≤ f.receivedUtcNs
  | event e, order o => e.receivedUtcNs ≤ o.arrivalNs
  | order o, event e => o.arrivalNs < e.receivedUtcNs
  | order o, order p => o.arrivalNs ≤ p.arrivalNs

end ImpactAction

def eventsOf (actions : List ImpactAction) : List BookEvent :=
  actions.filterMap ImpactAction.event?

/-- The simulator and the reference side by side, with what was filled since each restatement. -/
structure Twin where
  context : SimContext
  reconstructor : BookReconstructor
  filled : Side → Consumption

def Twin.init : Twin := ⟨.init, .init, fun _ _ => 0⟩

/-- The token whose orders are followed, on the tape the simulator reads. -/
structure ImpactRun where
  tape : EpisodeTape
  tokenIndex : TokenIndex
  requireValidBook : Bool

namespace ImpactRun

variable (run : ImpactRun)

def tokenId : String := run.tape.tokenIdOf run.tokenIndex

def rows : List (TapeRow × ℕ) := tokenRows run.tape run.tokenIndex

/-- The row an order is executed on, if it is executed. -/
def met (arrivalNs : ℤ) : Option (TapeRow × ℕ) :=
  (rowAt run.rows arrivalNs).filter fun entry =>
    !run.requireValidBook || tradable run.tape run.tokenIndex entry.1 arrivalNs

/-- The context of an order after it replayed the restatements up to its row. -/
def look (entry : TapeRow × ℕ) (context : SimContext) : SimContext :=
  reconcileSelfImpact run.rows run.tokenIndex entry.2 context

/-- The ladder the simulator executes an order against. -/
def simulatedLadder (entry : TapeRow × ℕ) (context : SimContext) (bookSide : Side) :
    List (ℤ × ℤ) :=
  seenLadder run.tokenIndex entry.1 (run.look entry context) bookSide

/-- Consume every slice of an order in the book of the token. -/
def consumeFills (reconstructor : BookReconstructor) (bookSide : Side) (slices : List FillSlice) :
    BookReconstructor :=
  match reconstructor.books run.tokenId with
  | none => reconstructor
  | some book =>
    reconstructor.setBook run.tokenId
      (slices.foldl (fun book slice => book.consume bookSide slice.priceScaled slice.sizeScaled)
        book)

/-- The event is accepted by the book of its token and not dropped as stale. -/
def restates (reconstructor : BookReconstructor) (event : BookEvent) : Bool :=
  (reconstructor.applyEvent event).2 = .ok () &&
    (reconstructor.books event.tokenId).all fun book => book.lastSequence ≤ event.sequence

/-- The fills still counted after an event restated its levels. -/
def forget (filled : Side → Consumption) : BookEvent → Side → Consumption
  | .snapshot _ => fun _ _ => 0
  | .tick _ => filled
  | .update change =>
    Function.update filled change.side
      (Function.update (filled change.side) change.priceScaled 0)

def onEvent (twin : Twin) (event : BookEvent) : Twin where
  context := twin.context
  reconstructor := twin.reconstructor.absorb event
  filled :=
    if event.tokenId = run.tokenId ∧ restates twin.reconstructor event then
      forget twin.filled event
    else twin.filled

def onOrder (twin : Twin) (order : ImpactOrder) : Twin :=
  match run.met order.arrivalNs with
  | none => twin
  | some entry =>
    { context :=
        takeDepth run.tokenIndex order.side.taken (run.look entry twin.context) order.slices
      reconstructor := run.consumeFills twin.reconstructor order.side.taken order.slices
      filled :=
        Function.update twin.filled order.side.taken
          (addSlices (twin.filled order.side.taken) order.slices) }

def step (twin : Twin) : ImpactAction → Twin
  | .event event => run.onEvent twin event
  | .order order => run.onOrder twin order

def after (actions : List ImpactAction) : Twin := actions.foldl run.step .init

@[simp] theorem after_concat (past : List ImpactAction) (action : ImpactAction) :
    run.after (past ++ [action]) = run.step (run.after past) action := by
  simp [after]

/-- A dropped event that restates no depth the book shows as consumed. -/
def Harmless (twin : Twin) (event : BookEvent) : Prop :=
  event.tokenId = run.tokenId → (twin.reconstructor.applyEvent event).2 = .ok () →
    ∀ book, twin.reconstructor.books run.tokenId = some book → book.valid = true →
      event.sequence < book.lastSequence →
        match event with
        | .snapshot _ => ∀ side, ∀ level ∈ book.levels side, book.consumed side level.1 = 0
        | .tick _ => True
        | .update change => ∀ level ∈ book.levels change.side,
            level.1 = change.priceScaled → book.consumed change.side level.1 = 0

/-! ## Consuming fills -/

theorem foldl_consume (bookSide : Side) (slices : List FillSlice) (book : OrderBook) :
    slices.foldl (fun book slice => book.consume bookSide slice.priceScaled slice.sizeScaled) book =
      book.withConsumed bookSide (addSlices (book.consumed bookSide) slices) := by
  induction slices generalizing book with
  | nil => cases bookSide <;> rfl
  | cons slice rest ih =>
    rw [List.foldl_cons, ih]
    cases bookSide <;> rfl

theorem withConsumed_strip (book : OrderBook) (side : Side) (consumed : Consumption) :
    (book.withConsumed side consumed).strip = book.strip := by
  cases side <;> rfl

theorem withConsumed_consumed (book : OrderBook) (side : Side) (consumed : Consumption) :
    (book.withConsumed side consumed).consumed = Function.update book.consumed side consumed := by
  funext other
  cases side <;> cases other <;> simp [OrderBook.withConsumed, OrderBook.consumed]

@[simp] theorem withConsumed_levels (book : OrderBook) (side other : Side) (consumed : Consumption) :
    (book.withConsumed side consumed).levels other = book.levels other := by
  cases side <;> cases other <;> rfl

@[simp] theorem withConsumed_valid (book : OrderBook) (side : Side) (consumed : Consumption) :
    (book.withConsumed side consumed).valid = book.valid := by
  cases side <;> rfl

theorem consumeFills_strip (reconstructor : BookReconstructor) (bookSide : Side)
    (slices : List FillSlice) :
    (run.consumeFills reconstructor bookSide slices).strip = reconstructor.strip := by
  unfold consumeFills
  split
  · rfl
  · next book stored =>
    rw [foldl_consume, BookReconstructor.strip_setBook, withConsumed_strip]
    simp only [BookReconstructor.strip, BookReconstructor.setBook, BookReconstructor.mk.injEq,
      and_true]
    funext other
    by_cases same : other = run.tokenId
    · subst same
      simp [stored]
    · simp [same]

theorem consumeFills_book {reconstructor : BookReconstructor} {bookSide : Side}
    {slices : List FillSlice} {book : OrderBook}
    (stored : (run.consumeFills reconstructor bookSide slices).books run.tokenId = some book) :
    ∃ before, reconstructor.books run.tokenId = some before ∧
      book = before.withConsumed bookSide (addSlices (before.consumed bookSide) slices) := by
  unfold consumeFills at stored
  split at stored
  · next absent =>
    rw [absent] at stored
    cases stored
  · next before found =>
    rw [foldl_consume, BookReconstructor.setBook_books_self] at stored
    exact ⟨before, found, (Option.some.inj stored).symm⟩

/-! ## The overlay an order would see -/

/-- The overlay after a replay of the token's rows among the first rows of the tape. -/
def eager (twin : Twin) (count : ℕ) : Side → Consumption :=
  (rowsBetween run.rows (twin.context.impactCursor run.tokenIndex) count).foldl
    (replenish run.tokenIndex) twin.context.consumed run.tokenIndex

/-- A row gives back exactly what its event makes the count of fills forget. -/
theorem replenish_rowOf (builder : TapeBuilder) (tokenIndex : TokenIndex)
    (consumed : TokenIndex → Side → Consumption) (event : BookEvent) (book : OrderBook) :
    replenish tokenIndex consumed (builder.rowOf event tokenIndex book) tokenIndex =
      forget (consumed tokenIndex) event := by
  cases event with
  | snapshot snapshot => exact Function.update_self ..
  | tick change => rfl
  | update change => exact Function.update_self ..

variable {run}

theorem eager_append_own {builder : TapeBuilder} {twin : Twin} {rows later : List TapeRow}
    {event : BookEvent} {book : OrderBook}
    (split : run.tape.rows = (rows ++ [builder.rowOf event run.tokenIndex book]) ++ later)
    (behind : twin.context.impactCursor run.tokenIndex < rows.length) :
    run.eager twin (rows ++ [builder.rowOf event run.tokenIndex book]).length =
      forget (run.eager twin rows.length) event := by
  unfold eager ImpactRun.rows
  have own : (builder.rowOf event run.tokenIndex book).tokenIndex = run.tokenIndex := rfl
  rw [rowsBetween_append split run.tokenIndex behind, if_pos own, List.foldl_append,
    List.foldl_cons, List.foldl_nil]
  exact replenish_rowOf builder run.tokenIndex _ event book

theorem eager_append_other {twin : Twin} {rows later : List TapeRow} (row : TapeRow)
    (split : run.tape.rows = (rows ++ [row]) ++ later) (other : row.tokenIndex ≠ run.tokenIndex)
    (behind : twin.context.impactCursor run.tokenIndex < rows.length) :
    run.eager twin (rows ++ [row]).length = run.eager twin rows.length := by
  unfold eager ImpactRun.rows
  rw [rowsBetween_append split run.tokenIndex behind, if_neg other, List.append_nil]

/-- An order replays its token up to the row it meets, which is the last one by then. -/
theorem look_consumed (twin : Twin) {entry : TapeRow × ℕ} {count : ℕ} (inside : entry.2 < count)
    (last : ∀ other ∈ run.rows, other.2 < count → other.2 ≤ entry.2) :
    (run.look entry twin.context).consumed run.tokenIndex = run.eager twin count := by
  unfold look eager
  rw [reconcileSelfImpact_consumed run.rows (positions_sorted run.tape run.tokenIndex)]
  have same : rowsBetween run.rows (twin.context.impactCursor run.tokenIndex) (entry.2 + 1) =
      rowsBetween run.rows (twin.context.impactCursor run.tokenIndex) count := by
    unfold rowsBetween
    refine congrArg (List.map Prod.fst) (List.filter_congr fun other member => ?_)
    have := last other member
    rw [decide_eq_decide]
    omega
  rw [same]

/-- After the replay no row is left to be replayed. -/
theorem eager_reconciled {twin : Twin} {entry : TapeRow × ℕ} {count : ℕ}
    (last : ∀ other ∈ run.rows, other.2 < count → other.2 ≤ entry.2)
    (cursor : (entry.2 : ℤ) ≤ twin.context.impactCursor run.tokenIndex) :
    run.eager twin count = twin.context.consumed run.tokenIndex := by
  have none : rowsBetween run.rows (twin.context.impactCursor run.tokenIndex) count = [] := by
    unfold rowsBetween
    rw [List.map_eq_nil_iff, List.filter_eq_nil_iff]
    intro other member
    have := last other member
    simp only [decide_eq_true_eq, not_and]
    omega
  rw [eager, none]
  rfl

/-- What one order took at a price. -/
def takenAt (slices : List FillSlice) (price : ℤ) : ℤ :=
  ((slices.filter fun slice => slice.priceScaled = price).map FillSlice.sizeScaled).sum

theorem addSlices_apply (consumed : Consumption) (slices : List FillSlice) (price : ℤ) :
    addSlices consumed slices price = consumed price + takenAt slices price := by
  induction slices generalizing consumed with
  | nil => simp [addSlices, takenAt]
  | cons slice rest ih =>
    have unfolded : addSlices consumed (slice :: rest) =
        addSlices (Function.update consumed slice.priceScaled
          (consumed slice.priceScaled + slice.sizeScaled)) rest := rfl
    rw [unfolded, ih]
    by_cases same : slice.priceScaled = price
    · subst same
      simp [takenAt, add_assoc]
    · have other : price ≠ slice.priceScaled := fun equal => same equal.symm
      simp [takenAt, same, other]

/-! ## The coupling -/

/-- The twin after `past`, next to the build of the tape after the events of `past`. -/
structure Coupled (run : ImpactRun) (builder : TapeBuilder) (past : List ImpactAction) (state : BuildState)
    (twin : Twin) : Prop where
  scanned : builder.scan run.tape.episode (eventsOf past) = .ok state
  strip : twin.reconstructor.strip = state.reconstructor.strip
  behind : twin.context.impactCursor run.tokenIndex < state.rows.length
  agree : ∀ book, twin.reconstructor.books run.tokenId = some book → book.valid = true →
    ∀ side, ∀ level ∈ book.levels side,
      run.eager twin state.rows.length side level.1 = book.consumed side level.1

theorem Coupled.init (builder : TapeBuilder) :
    Coupled run builder [] ⟨.init, [], 0, [], []⟩ .init where
  scanned := rfl
  strip := rfl
  behind := by simp [Twin.init, SimContext.init]
  agree := by
    intro book stored
    cases stored

/-- Levels agree after an event of the token, when a dropped one was harmless. -/
private theorem agree_forget {twin : Twin} {event : BookEvent} {after : OrderBook}
    {overlay : Side → Consumption} (own : event.tokenId = run.tokenId)
    (accepted : (twin.reconstructor.applyEvent event).2 = .ok ())
    (leaves : twin.reconstructor.LeavesValid event after) (harmless : run.Harmless twin event)
    (agree : ∀ book, twin.reconstructor.books run.tokenId = some book → book.valid = true →
      ∀ side, ∀ level ∈ book.levels side, overlay side level.1 = book.consumed side level.1) :
    ∀ side, ∀ level ∈ after.levels side,
      forget overlay event side level.1 = after.consumed side level.1 := by
  intro side level member
  cases leaves with
  | tick stored valid =>
    rw [show TickSizeChange.tokenId _ = run.tokenId from own] at stored
    have before := agree _ stored valid side level (by cases side <;> exact member)
    cases side <;> exact before
  | dropped stored valid stale notTick =>
    rw [own] at stored
    have untouched := harmless own accepted after stored valid stale
    have before := agree after stored valid side level member
    cases event with
    | tick change => exact absurd rfl notTick
    | snapshot snapshot => exact (untouched side level member).symm
    | update change =>
      by_cases restated : side = change.side ∧ level.1 = change.priceScaled
      · obtain ⟨rfl, price⟩ := restated
        rw [untouched level member price]
        simp [forget, price]
      · rw [← before]
        by_cases same : side = change.side
        · subst same
          have other : level.1 ≠ change.priceScaled := fun price => restated ⟨rfl, price⟩
          simp [forget, other]
        · simp [forget, same]
  | snapshot fresh freed => rw [freed side]; rfl
  | @update change book _ stored valid fresh freed levels =>
    rw [show change.tokenId = run.tokenId from own] at stored
    rw [freed]
    by_cases restated : side = change.side ∧ level.1 = change.priceScaled
    · obtain ⟨rfl, price⟩ := restated
      simp [forget, OrderBook.freed, price]
    · have before := agree book stored valid side level
        ((levels side level member).resolve_left restated)
      by_cases same : side = change.side
      · subst same
        have other : level.1 ≠ change.priceScaled := fun price => restated ⟨rfl, price⟩
        simpa [forget, OrderBook.freed, other] using before
      · simpa [forget, OrderBook.freed, same] using before

/-- A step of the builder writes one row, of the event's token, exactly when that token has a book
after an accepted event. -/
theorem step_row {builder : TapeBuilder} {episode : Episode} {state after : BuildState}
    {event : BookEvent} (ran : builder.step episode state event = .ok after) :
    after.reconstructor = state.reconstructor.absorb event ∧
      ∃ tokenIndex, TapeBuilder.tokens episode event.tokenId = some tokenIndex ∧
        ((after.rows = state.rows ∧
          ((state.reconstructor.applyEvent event).2 = .ok () →
            after.reconstructor.books event.tokenId = none)) ∨
        ∃ book, after.reconstructor.books event.tokenId = some book ∧
          after.rows = state.rows ++ [builder.rowOf event tokenIndex book]) := by
  obtain ⟨tokenIndex, found, ⟨e, applied, raised, rfl⟩ | ⟨applied, accepted, rfl⟩⟩ :=
    TapeBuilder.step_cases ran
  · refine ⟨by simp [BookReconstructor.absorb, raised, TapeBuilder.refuse], tokenIndex, found,
      .inl ⟨rfl, fun accepted => ?_⟩⟩
    rw [raised] at accepted
    cases accepted
  · have reconstructed : applied = state.reconstructor.absorb event := by
      simp [BookReconstructor.absorb, accepted]
    have kept := TapeBuilder.closeSpan_reconstructor { state with reconstructor := applied } event
    have rows := TapeBuilder.closeSpan_rows { state with reconstructor := applied } event
    refine ⟨by rw [TapeBuilder.appendRow_reconstructor, kept, reconstructed], tokenIndex, found, ?_⟩
    rcases TapeBuilder.appendRow_cases builder
        (TapeBuilder.closeSpan { state with reconstructor := applied } event) event tokenIndex with
      ⟨absent, unchanged⟩ | ⟨book, stored, appended⟩
    · refine .inl ⟨unchanged.trans rows, fun _ => ?_⟩
      rw [TapeBuilder.appendRow_reconstructor]
      exact absent
    · refine .inr ⟨book, ?_, by rw [appended, rows]⟩
      rw [TapeBuilder.appendRow_reconstructor]
      exact stored

theorem Coupled.event {builder : TapeBuilder} {past : List ImpactAction} {state after : BuildState}
    {twin : Twin} {event : BookEvent} (coupled : Coupled run builder past state twin)
    (stepped : builder.step run.tape.episode state event = .ok after) {later : List TapeRow}
    (split : run.tape.rows = after.rows ++ later)
    (known : TapeBuilder.tokens run.tape.episode run.tokenId = some run.tokenIndex)
    (harmless : run.Harmless twin event) :
    Coupled run builder (past ++ [.event event]) after (run.onEvent twin event) := by
  obtain ⟨absorbed, tokenIndex, found, rows⟩ := step_row stepped
  have strip : (twin.reconstructor.absorb event).strip = after.reconstructor.strip := by
    rw [absorbed]
    exact BookReconstructor.absorb_strip_congr coupled.strip event
  refine ⟨?_, strip, ?_, ?_⟩
  · have scanned := coupled.scanned
    unfold TapeBuilder.scan at scanned ⊢
    simp only [eventsOf, List.filterMap_append, List.foldlM_append] at scanned ⊢
    rw [scanned, Except.ok_bind]
    simp [ImpactAction.event?, stepped]
  · change twin.context.impactCursor run.tokenIndex < after.rows.length
    have behind := coupled.behind
    rcases rows with ⟨same, _⟩ | ⟨book, _, appended⟩
    · rw [same]
      exact behind
    · rw [appended, List.length_append]
      push_cast
      omega
  intro book stored valid side level member
  change run.eager twin after.rows.length side level.1 = book.consumed side level.1
  change (twin.reconstructor.absorb event).books run.tokenId = some book at stored
  by_cases own : event.tokenId = run.tokenId
  · rw [← own] at stored
    obtain ⟨accepted, leaves⟩ := BookReconstructor.absorb_valid stored valid
    have mirrored := congrFun (congrArg BookReconstructor.books strip) event.tokenId
    simp only [BookReconstructor.strip, stored, Option.map_some] at mirrored
    rcases rows with ⟨_, absent⟩ | ⟨written, _, appended⟩
    · rw [(BookReconstructor.applyEvent_strip_congr coupled.strip event).1] at accepted
      rw [absent accepted] at mirrored
      cases mirrored
    · rw [own, known] at found
      obtain rfl := Option.some.inj found
      rw [appended] at split ⊢
      rw [eager_append_own split coupled.behind]
      exact agree_forget own accepted leaves harmless coupled.agree side level member
  · rw [BookReconstructor.absorb_books_of_ne event (Ne.symm own)] at stored
    have before := coupled.agree book stored valid side level member
    rcases rows with ⟨same, _⟩ | ⟨written, _, appended⟩
    · rw [same]
      exact before
    · have other : tokenIndex ≠ run.tokenIndex := by
        rintro rfl
        exact own (TapeBuilder.tokens_eq_some found)
      rw [appended] at split ⊢
      rw [eager_append_other (builder.rowOf event tokenIndex written) split other
        coupled.behind]
      exact before

/-- An order sees the coupled overlay, adds its slices to it, and consumes them in the book. -/
theorem Coupled.order {builder : TapeBuilder} {past : List ImpactAction} {state : BuildState}
    {twin : Twin} {order : ImpactOrder} (coupled : Coupled run builder past state twin)
    (ordered : run.tape.Ordered) {later : List TapeRow} (split : run.tape.rows = state.rows ++ later)
    (before : ∀ row ∈ state.rows, row.receivedUtcNs ≤ order.arrivalNs)
    (after : ∀ row ∈ later, order.arrivalNs < row.receivedUtcNs) :
    Coupled run builder (past ++ [.order order]) state (run.onOrder twin order) := by
  have scanned : builder.scan run.tape.episode (eventsOf (past ++ [.order order])) = .ok state := by
    have same : eventsOf (past ++ [.order order]) = eventsOf past := by
      simp [eventsOf, List.filterMap_cons, ImpactAction.event?]
    rw [same]
    exact coupled.scanned
  unfold onOrder
  split
  · exact ⟨scanned, coupled.strip, coupled.behind, coupled.agree⟩
  next entry met =>
  have found := (Option.filter_eq_some_iff.mp met).1
  have inside := position_lt_of_rowAt ordered split after found
  have last : ∀ other ∈ run.rows, other.2 < state.rows.length → other.2 ≤ entry.2 :=
    fun other member => position_le_of_rowAt ordered split before found member
  have cursor : (takeDepth run.tokenIndex order.side.taken (run.look entry twin.context)
      order.slices).impactCursor run.tokenIndex =
        max (twin.context.impactCursor run.tokenIndex) entry.2 :=
    reconcileSelfImpact_cursor ..
  refine ⟨scanned, ?_, ?_, ?_⟩
  · exact (run.consumeFills_strip _ _ _).trans coupled.strip
  · change (takeDepth _ _ _ _).impactCursor run.tokenIndex < _
    rw [cursor]
    exact max_lt coupled.behind (by exact_mod_cast inside)
  intro book stored valid side level member
  rw [eager_reconciled last (by rw [cursor]; exact le_max_right _ _)]
  obtain ⟨prior, held, rfl⟩ := run.consumeFills_book stored
  rw [withConsumed_levels] at member
  rw [withConsumed_valid] at valid
  have seen := look_consumed twin inside last
  have earlier := coupled.agree prior held valid side level member
  rw [withConsumed_consumed]
  simp only [takeDepth, Function.update_self, seen]
  by_cases same : side = order.side.taken
  · subst same
    simp only [Function.update_self, addSlices_apply, earlier]
  · simp only [Function.update_of_ne same, earlier]

/-! ## Runs -/

theorem mem_eventsOf {actions : List ImpactAction} {event : BookEvent} :
    event ∈ eventsOf actions ↔ .event event ∈ actions := by
  unfold eventsOf
  rw [List.mem_filterMap]
  constructor
  · rintro ⟨action, member, same⟩
    cases action with
    | event other =>
      obtain rfl := Option.some.inj same
      exact member
    | order order => cases same
  · exact fun member => ⟨_, member, rfl⟩

theorem eventsOf_ordered {actions : List ImpactAction}
    (ordered : actions.Pairwise ImpactAction.Precedes) :
    (eventsOf actions).Pairwise fun earlier later =>
      earlier.receivedUtcNs ≤ later.receivedUtcNs := by
  refine List.Pairwise.filterMap _ ?_ ordered
  rintro (event | order) (other | order') precedes first same second same'
  · cases same
    cases same'
    exact precedes
  all_goals simp [ImpactAction.event?] at same same'

/-- A run next to the build of its tape: what all results below assume. -/
structure Recorded (run : ImpactRun) (builder : TapeBuilder) (actions : List ImpactAction) : Prop where
  levels : builder.depth ≠ some 0
  ordered : actions.Pairwise ImpactAction.Precedes
  built : ∃ trades, builder.build run.tape.episode (eventsOf actions) trades = .ok run.tape

namespace Recorded

variable {builder : TapeBuilder} {actions : List ImpactAction}

/-- Cutting a run cuts the build of its tape. -/
theorem cut (recorded : Recorded run builder actions) {past future : List ImpactAction}
    (split : actions = past ++ future) :
    ∃ state, builder.scan run.tape.episode (eventsOf past) = .ok state ∧
      ∃ later, run.tape.rows = state.rows ++ later ∧
        ∀ row ∈ later, ∃ event, .event event ∈ future ∧
          row.receivedUtcNs = event.receivedUtcNs := by
  obtain ⟨trades, built⟩ := recorded.built
  obtain ⟨final, scanned, finished⟩ := Except.bind_eq_ok.mp built
  have rows : run.tape.rows = final.rows := by
    rw [← Except.pure_eq_ok.mp finished]
  rw [split, eventsOf, List.filterMap_append] at scanned
  obtain ⟨state, first, second⟩ := TapeBuilder.scan_append scanned
  obtain ⟨later, added, stamps⟩ := TapeBuilder.foldlM_rows second
  refine ⟨state, first, later, rows.trans added, fun row member => ?_⟩
  obtain ⟨event, inFuture, same⟩ := stamps row member
  exact ⟨event, mem_eventsOf.mp inFuture, same⟩

theorem tape_ordered (recorded : Recorded run builder actions) : run.tape.Ordered := by
  obtain ⟨trades, built⟩ := recorded.built
  obtain ⟨final, scanned, finished⟩ := Except.bind_eq_ok.mp built
  have rows : run.tape.rows = final.rows := by
    rw [← Except.pure_eq_ok.mp finished]
  have tracks := TapeBuilder.Tracks.of_scan recorded.levels scanned
  unfold EpisodeTape.Ordered
  rw [rows]
  exact tracks.ordered (eventsOf_ordered recorded.ordered)

/-- The rows written before an order were received by its arrival, and the others after it. -/
theorem cut_order (recorded : Recorded run builder actions) {past future : List ImpactAction}
    {order : ImpactOrder} (split : actions = past ++ .order order :: future) {state : BuildState}
    (scanned : builder.scan run.tape.episode (eventsOf past) = .ok state) :
    ∃ later, run.tape.rows = state.rows ++ later ∧
      (∀ row ∈ state.rows, row.receivedUtcNs ≤ order.arrivalNs) ∧
      ∀ row ∈ later, order.arrivalNs < row.receivedUtcNs := by
  obtain ⟨other, scanned', later, rows, stamps⟩ := recorded.cut split
  obtain rfl := Except.ok.inj (scanned.symm.trans scanned')
  have ordered := recorded.ordered
  rw [split] at ordered
  obtain ⟨_, futureOrdered, across⟩ := List.pairwise_append.mp ordered
  refine ⟨later, rows, fun row member => ?_, fun row member => ?_⟩
  · have tracks := TapeBuilder.Tracks.of_scan recorded.levels scanned
    obtain ⟨event, inPast, same⟩ := List.mem_map.mp
      (tracks.stamps.subset (List.mem_map_of_mem member))
    rw [← same]
    exact across _ (mem_eventsOf.mp inPast) _ (List.mem_cons_self ..)
  · obtain ⟨event, inFuture, same⟩ := stamps row member
    rw [same]
    have inRest := (List.mem_cons.mp inFuture).resolve_left (by simp)
    exact (List.pairwise_cons.mp futureOrdered).1 _ inRest

/-- A token one of whose rows an order met belongs to the episode. -/
theorem known_of_met (recorded : Recorded run builder actions) {arrivalNs : ℤ}
    {entry : TapeRow × ℕ} (met : run.met arrivalNs = some entry) :
    TapeBuilder.tokens run.tape.episode run.tokenId = some run.tokenIndex := by
  have found : rowAt (tokenRows run.tape run.tokenIndex) arrivalNs = some entry :=
    (Option.filter_eq_some_iff.mp met).1
  rw [rowAt_eq_getLast? (stamps_sorted recorded.tape_ordered run.tokenIndex)] at found
  have member := (List.mem_filter.mp (List.mem_of_getLast? found)).1
  obtain ⟨inTape, index⟩ := List.mem_filter.mp member
  obtain ⟨trades, built⟩ := recorded.built
  obtain ⟨final, scanned, finished⟩ := Except.bind_eq_ok.mp built
  have rows : run.tape.rows = final.rows := by
    rw [← Except.pure_eq_ok.mp finished]
  have stored : entry.1 ∈ final.rows := by
    rw [← rows]
    obtain ⟨inside, same⟩ := List.mem_zipIdx' inTape
    rw [same]
    exact List.getElem_mem _
  have tracks := TapeBuilder.Tracks.of_scan recorded.levels scanned
  have indexed := tracks.indexed entry.1 stored
  rwa [of_decide_eq_true index] at indexed

/-- While dropped events are harmless, the twin stays coupled. -/
theorem coupled (recorded : Recorded run builder actions)
    (known : TapeBuilder.tokens run.tape.episode run.tokenId = some run.tokenIndex)
    (harmless : ∀ past event future, actions = past ++ .event event :: future →
      run.Harmless (run.after past) event)
    {past future : List ImpactAction} (split : actions = past ++ future) :
    ∃ state, Coupled run builder past state (run.after past) := by
  induction past using List.reverseRecOn generalizing future with
  | nil => exact ⟨_, Coupled.init builder⟩
  | append_singleton past action ih =>
    rw [List.append_assoc, List.singleton_append] at split
    obtain ⟨state, coupled⟩ := ih split
    rw [after_concat]
    cases action with
    | order order =>
      obtain ⟨later, rows, before, after⟩ := recorded.cut_order split coupled.scanned
      exact ⟨state, coupled.order recorded.tape_ordered rows before after⟩
    | event event =>
      rw [← List.singleton_append, ← List.append_assoc] at split
      obtain ⟨next, scanned, later, rows, _⟩ := recorded.cut split
      rw [eventsOf, List.filterMap_append] at scanned
      obtain ⟨state', first, second⟩ := TapeBuilder.scan_append scanned
      obtain rfl := Except.ok.inj (coupled.scanned.symm.trans first)
      have stepped : builder.step run.tape.episode state event = .ok next := by
        simpa [List.filterMap_cons, ImpactAction.event?] using second
      rw [List.append_assoc, List.singleton_append] at split
      exact ⟨next, coupled.event stepped rows known (harmless past event future split)⟩

end Recorded

/-- A coupled order executes against the kept levels of the book, less what the book counts as
consumed. -/
theorem Coupled.simulatedLadder_eq {builder : TapeBuilder} {past : List ImpactAction}
    {state : BuildState} {twin : Twin} (coupled : Coupled run builder past state twin)
    (levels : builder.depth ≠ some 0) (ordered : run.tape.Ordered) {later : List TapeRow}
    (split : run.tape.rows = state.rows ++ later) {arrivalNs : ℤ}
    (before : ∀ row ∈ state.rows, row.receivedUtcNs ≤ arrivalNs)
    (after : ∀ row ∈ later, arrivalNs < row.receivedUtcNs)
    (known : TapeBuilder.tokens run.tape.episode run.tokenId = some run.tokenIndex)
    {entry : TapeRow × ℕ} (met : run.met arrivalNs = some entry) {book : OrderBook}
    (stored : twin.reconstructor.books run.tokenId = some book) (valid : book.valid = true)
    (side : Side) :
    run.simulatedLadder entry twin.context side =
      remainingLevels (LadderColumns.kept builder.depth (book.levels side)) (book.consumed side) := by
  have found := (Option.filter_eq_some_iff.mp met).1
  have tracks := TapeBuilder.Tracks.of_scan levels coupled.scanned
  have mirrored := congrFun (congrArg BookReconstructor.books coupled.strip) run.tokenId
  simp only [BookReconstructor.strip, stored, Option.map_some] at mirrored
  obtain ⟨plain, held, same⟩ := Option.map_eq_some_iff.mp mirrored.symm
  have validity : plain.valid = true := by
    rw [← OrderBook.strip_valid, same]
    exact valid
  have settled : TapeBuilder.Settled state run.tokenId := by
    intro span member own
    have invalid := tracks.closed span member plain (own ▸ held)
    rw [validity] at invalid
    cases invalid
  have shown := tracks.current run.tokenIndex known settled
  have last : TapeBuilder.lastRow state.rows run.tokenIndex = some entry.1 :=
    TapeBuilder.lastRow_of_rowAt run.tape ordered split before after entry.2 found
  rw [TapeBuilder.Shown, show run.tape.episode.tokenIdOf run.tokenIndex = run.tokenId from rfl,
    held, last] at shown
  obtain ⟨row, sameRow, _, shows⟩ := shown
  obtain rfl := Option.some.inj sameRow
  have displayed : plain.levels side = book.levels side := by
    rw [← OrderBook.strip_levels, same, OrderBook.strip_levels]
  have inside := position_lt_of_rowAt ordered split after found
  have latest : ∀ other ∈ run.rows, other.2 < state.rows.length → other.2 ≤ entry.2 :=
    fun other member => position_le_of_rowAt ordered split before found member
  unfold simulatedLadder seenLadder
  rw [look_consumed twin inside latest, shows.ladder side, displayed]
  refine List.filterMap_congr fun level member => ?_
  rw [coupled.agree book stored valid side level (LadderColumns.kept_subset member)]

/-! ## The fills of one level -/

/-- The slices take no more at a price than the ladder shows there. -/
def Fits (ladder : List (ℤ × ℤ)) (slices : List FillSlice) : Prop :=
  ∀ price, takenAt slices price = 0 ∨
    ∃ level ∈ ladder, level.1 = price ∧ takenAt slices price ≤ level.2

theorem consumeFills_positive {reconstructor : BookReconstructor} (positive : reconstructor.Positive)
    (bookSide : Side) (slices : List FillSlice) :
    (run.consumeFills reconstructor bookSide slices).Positive := by
  intro tokenId book stored
  by_cases own : tokenId = run.tokenId
  · subst own
    obtain ⟨before, held, rfl⟩ := run.consumeFills_book stored
    have kept := positive _ before held
    cases bookSide with
    | buy => exact ⟨kept.bids, kept.asks⟩
    | sell => exact ⟨kept.bids, kept.asks⟩
  · unfold consumeFills at stored
    split at stored
    · exact positive tokenId book stored
    · rw [BookReconstructor.setBook_books_of_ne _ own] at stored
      exact positive tokenId book stored

theorem after_positive (run : ImpactRun) (actions : List ImpactAction) :
    (run.after actions).reconstructor.Positive := by
  induction actions using List.reverseRecOn with
  | nil => exact BookReconstructor.Positive.init
  | append_singleton past action ih =>
    rw [after_concat]
    cases action with
    | event event => exact ih.absorb event
    | order order =>
      simp only [step, onOrder]
      split
      · exact ih
      · exact consumeFills_positive ih _ _

/-- A valid book counts exactly the fills since its restatements, and no level is overdrawn. -/
def Counted (run : ImpactRun) (twin : Twin) : Prop :=
  ∀ book, twin.reconstructor.books run.tokenId = some book → book.valid = true →
    twin.filled = book.consumed ∧
      ∀ side, ∀ level ∈ book.levels side, book.consumed side level.1 ≤ level.2

theorem counted_event {twin : Twin} {event : BookEvent} (counted : Counted run twin)
    (positive : (twin.reconstructor.absorb event).Positive) :
    Counted run (run.onEvent twin event) := by
  intro book stored valid
  change (twin.reconstructor.absorb event).books run.tokenId = some book at stored
  change (if event.tokenId = run.tokenId ∧ restates twin.reconstructor event then
    forget twin.filled event else twin.filled) = book.consumed ∧ _
  by_cases own : event.tokenId = run.tokenId
  swap
  · rw [if_neg fun both => own both.1]
    rw [BookReconstructor.absorb_books_of_ne event (Ne.symm own)] at stored
    exact counted book stored valid
  have sizes := positive _ book stored
  rw [← own] at stored
  obtain ⟨accepted, leaves⟩ := BookReconstructor.absorb_valid stored valid
  have restated : restates twin.reconstructor event = true ↔
      ∀ book, twin.reconstructor.books event.tokenId = some book →
        book.lastSequence ≤ event.sequence := by
    simp [restates, accepted, Option.all_eq_true]
  cases leaves with
  | @tick change before held validBefore =>
    obtain ⟨filled, bound⟩ := counted before (own ▸ held) validBefore
    refine ⟨?_, fun side level member => ?_⟩
    · rw [show forget twin.filled (.tick change) = twin.filled from rfl, ite_self, filled]
      funext side
      cases side <;> rfl
    · cases side with
      | buy => exact bound .buy level member
      | sell => exact bound .sell level member
  | dropped held validBefore stale notTick =>
    have fresh : ¬ restates twin.reconstructor event = true :=
      fun fresh => absurd (restated.mp fresh book held) (not_le.mpr stale)
    rw [if_neg fun both => fresh both.2]
    exact counted book (own ▸ held) validBefore
  | snapshot fresh freed =>
    rw [if_pos ⟨own, restated.mpr fresh⟩]
    refine ⟨?_, fun side level member => ?_⟩
    · funext side
      rw [freed side]
      rfl
    · rw [freed side]
      exact (sizes.of_mem_levels member).2.le
  | @update change before _ held validBefore fresh freed levels =>
    have notStale : restates twin.reconstructor (.update change) = true :=
      restated.mpr fun other found => (Option.some.inj (held.symm.trans found)) ▸ fresh
    rw [if_pos ⟨own, notStale⟩, freed]
    obtain ⟨filled, bound⟩ := counted before (own ▸ held) validBefore
    refine ⟨by rw [filled]; rfl, fun side level member => ?_⟩
    have size := (sizes.of_mem_levels member).2
    by_cases same : side = change.side ∧ level.1 = change.priceScaled
    · obtain ⟨rfl, price⟩ := same
      simpa [OrderBook.freed, price] using size.le
    · have kept := bound side level ((levels side level member).resolve_left same)
      by_cases sameSide : side = change.side
      · subst sameSide
        have other : level.1 ≠ change.priceScaled := fun price => same ⟨rfl, price⟩
        simpa [OrderBook.freed, other] using kept
      · simpa [OrderBook.freed, sameSide] using kept

/-- Two levels of one side with one price are the same level. -/
theorem levels_unique {book : OrderBook} {side : Side} {first second : ℤ × ℤ}
    (inFirst : first ∈ book.levels side) (inSecond : second ∈ book.levels side)
    (same : first.1 = second.1) : first = second := by
  have sized : ∀ {levels : Levels}, first ∈ levels.toList → second ∈ levels.toList →
      first = second := by
    intro levels left right
    rw [Std.TreeMap.mem_toList_iff_getElem?_eq_some] at left right
    rw [same, right] at left
    exact Prod.ext same (Option.some.inj left).symm
  cases side with
  | buy => exact sized (List.mem_reverse.mp inFirst) (List.mem_reverse.mp inSecond)
  | sell => exact sized inFirst inSecond

theorem counted_order (builder : TapeBuilder) {twin : Twin} {order : ImpactOrder}
    (counted : Counted run twin)
    (sees : ∀ entry, run.met order.arrivalNs = some entry → ∀ book,
      twin.reconstructor.books run.tokenId = some book → book.valid = true →
        run.simulatedLadder entry twin.context order.side.taken =
          remainingLevels (LadderColumns.kept builder.depth (book.levels order.side.taken))
            (book.consumed order.side.taken))
    (fits : ∀ entry, run.met order.arrivalNs = some entry →
      Fits (run.simulatedLadder entry twin.context order.side.taken) order.slices) :
    Counted run (run.onOrder twin order) := by
  unfold onOrder
  split
  · exact counted
  next entry met =>
  intro book stored valid
  obtain ⟨before, held, rfl⟩ := run.consumeFills_book stored
  rw [withConsumed_valid] at valid
  obtain ⟨filled, bound⟩ := counted before held valid
  refine ⟨by rw [withConsumed_consumed, filled], fun side level member => ?_⟩
  rw [withConsumed_levels] at member
  rw [withConsumed_consumed]
  have kept := bound side level member
  by_cases same : side = order.side.taken
  swap
  · rwa [Function.update_of_ne same]
  subst same
  rw [Function.update_self, addSlices_apply]
  rcases fits entry met level.1 with nothing | ⟨seen, inLadder, price, within⟩
  · omega
  rw [sees entry met before held valid] at inLadder
  obtain ⟨displayed, inKept, offered⟩ := List.mem_filterMap.mp inLadder
  split at offered
  · obtain rfl := Option.some.inj offered
    obtain rfl := levels_unique (LadderColumns.kept_subset inKept) member price
    dsimp only at within
    omega
  · cases offered

/-- While dropped events are harmless and orders fit the ladder they see, the book counts every fill. -/
theorem Recorded.counted {builder : TapeBuilder} {actions : List ImpactAction}
    (recorded : Recorded run builder actions)
    (harmless : ∀ past event future, actions = past ++ .event event :: future →
      run.Harmless (run.after past) event)
    (fits : ∀ past order future, actions = past ++ .order order :: future →
      ∀ entry, run.met order.arrivalNs = some entry →
        Fits (run.simulatedLadder entry (run.after past).context order.side.taken) order.slices)
    (known : TapeBuilder.tokens run.tape.episode run.tokenId = some run.tokenIndex)
    {past future : List ImpactAction} (split : actions = past ++ future) :
    Counted run (run.after past) := by
  induction past using List.reverseRecOn generalizing future with
  | nil =>
    intro book stored
    cases stored
  | append_singleton past action ih =>
    have whole := split
    rw [List.append_assoc, List.singleton_append] at split
    have counted := ih split
    obtain ⟨state, coupled⟩ := recorded.coupled known harmless split
    rw [after_concat]
    cases action with
    | event event =>
      exact counted_event counted ((run.after_positive past).absorb event)
    | order order =>
      obtain ⟨later, rows, before, after⟩ := recorded.cut_order split coupled.scanned
      refine counted_order builder counted ?_ (fits past order future split)
      intro entry met book stored valid
      exact coupled.simulatedLadder_eq recorded.levels recorded.tape_ordered rows before after known
        met stored valid _

/-- Every row of a build was written for a book. -/
theorem scan_rows {builder : TapeBuilder} {episode : Episode} {events : List BookEvent}
    {state : BuildState} (scanned : builder.scan episode events = .ok state) :
    ∀ row ∈ state.rows, ∃ event tokenIndex book, book.Positive ∧
      row = builder.rowOf event tokenIndex book := by
  refine (Except.foldlM_history (fun _ state => state.reconstructor.Positive ∧
    ∀ row ∈ state.rows, ∃ event tokenIndex book, book.Positive ∧
      row = builder.rowOf event tokenIndex book)
    ⟨BookReconstructor.Positive.init, by simp⟩ ?_ scanned).2
  rintro past event state after _ ⟨positive, earlier⟩ stepped
  obtain ⟨absorbed, tokenIndex, _, rows⟩ := step_row stepped
  have kept : after.reconstructor.Positive := absorbed ▸ positive.absorb event
  refine ⟨kept, ?_⟩
  rcases rows with ⟨same, _⟩ | ⟨book, stored, appended⟩
  · rw [same]
    exact earlier
  · rw [appended]
    intro row member
    rcases List.mem_append.mp member with old | new
    · exact earlier row old
    · exact ⟨event, tokenIndex, book, kept _ book stored, List.mem_singleton.mp new⟩

theorem levels_distinct (book : OrderBook) (side : Side) :
    ((book.levels side).map Prod.fst).Nodup := by
  have keys : ∀ levels : Levels, (levels.toList.map Prod.fst).Nodup := by
    intro levels
    have distinct := Std.TreeMap.distinct_keys_toList (t := levels)
    rw [List.Nodup, List.pairwise_map]
    refine distinct.imp fun different equal => different ?_
    rw [equal]
    exact Std.ReflCmp.compare_self
  cases side with
  | buy =>
    change (book.bids.toList.reverse.map Prod.fst).Nodup
    rw [List.map_reverse, List.nodup_reverse]
    exact keys _
  | sell => exact keys _

theorem remainingLevels_prices (levels : List (ℤ × ℤ)) (consumed : Consumption) :
    (remainingLevels levels consumed).map Prod.fst =
      (levels.filter fun level => 0 < level.2 - consumed level.1).map Prod.fst := by
  induction levels with
  | nil => rfl
  | cons level rest ih =>
    unfold remainingLevels at ih ⊢
    by_cases left : 0 < level.2 - consumed level.1
    · rw [List.filterMap_cons, if_pos left, List.filter_cons, if_pos (decide_eq_true left),
        List.map_cons, List.map_cons, ih]
    · rw [List.filterMap_cons, if_neg left, List.filter_cons, if_neg (by simpa using left), ih]

/-- Orders the simulator matches fit the ladder they see, and leave the context of the twin. -/
theorem Recorded.matchAt_fits {builder : TapeBuilder} {actions : List ImpactAction}
    (recorded : Recorded run builder actions) {replay : Replay} (tape : replay.tape = run.tape)
    {request : OrderRequest} (token : request.tokenIndex = run.tokenIndex) {arrivalNs : ℤ}
    {cash : Option ℤ} {entry : TapeRow × ℕ} (member : entry ∈ run.rows) {context after : SimContext}
    {outcome : ExecutionOutcome}
    (ran : replay.matchAt request arrivalNs cash entry context = .ok (outcome, after)) :
    Fits (run.simulatedLadder entry context request.side.taken) outcome.slices ∧
      after = if outcome.filled then takeDepth run.tokenIndex request.side.taken
        (run.look entry context) outcome.slices else run.look entry context := by
  obtain ⟨matched, contextIs⟩ := Replay.matchAt_spec ran
  rw [Replay.rowsOf, tape, token] at matched contextIs
  refine ⟨matched.drawn.sum_le ?_, contextIs⟩
  obtain ⟨trades, built⟩ := recorded.built
  obtain ⟨final, scanned, finished⟩ := Except.bind_eq_ok.mp built
  have rows : run.tape.rows = final.rows := by
    rw [← Except.pure_eq_ok.mp finished]
  have stored : entry.1 ∈ final.rows := by
    obtain ⟨inside, same⟩ := List.mem_zipIdx' (List.mem_filter.mp member).1
    rw [← rows, same]
    exact List.getElem_mem _
  obtain ⟨event, tokenIndex, book, positive, written⟩ := scan_rows scanned entry.1 stored
  have shown : entry.1.ladder request.side.taken =
      LadderColumns.kept builder.depth (book.levels request.side.taken) := by
    rw [written]
    exact (TapeBuilder.showsBook_rowOf recorded.levels positive event tokenIndex).ladder _
  have distinct := levels_distinct book request.side.taken
  have sublist : ((seenLadder run.tokenIndex entry.1 (run.look entry context)
      request.side.taken).map Prod.fst).Sublist ((book.levels request.side.taken).map Prod.fst) := by
    unfold seenLadder
    rw [shown, remainingLevels_prices]
    refine List.Sublist.map _ (List.filter_sublist.trans ?_)
    cases builder.depth with
    | none => exact List.Sublist.refl _
    | some depth => exact List.take_sublist _ _
  exact distinct.sublist sublist

/-- A buy that takes three of the seven shares offered at the best ask. -/
def exampleBuy (arrivalNs : ℤ) : ImpactOrder where
  arrivalNs := arrivalNs
  side := .buy
  slices := [⟨800000, 3000000, 2400000, 0, 0⟩]

def exampleRun (rows : List TapeRow) : ImpactRun where
  tape := ⟨TapeBuilder.exampleEpisode, none, rows, [], []⟩
  tokenIndex := .up
  requireValidBook := true

def twoBuys : List ImpactAction :=
  [.event (.snapshot TapeBuilder.exampleSnapshot), .order (exampleBuy 20), .order (exampleBuy 40)]

/-- The same snapshot under a lower sequence number: the book drops it, the tape keeps a row. -/
def staleSnapshot : BookSnapshot :=
  { TapeBuilder.exampleSnapshot with
    sequence := 0
    receivedUtcNs := 30 }

def staleRun : List ImpactAction :=
  [.event (.snapshot TapeBuilder.exampleSnapshot), .order (exampleBuy 20),
    .event (.snapshot staleSnapshot), .order (exampleBuy 40)]

def staleRow : TapeRow := { TapeBuilder.exampleRow none 780000 800000 with receivedUtcNs := 30 }

end ImpactRun

end PolymarketBt
