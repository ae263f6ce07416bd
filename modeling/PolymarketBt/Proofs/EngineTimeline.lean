import PolymarketBt.Proofs.Engine

/-! # A replay as one chronological sequence of steps

With a strategy that never dates an intent before the time it decides at, the groups of a replay
dissolve: events and executions form one timeline, in which every order is executed after the events
up to its arrival and before the later ones. Properties of runs are proved by induction on it.
-/

namespace PolymarketBt

open StableSort (Grouped InOrder)

/-- No intent carries a decision time before the current one. -/
def Strategy.NeverBackdates {σ : Type} (strategy : Strategy σ) : Prop :=
  strategy.Obeys fun context intent => context.nowNs ≤ intent.decisionTimestampNs

/-- One step of a replay. -/
inductive EngineStep where
  | event (event : ReplayEvent)
  | execution (order : PendingOrder)
deriving DecidableEq, Repr

def EngineStep.event? : EngineStep → Option ReplayEvent
  | .event applied => some applied
  | .execution _ => none

def EngineStep.order? : EngineStep → Option PendingOrder
  | .event _ => none
  | .execution order => some order

namespace PendingHeap

/-- The heap without its first order. -/
def pop (heap : PendingHeap) : PendingHeap := ⟨heap.orders.tail, heap.inOrder.tail⟩

theorem eq_of_orders {first second : PendingHeap} (same : first.orders = second.orders) :
    first = second := by
  cases first
  cases second
  congr

theorem mem_push {heap : PendingHeap} {order other : PendingOrder} :
    other ∈ (heap.push order).orders ↔ other = order ∨ other ∈ heap.orders :=
  List.mem_orderedInsert _

end PendingHeap

namespace BacktestEngine

variable {σ : Type} {engine : BacktestEngine σ}

/-- The time at which an event is replayed. -/
def timeOf (engine : BacktestEngine σ) (event : ReplayEvent) : ℤ := event.timeAt engine.mode

/-- Everything pending arrives at a time or later. -/
def Quiet (timeNs : ℤ) (state : EngineState σ) : Prop :=
  ∀ order ∈ state.pending.orders, timeNs ≤ order.arrivalNs

/-- A run from a state to the end, one event or one execution at a time. -/
inductive Timeline (engine : BacktestEngine σ) :
    EngineState σ → List EngineStep → EngineState σ → Prop
  | nil {state : EngineState σ} (settled : state.pending.orders = []) : Timeline engine state [] state
  | event {state next final : EngineState σ} {event : ReplayEvent} {steps : List EngineStep}
      (quiet : Quiet (engine.timeOf event) state)
      (stepped : engine.stepEvent state event = .ok next)
      (later : ∀ other ∈ steps.filterMap EngineStep.event?, engine.timeOf event ≤ engine.timeOf other)
      (rest : Timeline engine next steps final) : Timeline engine state (.event event :: steps) final
  | execution {state next final : EngineState σ} {order : PendingOrder}
      {others : List PendingOrder} {steps : List EngineStep}
      (first : state.pending.orders = order :: others)
      (ran : engine.executeOrder { state with pending := state.pending.pop } order = .ok next)
      (later : ∀ other ∈ steps.filterMap EngineStep.event?, order.arrivalNs < engine.timeOf other)
      (rest : Timeline engine next steps final) :
      Timeline engine state (.execution order :: steps) final

/-! ## Executions -/

/-- An execution neither reads nor writes the heap. -/
theorem executeOrder_setPending (state : EngineState σ) (heap : PendingHeap)
    (order : PendingOrder) :
    engine.executeOrder { state with pending := heap } order =
      (engine.executeOrder state order).map fun after => { after with pending := heap } := by
  unfold executeOrder matchOrder
  dsimp only
  split
  · dsimp only [Except.ok_bind]
    cases engine.slippageOf _ <;> rfl
  · cases state.reconstructor.books order.intent.tokenId with
    | none =>
      dsimp only [Except.ok_bind]
      cases engine.slippageOf _ <;> rfl
    | some book =>
      dsimp only
      cases engine.execution.execute order.intent book state.portfolio order.arrivalNs with
      | error e => rfl
      | ok executed =>
        dsimp only [Except.ok_bind, pure, Except.pure]
        cases engine.slippageOf _ <;> rfl

theorem executeOrder_pending {state after : EngineState σ} {order : PendingOrder}
    (ran : engine.executeOrder state order = .ok after) : after.pending = state.pending := by
  obtain ⟨⟨_, _, _, _, rfl, _⟩, _⟩ := executeOrder_effect ran
  rfl

/-- Orders executed from the front of the heap come first on the timeline. -/
theorem timeline_executions {state after final : EngineState σ} {steps : List EngineStep}
    {front : List PendingOrder} {rest : PendingHeap}
    (split : state.pending.orders = front ++ rest.orders)
    (ran : front.foldlM engine.executeOrder { state with pending := rest } = .ok after)
    (before : ∀ order ∈ front, ∀ event ∈ steps.filterMap EngineStep.event?,
      order.arrivalNs < engine.timeOf event)
    (timeline : Timeline engine after steps final) :
    Timeline engine state (front.map .execution ++ steps) final := by
  induction front generalizing state with
  | nil =>
    have same : { state with pending := rest } = state := by
      rw [PendingHeap.eq_of_orders split.symm]
    cases ran
    rwa [same] at timeline
  | cons order front ih =>
    rw [List.foldlM_cons, Except.bind_eq_ok] at ran
    obtain ⟨next, first, ran⟩ := ran
    -- the same execution with the rest of the front still pending
    have popped := @executeOrder_setPending _ engine state state.pending.pop order
    rw [executeOrder_setPending] at first
    cases executed : engine.executeOrder state order with
    | error e =>
      rw [executed] at first
      cases first
    | ok done =>
      rw [executed] at first popped
      cases first
      refine .execution split popped ?_ (ih ?_ ran
        fun other member => before other (List.mem_cons_of_mem _ member))
      · intro event member
        refine before order List.mem_cons_self event ?_
        simpa [List.filterMap_append, List.filterMap_map, Function.comp_def, EngineStep.event?]
          using member
      · change state.pending.orders.tail = _
        rw [split]
        rfl

theorem executeDue_pending {due : PendingOrder → Bool} {state after : EngineState σ}
    (ran : engine.executeDue due state = .ok after) :
    after.pending = state.pending.popDue due :=
  Except.foldlM_history (fun _ current => current.pending = state.pending.popDue due) rfl
    (fun _ _ _ _ _ held stepped => (executeOrder_pending stepped).trans held) ran

/-- The orders that were due come first on the timeline. -/
theorem timeline_due {due : PendingOrder → Bool} {state after final : EngineState σ}
    {steps : List EngineStep} (ran : engine.executeDue due state = .ok after)
    (before : ∀ order, due order → ∀ event ∈ steps.filterMap EngineStep.event?,
      order.arrivalNs < engine.timeOf event)
    (timeline : Timeline engine after steps final) :
    ∃ earlier, Timeline engine state (earlier ++ steps) final ∧
      (earlier ++ steps).filterMap EngineStep.event? = steps.filterMap EngineStep.event? := by
  refine ⟨(state.pending.orders.takeWhile due).map .execution,
    timeline_executions List.takeWhile_append_dropWhile.symm ran
      (fun order member => before order (List.mem_takeWhile_imp member)) timeline, ?_⟩
  simp [List.filterMap_append, List.filterMap_map, Function.comp_def, EngineStep.event?]

/-- The first order of the heap has the earliest arrival. -/
theorem arrival_le_of_first {heap : PendingHeap} {order : PendingOrder} {others : List PendingOrder}
    (first : heap.orders = order :: others) : ∀ other ∈ heap.orders,
      order.arrivalNs ≤ other.arrivalNs := by
  have inOrder := heap.inOrder
  rw [first] at inOrder ⊢
  intro other member
  rcases List.mem_cons.mp member with rfl | inRest
  · exact le_rfl
  · have keys := (List.pairwise_cons.mp inOrder).1 other inRest
    simp only [PendingOrder.key, Prod.Lex.toLex_le_toLex] at keys
    rcases keys with earlier | ⟨same, _⟩
    · exact earlier.le
    · exact same.le

private theorem dropWhile_arrivals {due : PendingOrder → Bool} {timeNs : ℤ}
    (isDue : ∀ order, due order ↔ order.arrivalNs < timeNs) {orders : List PendingOrder}
    (inOrder : InOrder PendingOrder.key orders) :
    ∀ order ∈ orders.dropWhile due, timeNs ≤ order.arrivalNs := by
  induction orders with
  | nil => simp
  | cons order rest ih =>
    by_cases early : due order
    · rw [List.dropWhile_cons_of_pos early]
      exact ih (List.pairwise_cons.mp inOrder).2
    · rw [List.dropWhile_cons_of_neg early]
      rw [isDue, not_lt] at early
      have first : (⟨order :: rest, inOrder⟩ : PendingHeap).orders = order :: rest := rfl
      exact fun other member => early.trans (arrival_le_of_first first other member)

/-- Once the orders that arrive before a time are executed, the rest arrives then or later. -/
theorem executePending_quiet {timeNs : ℤ} {state after : EngineState σ}
    (ran : engine.executePending timeNs false state = .ok after) : Quiet timeNs after := by
  unfold Quiet
  rw [executeDue_pending ran]
  exact dropWhile_arrivals (fun order => by simp) state.pending.inOrder

/-! ## Events -/

theorem schedule_pending {state after : EngineState σ} {intents : List OrderIntent} {timeNs : ℤ}
    (ran : engine.schedule state intents = .ok after)
    (decided : ∀ intent ∈ intents, timeNs ≤ intent.decisionTimestampNs) :
    ∀ order ∈ after.pending.orders, order ∈ state.pending.orders ∨ timeNs ≤ order.arrivalNs := by
  refine Except.foldlM_history (fun _ current => ∀ order ∈ current.pending.orders,
    order ∈ state.pending.orders ∨ timeNs ≤ order.arrivalNs) (fun _ => .inl) ?_ ran
  intro _ intent current next member held stepped
  cases scheduleIntent_effect stepped with
  | rejected => exact held
  | pending sampleNs nonneg _ =>
    intro order inHeap
    rcases PendingHeap.mem_push.mp inHeap with rfl | old
    · have late := decided intent member
      exact .inr (by change timeNs ≤ intent.decisionTimestampNs + sampleNs; omega)
    · exact held order old

/-- What an event adds to the heap arrives no earlier than the event. -/
theorem stepEvent_pending (never : engine.strategy.NeverBackdates) {state after : EngineState σ}
    {event : ReplayEvent} (ran : engine.stepEvent state event = .ok after) :
    ∀ order ∈ after.pending.orders,
      order ∈ state.pending.orders ∨ engine.timeOf event ≤ order.arrivalNs := by
  obtain ⟨integrity, found, heard, strategyState, intents, _, _, recorded, called, scheduled⟩ :=
    stepEvent_eq_ok_iff.mp ran
  obtain ⟨⟨_, _, _, _, _, rfl⟩, _, _⟩ := recordEvent_effect recorded
  have fresh := schedule_pending scheduled fun intent member => hear_obeys never called intent member
  exact fresh

theorem events_of_group (group : List ReplayEvent) (steps : List EngineStep) :
    (group.map EngineStep.event ++ steps).filterMap EngineStep.event? =
      group ++ steps.filterMap EngineStep.event? := by
  simp [List.filterMap_append, List.filterMap_map, Function.comp_def, EngineStep.event?]

/-- The events of a group follow one another on the timeline. -/
theorem timeline_events (never : engine.strategy.NeverBackdates) {timeNs : ℤ}
    {group : List ReplayEvent} {state after final : EngineState σ} {steps : List EngineStep}
    (own : ∀ event ∈ group, engine.timeOf event = timeNs) (quiet : Quiet timeNs state)
    (ran : group.foldlM engine.stepEvent state = .ok after)
    (later : ∀ other ∈ steps.filterMap EngineStep.event?, timeNs ≤ engine.timeOf other)
    (timeline : Timeline engine after steps final) :
    Timeline engine state (group.map .event ++ steps) final := by
  induction group generalizing state with
  | nil =>
    cases ran
    exact timeline
  | cons event rest ih =>
    rw [List.foldlM_cons, Except.bind_eq_ok] at ran
    obtain ⟨next, stepped, ran⟩ := ran
    have now := own event List.mem_cons_self
    have others : ∀ other ∈ rest, engine.timeOf other = timeNs := fun other member =>
      own other (List.mem_cons_of_mem _ member)
    have stillQuiet : Quiet timeNs next := by
      intro order member
      rcases stepEvent_pending never stepped order member with old | fresh
      · exact quiet order old
      · exact now ▸ fresh
    refine .event (now ▸ quiet) stepped ?_ (ih others stillQuiet ran)
    intro other member
    change other ∈ (rest.map EngineStep.event ++ steps).filterMap EngineStep.event? at member
    rw [events_of_group] at member
    rcases List.mem_append.mp member with inGroup | inSteps
    · rw [now, others other inGroup]
    · exact now ▸ later other inSteps

/-! ## Groups -/

/-- The groups of a replay, from a state whose due orders may have been executed already. -/
theorem timeline_groups (never : engine.strategy.NeverBackdates) {groups : List (List ReplayEvent)}
    (timed : ∀ event ∈ groups.flatten, event.Timed engine.mode)
    (grouped : Grouped engine.timeOf groups) {due : PendingOrder → Bool}
    (before : ∀ order, due order → ∀ event ∈ groups.flatten, order.arrivalNs < engine.timeOf event)
    {state settled applied final : EngineState σ} (settles : engine.executeDue due state = .ok settled)
    (ran : groups.foldlM engine.runGroup settled = .ok applied)
    (drained : engine.drain applied = .ok final) :
    ∃ steps, Timeline engine state steps final ∧
      steps.filterMap EngineStep.event? = groups.flatten := by
  induction grouped generalizing due state settled with
  | nil =>
    cases ran
    have empty : final.pending.orders = [] := by
      rw [executeDue_pending drained]
      exact List.dropWhile_eq_nil_iff.mpr fun _ _ => rfl
    obtain ⟨last, drains, noEvents⟩ := timeline_due drained (by simp) (.nil empty)
    obtain ⟨earlier, timeline, same⟩ := timeline_due settles (by
      rw [noEvents]
      simp) drains
    exact ⟨_, timeline, same.trans noEvents⟩
  | @cons timeNs first others groups own same later rest ih =>
    rw [List.foldlM_cons, Except.bind_eq_ok] at ran
    obtain ⟨closed, group, ran⟩ := ran
    unfold runGroup at group
    simp only [Except.bind_eq_ok, ReplayEvent.timestamp_eq_ok_iff] at group
    obtain ⟨_, ⟨_, rfl⟩, opened, opening, heard, applies, closing⟩ := group
    change engine.timeOf first = timeNs at own
    change engine.executePending (engine.timeOf first) false settled = .ok opened at opening
    change engine.executePending (engine.timeOf first) true heard = .ok closed at closing
    rw [own] at opening closing
    have members : ∀ event ∈ first :: others, engine.timeOf event = timeNs :=
      List.forall_mem_cons.mpr ⟨own, same⟩
    obtain ⟨steps, timeline, events⟩ := ih
      (fun event member => timed event (List.mem_append_right _ member)) (by
        intro order arrived event member
        have after := later event member
        simp only [decide_eq_true_eq] at arrived
        omega) closing ran
    have inGroup := timeline_events never members (executePending_quiet opening) applies
      (fun other member => by
        rw [events] at member
        exact (later other member).le) timeline
    have groupEvents := events_of_group (first :: others) steps
    rw [events] at groupEvents
    obtain ⟨opens, fromSettled, openEvents⟩ := timeline_due opening (by
      intro order arrived event member
      rw [groupEvents] at member
      simp only [decide_eq_true_eq, Bool.false_eq_true, false_and, or_false] at arrived
      rcases List.mem_append.mp member with inside | after
      · rw [members event inside]
        exact arrived
      · exact arrived.trans (later event after)) inGroup
    obtain ⟨earlier, fromState, allEvents⟩ := timeline_due settles (by
      intro order arrived event member
      rw [openEvents, groupEvents] at member
      exact before order arrived event member) fromSettled
    exact ⟨_, fromState, allEvents.trans (openEvents.trans groupEvents)⟩

/-- A completed replay is a timeline that applies the merged events in their order. -/
theorem replay_timeline (never : engine.strategy.NeverBackdates) {ordered : List ReplayEvent}
    (timed : ∀ event ∈ ordered, event.Timed engine.mode) (inOrder : InOrder engine.timeOf ordered)
    {final : EngineState σ} (completed : engine.replay ordered = .ok final) :
    ∃ start steps, engine.start = .ok start ∧ Timeline engine start steps final ∧
      steps.filterMap EngineStep.event? = ordered := by
  unfold replay at completed
  simp only [Except.bind_eq_ok] at completed
  obtain ⟨start, started, applied, ran, drained⟩ := completed
  have groups : Grouped engine.timeOf (ordered.splitBy engine.sameTime) := by
    refine inOrder.grouped_splitBy fun first inFirst second inSecond => ?_
    unfold sameTime
    rw [ReplayEvent.timestamp_of_timed (timed first inFirst),
      ReplayEvent.timestamp_of_timed (timed second inSecond)]
    simp [Except.toOption, timeOf]
  have nothing : engine.executeDue (fun _ => false) start = .ok start := by
    unfold executeDue
    have same : start.pending.popDue (fun _ => false) = start.pending :=
      PendingHeap.eq_of_orders (by simp [PendingHeap.popDue])
    rw [same]
    cases start.pending.orders <;> rfl
  obtain ⟨steps, timeline, events⟩ := timeline_groups never
    (by rwa [List.flatten_splitBy]) groups (by simp) nothing ran drained
  exact ⟨start, steps, started, timeline, events.trans (List.flatten_splitBy _ _)⟩

/-- Merged events have replay times, and these do not decrease. -/
theorem merged_inOrder {events merged : List ReplayEvent}
    (merge : mergeEvents events engine.mode = .ok merged) :
    (∀ event ∈ merged, event.Timed engine.mode) ∧ InOrder engine.timeOf merged := by
  obtain ⟨timed, rfl⟩ := mergeEvents_eq_ok_iff.mp merge
  refine ⟨fun event member => timed event (StableSort.mem_sortByKey.mp member), ?_⟩
  refine List.Pairwise.imp (fun {first second} keys => ?_) (StableSort.sortByKey_inOrder _ _)
  simp only [eventKey, eventKeyAt, Prod.Lex.toLex_le_toLex] at keys
  rcases keys with earlier | ⟨same, _⟩
  · exact earlier.le
  · exact same.le

end BacktestEngine

end PolymarketBt
