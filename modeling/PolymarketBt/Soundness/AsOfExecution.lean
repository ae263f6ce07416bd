import PolymarketBt.Soundness.PrefixCausality

/-! # As-of execution in the reference engine

With a strategy that decides at the current time, every intent has one result, and an order is
executed in the state left by exactly the events up to its arrival and the orders before it in the
schedule. A callback sees only executions that arrived before it, and nothing fills in a market
whose resolution was recorded by the arrival.
-/

namespace PolymarketBt

open StableSort (InOrder)

/-- Every intent carries the current time as its decision time. -/
def Strategy.DecidesNow {σ : Type} (strategy : Strategy σ) : Prop :=
  strategy.Obeys fun context intent => intent.decisionTimestampNs = context.nowNs

theorem Strategy.DecidesNow.neverBackdates {σ : Type} {strategy : Strategy σ}
    (decides : strategy.DecidesNow) : strategy.NeverBackdates :=
  decides.mono fun _ _ same => same.ge

/-- What an intent asks for, without the id and the metadata that scheduling rewrites. -/
def OrderIntent.request (intent : OrderIntent) : OrderIntent :=
  { intent with orderIntentId := "", metadata := [] }

def LoggedOrder.entry (order : LoggedOrder) : OrderIntent × ℕ :=
  (order.result.intent.request, order.counter)

/-- The scheduled order that a result belongs to; a refused limit order has none. -/
def LoggedOrder.executed? (order : LoggedOrder) : Option PendingOrder :=
  order.arrivalNs.map fun arrivalNs => ⟨arrivalNs, order.counter, order.result.intent⟩

def PendingOrder.entry (order : PendingOrder) : OrderIntent × ℕ :=
  (order.intent.request, order.counter)

namespace BacktestEngine

variable {σ : Type} {engine : BacktestEngine σ}

/-- One step; an execution takes the first order of the heap. -/
def perform (engine : BacktestEngine σ) (state : EngineState σ) :
    EngineStep → Except PyError (EngineState σ)
  | .event event => engine.stepEvent state event
  | .execution order => engine.executeOrder { state with pending := state.pending.pop } order

/-- The intents that the callback of an event returns. -/
def callbackIntents (engine : BacktestEngine σ) (state : EngineState σ) (event : ReplayEvent) :
    Except PyError (List OrderIntent) := do
  let (integrity, _) ← state.integrity.check event.receivedUtcNs
  let clock ← advanceClock state.clock engine.mode event
  let (_, intents) ←
    engine.applyEvent { state with integrity := integrity, clock := some clock } event
  return intents

/-- The intents that the callbacks of a run return, in order. -/
def returned (engine : BacktestEngine σ) : EngineState σ → List EngineStep → List OrderIntent
  | _, [] => []
  | state, step :: steps =>
    (match step with
      | .event event => (engine.callbackIntents state event).toOption.getD []
      | .execution _ => []) ++
    match engine.perform state step with
    | .ok next => returned engine next steps
    | .error _ => []

/-! ## The order of the steps -/

/-- One step comes before another in the order of the replay. -/
def Precedes (engine : BacktestEngine σ) : EngineStep → EngineStep → Prop
  | .event first, .event second => engine.timeOf first ≤ engine.timeOf second
  | .event first, .execution second => engine.timeOf first ≤ second.arrivalNs
  | .execution first, .event second => first.arrivalNs < engine.timeOf second
  | .execution first, .execution second => first.key < second.key

/-- What holds of the pending orders and of every order that arrives with a later event or after it
holds of every order that is executed. -/
theorem timeline_executed (never : engine.strategy.NeverBackdates) {state final : EngineState σ}
    {steps : List EngineStep} (timeline : Timeline engine state steps final)
    {holds : PendingOrder → Prop} (pending : ∀ order ∈ state.pending.orders, holds order)
    (fresh : ∀ event ∈ steps.filterMap EngineStep.event?, ∀ order,
      engine.timeOf event ≤ order.arrivalNs → holds order) :
    ∀ order ∈ steps.filterMap EngineStep.order?, holds order := by
  induction timeline with
  | nil => simp
  | @event state next final event steps quiet stepped later rest ih =>
    refine ih ?_ fun other member => fresh other (List.mem_cons_of_mem _ member)
    intro order member
    rcases stepEvent_pending never stepped order member with old | new
    · exact pending order old
    · exact fresh event List.mem_cons_self order new
  | @execution state next final order others steps first ran later rest ih =>
    refine List.forall_mem_cons.mpr ⟨pending order (first ▸ List.mem_cons_self), ih ?_ fresh⟩
    intro other member
    rw [executeOrder_pending ran] at member
    exact pending other (List.mem_of_mem_tail member)

/-! ## One result for each intent -/

/-- The intents scheduled so far are logged or pending, each once under its own number. -/
structure Account (state : EngineState σ) (scheduled : List OrderIntent) : Prop where
  counter : state.intentCounter = scheduled.length
  entries : (state.orderResults.map LoggedOrder.entry ++
    state.pending.orders.map PendingOrder.entry).Perm scheduled.zipIdx

theorem Account.pending_nodup {state : EngineState σ} {scheduled : List OrderIntent}
    (account : Account state scheduled) :
    (state.pending.orders.map PendingOrder.counter).Nodup := by
  have counters := account.entries.map Prod.snd
  rw [List.map_append, List.map_map, List.map_map] at counters
  have distinct := (counters.nodup_iff).mpr (by
    rw [List.zipIdx_map_snd]
    exact List.nodup_range')
  exact (List.nodup_append.mp distinct).2.1

/-- A number given to a new intent extends the account. -/
theorem Account.extend {results pending : List (OrderIntent × ℕ)} {scheduled : List OrderIntent}
    (request : OrderIntent) (entries : (results ++ pending).Perm scheduled.zipIdx) :
    (results ++ ((request, scheduled.length) :: pending)).Perm
      (scheduled ++ [request]).zipIdx := by
  rw [List.zipIdx_append, zero_add, List.zipIdx_singleton]
  have front := (List.perm_middle : (results ++ ((request, scheduled.length) :: pending)).Perm _)
  have kept := entries.cons (request, scheduled.length)
  exact (front.trans kept).trans (List.perm_append_singleton _ _).symm

theorem scheduleIntent_account {state after : EngineState σ} {intent : OrderIntent}
    {scheduled : List OrderIntent} (account : Account state scheduled)
    (ran : engine.scheduleIntent state intent = .ok after) :
    Account after (scheduled ++ [intent.request]) := by
  have same (state : EngineState σ) :
      (engine.deterministicIntent state intent).request = intent.request := rfl
  have extended := Account.extend intent.request account.entries
  cases scheduleIntent_effect ran with
  | rejected result own _ _ =>
    refine ⟨by simp [account.counter], ?_⟩
    simpa [LoggedOrder.entry, own, same, account.counter] using extended
  | pending sampleNs _ _ =>
    refine ⟨by simp [account.counter], ?_⟩
    refine List.Perm.trans ?_ extended
    refine List.Perm.append_left _ ?_
    exact ((List.perm_orderedInsert _ _ _).map PendingOrder.entry).trans
      (by simp [PendingOrder.entry, same, account.counter])

theorem schedule_account {state after : EngineState σ} {intents scheduled : List OrderIntent}
    (account : Account state scheduled) (ran : engine.schedule state intents = .ok after) :
    Account after (scheduled ++ intents.map OrderIntent.request) :=
  Except.foldlM_history (fun past current =>
      Account current (scheduled ++ past.map OrderIntent.request)) (by simpa using account)
    (fun past intent current next _ held stepped => by
      simpa using scheduleIntent_account held stepped) ran

theorem callbackIntents_of_heard {state heard : EngineState σ} {event : ReplayEvent}
    {integrity : ReplayIntegrity} {clock : ℤ} {strategyState : σ} {intents : List OrderIntent}
    {found : QualityState}
    (checked : state.integrity.check event.receivedUtcNs = .ok (integrity, found))
    (advanced : advanceClock state.clock engine.mode event = .ok clock)
    (recorded : engine.recordEvent
      { state with integrity := integrity, clock := some clock } event = .ok heard)
    (called : engine.hear heard event = .ok (strategyState, intents)) :
    engine.callbackIntents state event = .ok intents := by
  unfold callbackIntents
  simp only [Except.bind_eq_ok, applyEvent_eq, Except.pure_eq_ok]
  exact ⟨(integrity, found), checked, _, advanced, (_, intents),
    ⟨heard, recorded, (strategyState, intents), called, rfl⟩, rfl⟩

theorem stepEvent_account {state after : EngineState σ} {event : ReplayEvent}
    {scheduled : List OrderIntent} (account : Account state scheduled)
    (ran : engine.stepEvent state event = .ok after) :
    Account after (scheduled ++
      (((engine.callbackIntents state event).toOption.getD []).map OrderIntent.request)) := by
  obtain ⟨integrity, found, heard, strategyState, intents, checked, advanced, recorded, called,
    scheduling⟩ := stepEvent_eq_ok_iff.mp ran
  have same := callbackIntents_of_heard checked advanced recorded called
  obtain ⟨⟨_, _, _, _, _, rfl⟩, _, _⟩ := recordEvent_effect recorded
  rw [same]
  refine schedule_account ?_ scheduling
  exact ⟨account.counter, account.entries⟩

theorem executeOrder_account {state after : EngineState σ} {order : PendingOrder}
    {others : List PendingOrder} {scheduled : List OrderIntent} (account : Account state scheduled)
    (first : state.pending.orders = order :: others)
    (ran : engine.executeOrder { state with pending := state.pending.pop } order = .ok after) :
    Account after scheduled := by
  obtain ⟨⟨_, _, result, slippageScaled, rfl, own⟩, _⟩ := executeOrder_effect ran
  refine ⟨account.counter, ?_⟩
  have entries := account.entries
  rw [first] at entries
  have rest : state.pending.pop.orders = others := by
    change state.pending.orders.tail = others
    rw [first]
    rfl
  have moved : (LoggedOrder.entry ⟨order.counter, some order.arrivalNs, result, slippageScaled⟩) =
      order.entry := by
    rw [LoggedOrder.entry, PendingOrder.entry, own]
  simpa [rest, moved] using entries

/-- A run schedules exactly the intents its callbacks return. -/
theorem timeline_account {state final : EngineState σ} {steps : List EngineStep}
    (timeline : Timeline engine state steps final) {scheduled : List OrderIntent}
    (account : Account state scheduled) :
    Account final (scheduled ++ (returned engine state steps).map OrderIntent.request) := by
  induction timeline generalizing scheduled with
  | nil => simpa [returned] using account
  | @event state next final event steps _ stepped _ _ ih =>
    have after := ih (stepEvent_account account stepped)
    rw [returned]
    simpa [perform, stepped] using after
  | @execution state next final order others steps first ran _ _ ih =>
    have after := ih (executeOrder_account account first ran)
    rw [returned]
    simpa [perform, ran] using after

/-- The steps of a timeline stand in the order of the replay. -/
theorem timeline_pairwise (never : engine.strategy.NeverBackdates) {state final : EngineState σ}
    {steps : List EngineStep} (timeline : Timeline engine state steps final)
    {scheduled : List OrderIntent} (account : Account state scheduled) :
    steps.Pairwise (Precedes engine) := by
  have split {step : EngineStep} {steps : List EngineStep}
      (events : ∀ event ∈ steps.filterMap EngineStep.event?, Precedes engine step (.event event))
      (orders : ∀ order ∈ steps.filterMap EngineStep.order?, Precedes engine step (.execution order)) :
      ∀ other ∈ steps, Precedes engine step other := by
    intro other member
    cases other with
    | event event => exact events event (List.mem_filterMap.mpr ⟨_, member, rfl⟩)
    | execution order => exact orders order (List.mem_filterMap.mpr ⟨_, member, rfl⟩)
  induction timeline generalizing scheduled with
  | nil => exact .nil
  | @event state next final event steps quiet stepped later rest ih =>
    refine List.pairwise_cons.mpr ⟨split later ?_, ih (stepEvent_account account stepped)⟩
    refine timeline_executed never rest ?_ fun other member order arrived =>
      (later other member).trans arrived
    intro order member
    rcases stepEvent_pending never stepped order member with old | new
    · exact quiet order old
    · exact new
  | @execution state next final order others steps first ran later rest ih =>
    refine List.pairwise_cons.mpr ⟨split later ?_, ih (executeOrder_account account first ran)⟩
    refine timeline_executed never rest ?_ fun event member other arrived =>
      Prod.Lex.toLex_lt_toLex.mpr (.inl ((later event member).trans_le arrived))
    intro other member
    have distinct := account.pending_nodup
    have inOrder := state.pending.inOrder
    rw [executeOrder_pending ran] at member
    change other ∈ state.pending.orders.tail at member
    rw [first] at distinct inOrder member
    have le := (List.pairwise_cons.mp inOrder).1 other member
    refine lt_of_le_of_ne le fun same => ?_
    have counters : order.counter = other.counter := congrArg (fun key => (ofLex key).2) same
    exact (List.nodup_cons.mp distinct).1 (counters ▸ List.mem_map_of_mem member)

/-! ## Results -/

/-- A refused limit order: it has no arrival and fills nothing. -/
def LimitRefusal (entry : LoggedOrder) : Prop :=
  entry.arrivalNs = none ∧ entry.result.intent.orderType = .limitGtcSimulated ∧
    entry.result.fills = []

theorem stepEvent_results {state after : EngineState σ} {event : ReplayEvent}
    (ran : engine.stepEvent state event = .ok after) :
    ∃ refusals, after.orderResults = state.orderResults ++ refusals ∧
      ∀ entry ∈ refusals, LimitRefusal entry := by
  obtain ⟨integrity, found, heard, strategyState, intents, _, _, recorded, _, scheduled⟩ :=
    stepEvent_eq_ok_iff.mp ran
  obtain ⟨⟨_, _, _, _, _, rfl⟩, _, _⟩ := recordEvent_effect recorded
  refine Except.foldlM_history (fun _ current => ∃ refusals,
    current.orderResults = state.orderResults ++ refusals ∧ ∀ entry ∈ refusals, LimitRefusal entry)
    ⟨[], by simp, by simp⟩ ?_ scheduled
  rintro _ intent current next _ ⟨refusals, results, limits⟩ stepped
  cases scheduleIntent_effect stepped with
  | rejected result own limit unfilled =>
    refine ⟨refusals ++ [⟨current.intentCounter, none, result, none⟩], ?_, ?_⟩
    · simp [results]
    · intro entry member
      rcases List.mem_append.mp member with old | new
      · exact limits entry old
      · obtain rfl := List.mem_singleton.mp new
        exact ⟨rfl, own ▸ limit, unfilled⟩
  | pending => exact ⟨refusals, results, limits⟩

theorem matchOrder_intent {state : EngineState σ} {order : PendingOrder}
    {matched : EngineState σ × OrderResult} (ran : engine.matchOrder state order = .ok matched) :
    matched.2.intent = order.intent := by
  unfold matchOrder at ran
  split at ran
  · cases ran
    rfl
  · split at ran
    · cases ran
      rfl
    · simp only [Except.bind_eq_ok] at ran
      obtain ⟨executed, swept, ran⟩ := ran
      cases ran
      exact TakerExecutionSimulator.execute_intent swept

theorem matchOrder_resolved {state : EngineState σ} {order : PendingOrder}
    {matched : EngineState σ × OrderResult}
    (resolved : order.intent.conditionId ∈ state.resolvedConditions)
    (ran : engine.matchOrder state order = .ok matched) : matched.2.fills = [] := by
  unfold matchOrder at ran
  rw [if_pos resolved] at ran
  cases ran
  rfl

theorem executeOrder_results {state after : EngineState σ} {order : PendingOrder}
    (ran : engine.executeOrder state order = .ok after) :
    ∃ matched entry, engine.matchOrder state order = .ok (matched, entry.result) ∧
      entry.executed? = some order ∧ after.orderResults = state.orderResults ++ [entry] := by
  unfold executeOrder at ran
  simp only [Except.bind_eq_ok, Except.pure_eq_ok] at ran
  obtain ⟨⟨matched, result⟩, found, slippageScaled, _, rfl⟩ := ran
  have same : matched.orderResults = state.orderResults := by
    unfold matchOrder at found
    split at found
    · cases found
      rfl
    · split at found
      · cases found
        rfl
      · simp only [Except.bind_eq_ok] at found
        obtain ⟨executed, _, found⟩ := found
        cases found
        rfl
  refine ⟨matched, ⟨order.counter, some order.arrivalNs, result, slippageScaled⟩, found, ?_, ?_⟩
  · have own : result.intent = order.intent := matchOrder_intent found
    simp [LoggedOrder.executed?, own]
  · exact congrArg (· ++ _) same

theorem timeline_performs {state final : EngineState σ} {steps : List EngineStep}
    (timeline : Timeline engine state steps final) :
    steps.foldlM engine.perform state = .ok final := by
  induction timeline with
  | nil => rfl
  | event _ stepped _ _ ih => exact Except.bind_eq_ok.mpr ⟨_, stepped, ih⟩
  | execution _ ran _ _ ih => exact Except.bind_eq_ok.mpr ⟨_, ran, ih⟩

theorem timeline_settled {state final : EngineState σ} {steps : List EngineStep}
    (timeline : Timeline engine state steps final) : final.pending.orders = [] := by
  induction timeline with
  | nil settled => exact settled
  | event _ _ _ _ ih => exact ih
  | execution _ _ _ _ ih => exact ih

/-- What the log of a run says about the steps performed so far. -/
structure Logged (engine : BacktestEngine σ) (start : EngineState σ) (steps : List EngineStep)
    (state : EngineState σ) : Prop where
  performed : steps.foldlM engine.perform start = .ok state
  executed : state.orderResults.filterMap LoggedOrder.executed? = steps.filterMap EngineStep.order?
  refused : ∀ entry ∈ state.orderResults, entry.arrivalNs = none → LimitRefusal entry
  matched : ∀ before order after, steps = before ++ .execution order :: after →
    ∃ reached matched entry, before.foldlM engine.perform start = .ok reached ∧
      engine.matchOrder { reached with pending := reached.pending.pop } order =
        .ok (matched, entry.result) ∧
      entry ∈ state.orderResults ∧ entry.executed? = some order
  resolved : ∀ event ∈ steps.filterMap EngineStep.event?, ∀ conditionId,
    event.payload.resolvedCondition = some conditionId → conditionId ∈ state.resolvedConditions

theorem stepEvent_resolved {state after : EngineState σ} {event : ReplayEvent}
    (ran : engine.stepEvent state event = .ok after) :
    after.resolvedConditions =
      event.payload.resolvedCondition.toList ++ state.resolvedConditions := by
  obtain ⟨integrity, found, heard, strategyState, intents, _, _, recorded, _, scheduled⟩ :=
    stepEvent_eq_ok_iff.mp ran
  obtain ⟨⟨_, _, _, _, _, rfl⟩, _, _⟩ := recordEvent_effect recorded
  refine Except.foldlM_history (fun _ current => current.resolvedConditions =
    event.payload.resolvedCondition.toList ++ state.resolvedConditions) rfl ?_ scheduled
  intro _ intent current next _ held stepped
  cases scheduleIntent_effect stepped with
  | rejected => exact held
  | pending => exact held

theorem executeOrder_resolved {state after : EngineState σ} {order : PendingOrder}
    (ran : engine.executeOrder state order = .ok after) :
    after.resolvedConditions = state.resolvedConditions := by
  obtain ⟨⟨_, _, _, _, rfl, _⟩, _⟩ := executeOrder_effect ran
  rfl

/-- A step is the last one or stood among the earlier ones. -/
theorem snoc_split {α : Type} {past before after : List α} {last item : α}
    (split : past ++ [last] = before ++ item :: after) :
    (∃ earlier, past = before ++ item :: earlier) ∨ past = before ∧ last = item := by
  rcases List.eq_nil_or_concat after with rfl | ⟨earlier, final, rfl⟩
  · obtain ⟨same, final⟩ := List.append_inj' split rfl
    exact .inr ⟨same, List.singleton_inj.mp final⟩
  · refine .inl ⟨earlier, ?_⟩
    rw [List.concat_eq_append, ← List.cons_append, ← List.append_assoc] at split
    exact (List.append_inj' split rfl).1

theorem perform_logged {start state after : EngineState σ} {past : List EngineStep}
    {step : EngineStep} (logged : Logged engine start past state)
    (ran : engine.perform state step = .ok after) :
    Logged engine start (past ++ [step]) after := by
  have performed : (past ++ [step]).foldlM engine.perform start = .ok after := by
    rw [List.foldlM_append, logged.performed]
    simpa using ran
  cases step with
  | event event =>
    obtain ⟨refusals, results, limits⟩ := stepEvent_results ran
    have conditions := stepEvent_resolved ran
    have none : refusals.filterMap LoggedOrder.executed? = [] :=
      List.filterMap_eq_nil_iff.mpr fun entry member => by
        simp [LoggedOrder.executed?, (limits entry member).1]
    refine ⟨performed, ?_, ?_, ?_, ?_⟩
    · rw [results, List.filterMap_append, none, logged.executed]
      simp [EngineStep.order?]
    · rw [results]
      intro entry member noArrival
      rcases List.mem_append.mp member with old | new
      · exact logged.refused entry old noArrival
      · exact limits entry new
    · intro before order later split
      rcases snoc_split split with ⟨earlier, same⟩ | ⟨_, other⟩
      · obtain ⟨reached, matched, entry, ran, found, member, own⟩ :=
          logged.matched before order earlier same
        exact ⟨reached, matched, entry, ran, found, results ▸ List.mem_append_left _ member, own⟩
      · cases other
    · rw [conditions]
      intro other member conditionId resolves
      rw [List.filterMap_append] at member
      rcases List.mem_append.mp member with old | new
      · exact List.mem_append_right _ (logged.resolved other old conditionId resolves)
      · obtain rfl : other = event := by simpa [EngineStep.event?] using new
        exact List.mem_append_left _ (by simp [resolves])
  | execution order =>
    obtain ⟨matched, entry, found, own, results⟩ := executeOrder_results ran
    have arrived : entry.arrivalNs ≠ none := fun noArrival => by
      simp [LoggedOrder.executed?, noArrival] at own
    refine ⟨performed, ?_, ?_, ?_, ?_⟩
    · rw [results, List.filterMap_append, List.filterMap_append, logged.executed]
      simp [EngineStep.order?, own]
    · rw [results]
      intro other member noArrival
      rcases List.mem_append.mp member with old | new
      · exact logged.refused other old noArrival
      · exact absurd (List.mem_singleton.mp new ▸ noArrival) arrived
    · intro before other later split
      rcases snoc_split split with ⟨earlier, same⟩ | ⟨rfl, same⟩
      · obtain ⟨reached, matched, known, ran, found, member, own⟩ :=
          logged.matched before other earlier same
        exact ⟨reached, matched, known, ran, found, results ▸ List.mem_append_left _ member, own⟩
      · cases same
        exact ⟨state, matched, entry, logged.performed, found, results ▸ by simp, own⟩
    · rw [executeOrder_resolved ran]
      intro event member conditionId resolves
      rw [List.filterMap_append] at member
      rcases List.mem_append.mp member with old | new
      · exact logged.resolved event old conditionId resolves
      · simp [EngineStep.event?] at new

/-- The log of a run, started with an empty log. -/
theorem performs_logged {start final : EngineState σ} {steps : List EngineStep}
    (fresh : start.orderResults = []) (ran : steps.foldlM engine.perform start = .ok final) :
    Logged engine start steps final :=
  Except.foldlM_history (fun past state => Logged engine start past state)
    ⟨rfl, by simp [fresh], by simp [fresh], by simp, by simp⟩
    (fun _ _ _ _ _ logged stepped => perform_logged logged stepped) ran

/-! ## As-of execution -/

/-- What as-of execution promises about the steps and the results of a run. -/
structure AsOf (engine : BacktestEngine σ) (merged : List ReplayEvent) (start : EngineState σ)
    (steps : List EngineStep) (results : List LoggedOrder) : Prop where
  /-- The steps apply the merged events, in an order in which each follows what came before it. -/
  events : steps.filterMap EngineStep.event? = merged
  chronological : steps.Pairwise (Precedes engine)
  /-- Each intent that a callback returned has one result. -/
  oneResult : (results.map LoggedOrder.entry).Perm
    ((returned engine start steps).map OrderIntent.request).zipIdx
  /-- The results with an arrival are those of the executions; the others are refused limit orders. -/
  executed : results.filterMap LoggedOrder.executed? = steps.filterMap EngineStep.order?
  refused : ∀ entry ∈ results, entry.arrivalNs = none → LimitRefusal entry
  /-- An order is matched in the state left by exactly the events up to its arrival and exactly the
  orders before it in the schedule. -/
  asOf : ∀ before order after, steps = before ++ .execution order :: after →
    before.filterMap EngineStep.event? = merged.filter (engine.timeOf · ≤ order.arrivalNs) ∧
    before.filterMap EngineStep.order? =
      (steps.filterMap EngineStep.order?).filter (PendingOrder.key · < order.key) ∧
    ∃ reached matched entry, before.foldlM engine.perform start = .ok reached ∧
      engine.matchOrder { reached with pending := reached.pending.pop } order =
        .ok (matched, entry.result) ∧
      entry ∈ results ∧ entry.executed? = some order
  /-- A callback follows exactly the executions that arrived before it. -/
  callback : ∀ before event after, steps = before ++ .event event :: after →
    before.filterMap EngineStep.order? = (steps.filterMap EngineStep.order?).filter
      (PendingOrder.arrivalNs · < engine.timeOf event)
  /-- Nothing fills once the resolution of its market has been recorded. -/
  resolved : ∀ entry ∈ results, ∀ order, entry.executed? = some order →
    (∃ event ∈ merged, event.payload.resolvedCondition = some order.intent.conditionId ∧
      engine.timeOf event ≤ order.arrivalNs) → entry.result.fills = []

theorem event_mem {step : EngineStep} {event : ReplayEvent} {steps : List EngineStep}
    (member : event ∈ steps.filterMap EngineStep.event?)
    (all : ∀ other ∈ steps, Precedes engine step other) : Precedes engine step (.event event) := by
  obtain ⟨other, inSteps, own⟩ := List.mem_filterMap.mp member
  cases other with
  | event applied =>
    cases own
    exact all _ inSteps
  | execution => cases own

theorem order_mem {order : PendingOrder} {steps : List EngineStep}
    (member : order ∈ steps.filterMap EngineStep.order?) : .execution order ∈ steps := by
  obtain ⟨other, inSteps, own⟩ := List.mem_filterMap.mp member
  cases other with
  | event => cases own
  | execution executed =>
    cases own
    exact inSteps

/-- Where a condition holds of everything before a cut and of nothing after it, it selects what is
before. -/
theorem filter_cut {α : Type} {keep : α → Bool} {before after : List α}
    (kept : ∀ item ∈ before, keep item) (dropped : ∀ item ∈ after, ¬ keep item) :
    (before ++ after).filter keep = before := by
  rw [List.filter_append, List.filter_eq_self.mpr kept, List.filter_eq_nil_iff.mpr dropped,
    List.append_nil]

section Cut

variable {before after : List EngineStep} {order : PendingOrder} {event : ReplayEvent}

/-- The events before an execution are those up to its arrival. -/
theorem events_before (chronological :
    (before ++ .execution order :: after).Pairwise (Precedes engine)) :
    ((before ++ .execution order :: after).filterMap EngineStep.event?).filter
      (engine.timeOf · ≤ order.arrivalNs) = before.filterMap EngineStep.event? := by
  obtain ⟨_, later, across⟩ := List.pairwise_append.mp chronological
  rw [List.filterMap_append, List.filterMap_cons_none rfl]
  refine filter_cut (fun event member => ?_) fun event member => ?_
  · obtain ⟨step, inBefore, own⟩ := List.mem_filterMap.mp member
    cases step with
    | event applied =>
      cases own
      have le := across _ inBefore _ List.mem_cons_self
      simpa [Precedes] using le
    | execution => cases own
  · have lt := event_mem member (List.pairwise_cons.mp later).1
    simpa [Precedes] using lt

/-- The executions before an execution are those before it in the schedule. -/
theorem executions_before (chronological :
    (before ++ .execution order :: after).Pairwise (Precedes engine)) :
    ((before ++ .execution order :: after).filterMap EngineStep.order?).filter
      (PendingOrder.key · < order.key) = before.filterMap EngineStep.order? := by
  obtain ⟨_, later, across⟩ := List.pairwise_append.mp chronological
  rw [List.filterMap_append]
  refine filter_cut (fun other member => ?_) fun other member => ?_
  · have lt := across _ (order_mem member) _ List.mem_cons_self
    simpa [Precedes] using lt
  · rcases List.mem_cons.mp (order_mem member) with same | inAfter
    · cases same
      simp
    · have lt := (List.pairwise_cons.mp later).1 _ inAfter
      simpa [Precedes] using le_of_lt lt

/-- The executions before a callback are those that arrived before it. -/
theorem executions_before_event (chronological :
    (before ++ .event event :: after).Pairwise (Precedes engine)) :
    ((before ++ .event event :: after).filterMap EngineStep.order?).filter
      (PendingOrder.arrivalNs · < engine.timeOf event) = before.filterMap EngineStep.order? := by
  obtain ⟨_, later, across⟩ := List.pairwise_append.mp chronological
  rw [List.filterMap_append, List.filterMap_cons_none rfl]
  refine filter_cut (fun other member => ?_) fun other member => ?_
  · have lt := across _ (order_mem member) _ List.mem_cons_self
    simpa [Precedes] using lt
  · have le := (List.pairwise_cons.mp later).1 _ (order_mem member)
    simpa [Precedes] using le

end Cut

theorem timeline_asOf (never : engine.strategy.NeverBackdates) {start final : EngineState σ}
    {steps : List EngineStep} (timeline : Timeline engine start steps final)
    (account : Account start []) (fresh : start.orderResults = [])
    (settled : final.pending.orders = []) :
    AsOf engine (steps.filterMap EngineStep.event?) start steps final.orderResults := by
  have chronological := timeline_pairwise never timeline account
  have logged := performs_logged fresh (timeline_performs timeline)
  have entries := (timeline_account timeline account).entries
  rw [settled, List.map_nil, List.append_nil, List.nil_append] at entries
  have distinct : (final.orderResults.map LoggedOrder.counter).Nodup := by
    have counters := (entries.map Prod.snd).nodup_iff.mpr (by
      rw [List.zipIdx_map_snd]
      exact List.nodup_range')
    rwa [List.map_map] at counters
  have asOf (before : List EngineStep) (order : PendingOrder) (after : List EngineStep)
      (split : steps = before ++ .execution order :: after) :
      before.filterMap EngineStep.event? =
        (steps.filterMap EngineStep.event?).filter (engine.timeOf · ≤ order.arrivalNs) ∧
      before.filterMap EngineStep.order? =
        (steps.filterMap EngineStep.order?).filter (PendingOrder.key · < order.key) := by
    subst split
    exact ⟨(events_before chronological).symm, (executions_before chronological).symm⟩
  refine ⟨rfl, chronological, entries, logged.executed, logged.refused, ?_, ?_, ?_⟩
  · exact fun before order after split =>
      ⟨(asOf before order after split).1, (asOf before order after split).2,
        logged.matched before order after split⟩
  · rintro before event after rfl
    exact (executions_before_event chronological).symm
  · rintro entry member order own ⟨event, applied, resolves, early⟩
    have executed : order ∈ steps.filterMap EngineStep.order? := by
      rw [← logged.executed]
      exact List.mem_filterMap.mpr ⟨entry, member, own⟩
    obtain ⟨before, after, split⟩ := List.append_of_mem (order_mem executed)
    obtain ⟨reached, matched, known, ran, found, inLog, same⟩ := logged.matched before order after split
    -- the entry is the one that this execution logged
    have counters (other : LoggedOrder) (own : other.executed? = some order) :
        other.counter = order.counter := by
      obtain ⟨_, _, rfl⟩ := Option.map_eq_some_iff.mp own
      rfl
    obtain rfl : known = entry := List.inj_on_of_nodup_map distinct inLog member
      ((counters known same).trans (counters entry own).symm)
    have recorded : event ∈ before.filterMap EngineStep.event? := by
      rw [(asOf before order after split).1]
      exact List.mem_filter.mpr ⟨applied, by simpa using early⟩
    refine matchOrder_resolved ?_ found
    exact (performs_logged fresh ran).resolved event recorded _ resolves

/-- A completed run is a timeline of the merged events from the start of the engine. -/
theorem run_timeline (never : engine.strategy.NeverBackdates) {events merged : List ReplayEvent}
    (merge : mergeEvents events engine.mode = .ok merged) {artifacts : BacktestArtifacts}
    (completed : engine.run events = .ok artifacts) :
    ∃ start steps final, engine.start = .ok start ∧ Timeline engine start steps final ∧
      steps.filterMap EngineStep.event? = merged ∧ final.orderResults = artifacts.orderResults := by
  unfold run at completed
  simp only [Except.bind_eq_ok, Except.pure_eq_ok] at completed
  obtain ⟨_, same, final, replayed, rfl⟩ := completed
  cases merge.symm.trans same
  obtain ⟨timed, inOrder⟩ := merged_inOrder merge
  obtain ⟨start, steps, started, timeline, applied⟩ := replay_timeline never timed inOrder replayed
  exact ⟨start, steps, final, started, timeline, applied, rfl⟩

theorem start_account {start : EngineState σ} (started : engine.start = .ok start) :
    Account start [] ∧ start.orderResults = [] := by
  unfold BacktestEngine.start at started
  simp only [Except.bind_eq_ok, Except.pure_eq_ok] at started
  obtain ⟨_, _, rfl⟩ := started
  exact ⟨⟨rfl, .nil⟩, rfl⟩

/-- Every completed run executes its intents as of their arrivals. -/
theorem run_asOf (decides : engine.strategy.DecidesNow) {events merged : List ReplayEvent}
    (merge : mergeEvents events engine.mode = .ok merged) {artifacts : BacktestArtifacts}
    (completed : engine.run events = .ok artifacts) :
    ∃ start steps, engine.start = .ok start ∧
      AsOf engine merged start steps artifacts.orderResults := by
  obtain ⟨start, steps, final, started, timeline, rfl, logged⟩ :=
    run_timeline decides.neverBackdates merge completed
  obtain ⟨account, fresh⟩ := start_account started
  refine ⟨start, steps, started, ?_⟩
  rw [← logged]
  exact timeline_asOf decides.neverBackdates timeline account fresh (timeline_settled timeline)

theorem buyOnTrade_decidesNow : (buyOnTrade id).DecidesNow where
  onMarketEvent := by
    rintro _ _ _ _ ⟨⟩
    simp
  onBtcPrice := by
    rintro _ _ _ _ ⟨⟩
    simp
  onTrade := by
    rintro _ _ _ _ ⟨⟩
    simp
  onMarketClose := by
    rintro _ _ _ _ ⟨⟩
    simp

/-- Two trades with an order each, the first of which arrives between them. -/
theorem buyOnTrade_asOf :
    ∃ artifacts, (buyingEngine id).run [tradeAt 1000, tradeAt 90000000] = .ok artifacts ∧
      ∃ start steps, (buyingEngine id).start = .ok start ∧
        AsOf (buyingEngine id) [tradeAt 1000, tradeAt 90000000] start steps
          artifacts.orderResults := by
  refine ⟨_, rfl, ?_⟩
  exact @run_asOf Unit (buyingEngine id) buyOnTrade_decidesNow [tradeAt 1000, tradeAt 90000000]
    [tradeAt 1000, tradeAt 90000000] rfl _ rfl

end BacktestEngine

end PolymarketBt
