import PolymarketBt.Proofs.SessionCalls

/-! # The ledger of a sequential session

A session is driven by calls in any order and with any arguments, its caller going on when one
raises. Its wallet never goes negative, its fills add up to what it has filled and never pass the
target, children do not overlap, and for a buy the cash spent is what the recorded fills cost.
-/

namespace PolymarketBt

open RaisingMethod SessionMethod

namespace SessionEvent

def recorded : SessionEvent → List RecordedFill
  | decided .. => []
  | completed _ fills => fills

/-- A decision that issued a child. -/
def issues : SessionEvent → Bool
  | decided _ action => action.kind = .takerSlice
  | completed .. => false

def completes : SessionEvent → Bool
  | decided .. => false
  | completed .. => true

/-- An earlier event against a later one: decisions go forward, and a child waits for arrivals. -/
def Precedes : SessionEvent → SessionEvent → Prop
  | decided earlier _, decided later _ => earlier ≤ later
  | completed arrival _, decided now action => action.kind = .takerSlice → arrival ≤ now
  | _, completed .. => True

end SessionEvent

namespace SessionRun

def recorded (run : SessionRun) : List RecordedFill := run.history.flatMap SessionEvent.recorded

/-- What the recorded fills cost, their fees included. -/
def spent (run : SessionRun) : ℤ :=
  (run.recorded.map fun recorded => recorded.notionalScaled + recorded.fill.feeScaled).sum

/-- The ledger of a session that was opened with this cash. -/
structure Sound (parent : ParentOrder) (openingCashScaled : ℤ) (run : SessionRun) : Prop where
  cash : 0 ≤ run.session.cashScaled
  inventory : 0 ≤ run.session.inventorySharesScaled
  fills : run.session.fills = run.recorded.map RecordedFill.fill
  filled : run.session.filledSharesScaled =
    (run.recorded.map fun recorded => recorded.fill.sharesScaled).sum
  target : run.session.filledSharesScaled ≤ parent.plan.targetSharesScaled
  outstanding : run.history.countP SessionEvent.issues =
    run.history.countP SessionEvent.completes + if run.session.pending.isSome then 1 else 0
  ordered : run.history.Pairwise SessionEvent.Precedes
  punctual : ∀ recorded ∈ run.recorded,
    recorded.fill.timestampUtcNs ≤ parent.plan.deadlineUtcNs
  account : parent.plan.side = .buy → openingCashScaled - run.session.cashScaled = run.spent

/-- The instants a session remembers bound those of its history. -/
structure Timed (run : SessionRun) : Prop where
  decisions : ∀ nowUtcNs action, .decided nowUtcNs action ∈ run.history →
    ∃ last ∈ run.session.lastDecisionUtcNs, nowUtcNs ≤ last
  arrivals : ∀ arrivalUtcNs fills, .completed arrivalUtcNs fills ∈ run.history →
    arrivalUtcNs ≤ run.session.nextDecisionNotBeforeUtcNs

variable {parent : ParentOrder} {answer : PolicyAnswer} {run : SessionRun} {openingCash : ℤ}

/-! ## One call -/

theorem call_returned {call : SessionCall} {event : SessionEvent}
    {after : SequentialExecutionSession}
    (called : (call.method parent answer).perform run.session = (.ok event, after)) :
    run.call parent answer call = ⟨after, run.history ++ [event]⟩ := by
  unfold SessionRun.call
  rw [called]

theorem call_raised {call : SessionCall} {error : PyError} {after : SequentialExecutionSession}
    (called : (call.method parent answer).perform run.session = (.error error, after)) :
    run.call parent answer call = ⟨after, run.history⟩ := by
  unfold SessionRun.call
  rw [called]

/-- A record call closes the outstanding child or does nothing. -/
theorem call_records {call : SessionCall} (records : call.Records) :
    (∃ arrivalUtcNs fills after,
      run.call parent answer call = ⟨after, run.history ++ [.completed arrivalUtcNs fills]⟩ ∧
      Completes parent run.session arrivalUtcNs fills after) ∨
    run.call parent answer call = run := by
  cases called : (call.method parent answer).perform run.session with
  | mk outcome after =>
  cases outcome with
  | error error =>
    have atomic : Atomic (call.method parent answer) := SessionCall.method_atomic records
    have kept := atomic run.session error (by rw [called])
    rw [called] at kept
    obtain rfl : after = run.session := kept
    exact .inr (call_raised called)
  | ok event =>
    have next := call_returned called
    cases call with
    | decide => exact records.elim
    | recordOutcome outcome =>
      obtain ⟨_, _, recorded, rest⟩ := perform_bind_eq_ok.mp called
      obtain ⟨same, rfl⟩ := Prod.mk.inj rest
      obtain rfl := Except.ok.inj same
      exact .inl ⟨_, _, _, next, recordOutcome_returned recorded⟩
    | recordFill fill constructed =>
      obtain ⟨_, _, recorded, rest⟩ := perform_bind_eq_ok.mp called
      obtain ⟨same, rfl⟩ := Prod.mk.inj rest
      obtain rfl := Except.ok.inj same
      exact .inl ⟨_, _, _, next, (recordFill_returned constructed recorded).1⟩
    | recordNoFill arrivalUtcNs =>
      obtain ⟨_, _, recorded, rest⟩ := perform_bind_eq_ok.mp called
      obtain ⟨same, rfl⟩ := Prod.mk.inj rest
      obtain rfl := Except.ok.inj same
      exact .inl ⟨_, _, _, next, recordNoFill_returned recorded⟩

/-- What a call can do: decide, with or without an answer, record, or raise without a trace. -/
theorem call_cases (call : SessionCall) :
    (∃ nowUtcNs error after, run.call parent answer call = ⟨after, run.history⟩ ∧
      Decides run.session nowUtcNs (.error error) after) ∨
    (∃ nowUtcNs action after,
      run.call parent answer call = ⟨after, run.history ++ [.decided nowUtcNs action]⟩ ∧
      Decides run.session nowUtcNs (.ok action) after) ∨
    (∃ arrivalUtcNs fills after,
      run.call parent answer call = ⟨after, run.history ++ [.completed arrivalUtcNs fills]⟩ ∧
      Completes parent run.session arrivalUtcNs fills after) ∨
    run.call parent answer call = run := by
  cases call with
  | decide nowUtcNs bids asks minimumOrderSizeScaled reference =>
    cases decided : (SessionMethod.decide parent answer nowUtcNs bids asks minimumOrderSizeScaled
        reference).perform run.session with
    | mk outcome after =>
    cases outcome with
    | error error =>
      exact .inl ⟨nowUtcNs, error, after,
        call_raised (perform_bind_eq_error.mpr (.inl decided)), decide_decides decided⟩
    | ok action =>
      exact .inr (.inl ⟨nowUtcNs, action, after,
        call_returned (perform_bind_eq_ok.mpr ⟨action, after, decided, rfl⟩),
        decide_decides decided⟩)
  | recordOutcome => exact .inr (.inr (call_records trivial))
  | recordFill => exact .inr (.inr (call_records trivial))
  | recordNoFill => exact .inr (.inr (call_records trivial))

/-! ## The ledger along a run -/

theorem recorded_concat (session : SequentialExecutionSession) (history : List SessionEvent)
    (event : SessionEvent) :
    SessionRun.recorded ⟨session, history ++ [event]⟩ =
      history.flatMap SessionEvent.recorded ++ event.recorded := by
  unfold recorded
  rw [List.flatMap_append, List.flatMap_singleton]

theorem Timed.call (timed : run.Timed) (call : SessionCall) :
    (run.call parent answer call).Timed := by
  rcases @call_cases parent answer run call with
    ⟨now, error, after, called, decides⟩ | ⟨now, action, after, called, decides⟩ |
    ⟨arrival, fills, after, called, completes⟩ | called
  · rw [called]
    refine ⟨fun earlier action member => ?_, fun arrival fills member => ?_⟩
    · obtain ⟨last, remembered, bound⟩ := timed.decisions earlier action member
      rcases decides.forward with same | ⟨forward, moved⟩
      · exact ⟨last, by rw [same]; exact remembered, bound⟩
      · exact ⟨now, moved, bound.trans (forward last remembered)⟩
    · exact (timed.arrivals arrival fills member).trans decides.notBefore.ge
  · rw [called]
    obtain ⟨forward, moved⟩ := decides.decided action rfl
    refine ⟨fun earlier other member => ⟨now, moved, ?_⟩, fun arrival fills member => ?_⟩
    · rcases List.mem_append.mp member with old | new
      · obtain ⟨last, remembered, bound⟩ := timed.decisions earlier other old
        exact bound.trans (forward last remembered)
      · obtain ⟨rfl, rfl⟩ := SessionEvent.decided.inj (List.mem_singleton.mp new)
        exact le_rfl
    · rcases List.mem_append.mp member with old | new
      · exact (timed.arrivals arrival fills old).trans decides.notBefore.ge
      · cases List.mem_singleton.mp new
  · rw [called]
    refine ⟨fun earlier action member => ?_, fun other others member => ?_⟩
    · rcases List.mem_append.mp member with old | new
      · obtain ⟨last, remembered, bound⟩ := timed.decisions earlier action old
        exact ⟨last, by rw [completes.decision]; exact remembered, bound⟩
      · cases List.mem_singleton.mp new
    · change other ≤ after.nextDecisionNotBeforeUtcNs
      rw [completes.notBefore]
      rcases List.mem_append.mp member with old | new
      · exact (timed.arrivals other others old).trans (le_max_left ..)
      · obtain ⟨rfl, rfl⟩ := SessionEvent.completed.inj (List.mem_singleton.mp new)
        exact le_max_right ..
  · rw [called]
    exact timed

theorem Sound.decided (sound : run.Sound parent openingCash) (timed : run.Timed) {nowUtcNs : ℤ}
    {action : ExecutionAction} {after : SequentialExecutionSession}
    (decides : Decides run.session nowUtcNs (.ok action) after) :
    Sound parent openingCash ⟨after, run.history ++ [.decided nowUtcNs action]⟩ := by
  have same : SessionRun.recorded ⟨after, run.history ++ [.decided nowUtcNs action]⟩ =
      run.recorded := (recorded_concat ..).trans (List.append_nil _)
  refine ⟨decides.cash ▸ sound.cash, decides.inventory ▸ sound.inventory, ?_, ?_,
    decides.filled ▸ sound.target, ?_, ?_, ?_, fun buys => ?_⟩
  · rw [same]
    exact decides.fills.trans sound.fills
  · rw [same]
    exact decides.filled.trans sound.filled
  · rw [List.countP_append, List.countP_append, sound.outstanding]
    cases kind : action.kind with
    | wait =>
      rw [decides.waits action rfl kind]
      simp [SessionEvent.issues, SessionEvent.completes, kind]
    | takerSlice =>
      obtain ⟨free, _, issued⟩ := decides.issues action rfl kind
      rw [free, issued]
      simp [SessionEvent.issues, SessionEvent.completes, kind]
  · rw [List.pairwise_append]
    refine ⟨sound.ordered, List.pairwise_singleton .., fun earlier member event last => ?_⟩
    obtain rfl := List.mem_singleton.mp last
    cases earlier with
    | decided before other =>
      obtain ⟨last, remembered, bound⟩ := timed.decisions before other member
      exact bound.trans ((decides.decided action rfl).1 last remembered)
    | completed arrival fills =>
      intro slice
      exact (timed.arrivals arrival fills member).trans (decides.issues action rfl slice).2.1
  · rw [same]
    exact sound.punctual
  · unfold spent
    rw [same, decides.cash]
    exact sound.account buys

theorem Sound.completed (sound : run.Sound parent openingCash) {arrivalUtcNs : ℤ}
    {fills : List RecordedFill} {after : SequentialExecutionSession}
    (completes : Completes parent run.session arrivalUtcNs fills after) :
    Sound parent openingCash ⟨after, run.history ++ [.completed arrivalUtcNs fills]⟩ := by
  have grown : SessionRun.recorded ⟨after, run.history ++ [.completed arrivalUtcNs fills]⟩ =
      run.recorded ++ fills := recorded_concat ..
  refine ⟨completes.cash sound.cash, completes.inventory sound.inventory, ?_, ?_,
    completes.target sound.target, ?_, ?_, ?_, fun buys => ?_⟩
  · rw [grown, List.map_append, ← sound.fills]
    exact completes.fills
  · rw [grown, List.map_append, List.sum_append, ← sound.filled]
    exact completes.shares
  · rw [List.countP_append, List.countP_append, sound.outstanding, completes.closed,
      completes.pending]
    rfl
  · rw [List.pairwise_append]
    refine ⟨sound.ordered, List.pairwise_singleton .., fun earlier _ event last => ?_⟩
    obtain rfl := List.mem_singleton.mp last
    cases earlier <;> trivial
  · rw [grown]
    intro recorded member
    rcases List.mem_append.mp member with old | new
    · exact sound.punctual recorded old
    · obtain ⟨stamp, intime⟩ := completes.stamped recorded new
      exact stamp.trans_le intime
  · unfold spent
    rw [grown, List.map_append, List.sum_append, ← completes.spent buys]
    have account := sound.account buys
    unfold spent at account
    rw [← account]
    dsimp only
    omega

theorem Sound.call (sound : run.Sound parent openingCash) (timed : run.Timed)
    (call : SessionCall) : (run.call parent answer call).Sound parent openingCash := by
  rcases @call_cases parent answer run call with
    ⟨now, error, after, called, decides⟩ | ⟨now, action, after, called, decides⟩ |
    ⟨arrival, fills, after, called, completes⟩ | called
  · rw [called]
    refine ⟨decides.cash ▸ sound.cash, decides.inventory ▸ sound.inventory,
      decides.fills.trans sound.fills, decides.filled.trans sound.filled,
      decides.filled ▸ sound.target, ?_, sound.ordered, sound.punctual, fun buys => ?_⟩
    · change _ = _ + if after.pending.isSome then 1 else 0
      rw [decides.raised error rfl]
      exact sound.outstanding
    · rw [decides.cash]
      exact sound.account buys
  · rw [called]
    exact sound.decided timed decides
  · rw [called]
    exact sound.completed completes
  · rw [called]
    exact sound

theorem Sound.calls (sound : run.Sound parent openingCash) (timed : run.Timed)
    (calls : List SessionCall) : (run.calls parent answer calls).Sound parent openingCash := by
  induction calls generalizing run with
  | nil => exact sound
  | cons call rest ih => exact ih (sound.call timed call) (timed.call call)

/-- A session as it is opened. -/
theorem Sound.opened {volume : CausalVolumeCursor} {cash inventory : ℤ}
    {session : SequentialExecutionSession} (planned : parent.plan.check = .ok ())
    (opened : SequentialExecutionSession.init parent volume cash inventory = .ok session) :
    Sound parent cash ⟨session, []⟩ ∧ Timed ⟨session, []⟩ := by
  obtain ⟨_, solvent, opened⟩ := Except.bind_eq_ok.mp opened
  obtain ⟨_, held, opened⟩ := Except.bind_eq_ok.mp opened
  obtain ⟨_, _, opened⟩ := Except.bind_eq_ok.mp opened
  obtain rfl := Except.pure_eq_ok.mp opened
  obtain ⟨_, target, _⟩ := Except.bind_eq_ok.mp planned
  have target := require_eq_ok.mp target
  exact ⟨⟨require_eq_ok.mp solvent, require_eq_ok.mp held, rfl, rfl, target.le, rfl, .nil,
    fun _ member => absurd member List.not_mem_nil, fun _ => sub_self _⟩,
    ⟨fun _ _ member => absurd member List.not_mem_nil,
      fun _ _ member => absurd member List.not_mem_nil⟩⟩

/-- The shortfall of a buy whose fills are booked at the notional of their size and price. -/
theorem Sound.shortfall (sound : run.Sound parent openingCash) (buys : parent.plan.side = .buy)
    (booked : ∀ recorded ∈ run.recorded,
      notionalScaled recorded.fill.sharesScaled recorded.fill.priceScaled =
        .ok recorded.notionalScaled)
    {evaluationUtcNs : ℤ} {mark : Option ℤ} {result : ExecutionObjectiveResult}
    (evaluated : run.session.evaluate parent evaluationUtcNs mark = .ok result) :
    ∃ benchmark, notionalScaled run.session.filledSharesScaled parent.plan.benchmarkPriceScaled =
        .ok benchmark ∧
      result.rawImplementationShortfallScaled =
        openingCash - run.session.cashScaled - benchmark := by
  unfold SequentialExecutionSession.evaluate evaluateExecutionObjective at evaluated
  obtain ⟨_, _, evaluated⟩ := Except.bind_eq_ok.mp evaluated
  obtain ⟨_, _, evaluated⟩ := Except.bind_eq_ok.mp evaluated
  obtain ⟨_, _, evaluated⟩ := Except.bind_eq_ok.mp evaluated
  obtain ⟨_, _, evaluated⟩ := Except.bind_eq_ok.mp evaluated
  dsimp only at evaluated
  obtain ⟨_, _, evaluated⟩ := Except.bind_eq_ok.mp evaluated
  obtain ⟨benchmark, benchmarkRan, evaluated⟩ := Except.bind_eq_ok.mp evaluated
  obtain ⟨notionals, notionalsRan, evaluated⟩ := Except.bind_eq_ok.mp evaluated
  obtain ⟨_, _, evaluated⟩ := Except.bind_eq_ok.mp evaluated
  have raw : result.rawImplementationShortfallScaled =
      notionals.sum + (run.session.fills.map ExecutionFill.feeScaled).sum - benchmark := by
    split at evaluated
    all_goals
      obtain ⟨_, _, evaluated⟩ := Except.bind_eq_ok.mp evaluated
      obtain rfl := Except.pure_eq_ok.mp evaluated
      dsimp only
      rw [buys]
  have filled : (run.session.fills.map ExecutionFill.sharesScaled).sum =
      run.session.filledSharesScaled := by
    rw [sound.filled, sound.fills, List.map_map]
    rfl
  have paid : notionals = run.recorded.map RecordedFill.notionalScaled := by
    have bookedRan : (run.recorded.map RecordedFill.fill).mapM (fun fill =>
        notionalScaled fill.sharesScaled fill.priceScaled) =
        .ok (run.recorded.map RecordedFill.notionalScaled) := by
      refine Except.mapM_eq_ok.mpr ?_
      rw [List.forall₂_map_left_iff, List.forall₂_map_right_iff, List.forall₂_same]
      exact booked
    rw [sound.fills, bookedRan] at notionalsRan
    exact (Except.ok.inj notionalsRan).symm
  have charged : (run.session.fills.map ExecutionFill.feeScaled).sum =
      (run.recorded.map fun recorded => recorded.fill.feeScaled).sum := by
    rw [sound.fills, List.map_map]
    rfl
  refine ⟨benchmark, filled ▸ benchmarkRan, ?_⟩
  have account := sound.account buys
  unfold spent at account
  rw [List.sum_map_add] at account
  rw [raw, account, paid, charged]

end SessionRun

/-- Whatever the calls: the wallet, the fills, the children and the instants stay in order, a record
call that raises leaves the session alone, and a buy's shortfall is the cash it spent above the
benchmark. -/
theorem session_ledger (parent : ParentOrder) (answer : PolicyAnswer) (volume : CausalVolumeCursor)
    (cash inventory : ℤ) (session : SequentialExecutionSession) (calls : List SessionCall)
    (planned : parent.plan.check = .ok ())
    (opened : SequentialExecutionSession.init parent volume cash inventory = .ok session) :
    let run := SessionRun.calls parent answer ⟨session, []⟩ calls
    run.Sound parent cash ∧
    (∀ call : SessionCall, call.Records → ∀ error,
      ((call.method parent answer).perform run.session).1 = .error error →
        ((call.method parent answer).perform run.session).2 = run.session) ∧
    (parent.plan.side = .buy →
      (∀ recorded ∈ run.recorded,
        notionalScaled recorded.fill.sharesScaled recorded.fill.priceScaled =
          .ok recorded.notionalScaled) →
      ∀ evaluationUtcNs mark result,
        run.session.evaluate parent evaluationUtcNs mark = .ok result →
        ∃ benchmark,
          notionalScaled run.session.filledSharesScaled parent.plan.benchmarkPriceScaled =
            .ok benchmark ∧
          result.rawImplementationShortfallScaled =
            cash - run.session.cashScaled - benchmark) := by
  obtain ⟨start, timed⟩ := SessionRun.Sound.opened planned opened
  have sound := @SessionRun.Sound.calls parent answer _ _ start timed calls
  refine ⟨sound, fun call records error failed => ?_, fun buys booked _ _ _ evaluated => ?_⟩
  · exact SessionCall.method_atomic records _ error failed
  · exact sound.shortfall buys booked evaluated

/-! ## A buy in one slice -/

def oneSlice : ParentOrder where
  plan := {
    side := .buy
    targetSharesScaled := 10000000
    startUtcNs := 0
    deadlineUtcNs := 10
    benchmarkPriceScaled := 490000
    limitPriceScaled := some 600000 }
  policy := .twap ⟨1, ⟨0, none, 1000000, 0, by decide, unset_pos, full_participation_range, by decide⟩⟩
  trades := []
  tokenIndex := .up

def oneSliceSession : SequentialExecutionSession where
  volume := ⟨0, -1, 0⟩
  cashScaled := 6000000
  inventorySharesScaled := 0
  filledSharesScaled := 0
  fills := []
  lastActionUtcNs := none
  lastDecisionUtcNs := none
  nextDecisionNotBeforeUtcNs := 0
  pending := none

/-- A fill that the wallet cannot pay raises, and the one after it is recorded. -/
def oneSliceCalls : List SessionCall := [
  .decide 0 [] [(500000, 20000000)] 0 none,
  .recordFill ⟨1, 10000000, 700000, 0⟩ rfl,
  .recordFill ⟨1, 10000000, 500000, 1000⟩ rfl]

theorem session_ledger_one_slice :
    let run := SessionRun.calls oneSlice (fun state => .ok (oneSlice.policy.decide state))
      ⟨oneSliceSession, []⟩ oneSliceCalls
    run.session.cashScaled = 999000 ∧ run.Sound oneSlice 6000000 := by
  refine ⟨by decide +kernel, ?_⟩
  exact (session_ledger oneSlice _ ⟨0, -1, 0⟩ 6000000 0 oneSliceSession oneSliceCalls
    (by decide) (by decide)).1

end PolymarketBt
