import PolymarketBt.Soundness.ChildOrders
import PolymarketBt.Soundness.SessionLedger
import PolymarketBt.Soundness.VolumeCursor

/-! # A session keeps to its schedule

What a policy asks of one child is what its schedule is short of at that instant. A session that is
driven in any order holds, in fills and in the child it waits for, no more than its schedule allows at
its last decision, and the schedules only grow.
-/

namespace PolymarketBt

open RaisingMethod SessionMethod

/-! ## The schedules as functions of the instant -/

/-- The elapsed part of a plan in parts per million. -/
def ExecutionPlan.elapsedPpm (plan : ExecutionPlan) (nowUtcNs : ℤ) : ℤ :=
  if nowUtcNs ≤ plan.startUtcNs then 0
  else if plan.deadlineUtcNs ≤ nowUtcNs then ppm
  else (nowUtcNs - plan.startUtcNs) * ppm / (plan.deadlineUtcNs - plan.startUtcNs)

namespace SequentialExecutionPolicy

/-- The shares a policy may have asked for by an instant, when this volume has been observed. -/
def dueBy (plan : ExecutionPlan) (nowUtcNs volumeScaled : ℤ) : SequentialExecutionPolicy → ℤ
  | twap policy => ceilDiv (plan.targetSharesScaled *
      min policy.slices (max 0 (nowUtcNs - plan.startUtcNs) * policy.slices /
        (plan.deadlineUtcNs - plan.startUtcNs) + 1)) policy.slices
  | adaptivePov policy =>
    if nowUtcNs < plan.deadlineUtcNs then
      min plan.targetSharesScaled
        (max (volumeScaled * policy.participationPpm / (ppm - policy.participationPpm))
          (ppmOf (ppmOf plan.targetSharesScaled (plan.elapsedPpm nowUtcNs)) policy.twapFloorPpm))
    else plan.targetSharesScaled

end SequentialExecutionPolicy

theorem ppmOf_mono {value other ratePpm otherPpm : ℤ} (nonneg : 0 ≤ value) (rate : 0 ≤ otherPpm)
    (more : value ≤ other) (faster : ratePpm ≤ otherPpm) :
    ppmOf value ratePpm ≤ ppmOf other otherPpm := by
  rw [ppmOf_of_nonneg nonneg, ppmOf_of_nonneg (nonneg.trans more)]
  refine Int.ediv_le_ediv (by decide) ?_
  exact (mul_le_mul_of_nonneg_left faster nonneg).trans (mul_le_mul_of_nonneg_right more rate)

theorem ceilDiv_mono {numerator other denominator : ℤ} (positive : 0 < denominator)
    (more : numerator ≤ other) : ceilDiv numerator denominator ≤ ceilDiv other denominator := by
  have back : -other / denominator ≤ -numerator / denominator :=
    Int.ediv_le_ediv positive (by omega)
  unfold ceilDiv
  omega

namespace ExecutionPlan

variable {plan : ExecutionPlan} {nowUtcNs laterUtcNs : ℤ}

theorem check_spec (planned : plan.check = .ok ()) :
    0 < plan.targetSharesScaled ∧ plan.startUtcNs < plan.deadlineUtcNs := by
  obtain ⟨_, target, planned⟩ := Except.bind_eq_ok.mp planned
  obtain ⟨_, lasts, _⟩ := Except.bind_eq_ok.mp planned
  exact ⟨require_eq_ok.mp target, require_eq_ok.mp lasts⟩

theorem elapsedPpm_range : 0 ≤ plan.elapsedPpm nowUtcNs ∧ plan.elapsedPpm nowUtcNs ≤ ppm :=
  @ExecutionState.progressPpm_range
    ⟨plan, nowUtcNs, 0, 0, 0, [], [], 0, 0, none, none⟩

theorem elapsedPpm_mono (later : nowUtcNs ≤ laterUtcNs) :
    plan.elapsedPpm nowUtcNs ≤ plan.elapsedPpm laterUtcNs := by
  by_cases begun : nowUtcNs ≤ plan.startUtcNs
  · rw [elapsedPpm, if_pos begun]
    exact elapsedPpm_range.1
  by_cases done : plan.deadlineUtcNs ≤ laterUtcNs
  · have last : plan.elapsedPpm laterUtcNs = ppm := by
      rw [elapsedPpm, if_neg (by omega), if_pos done]
    rw [last]
    exact elapsedPpm_range.2
  · rw [elapsedPpm, if_neg begun, if_neg (by omega), elapsedPpm, if_neg (by omega), if_neg done]
    refine Int.ediv_le_ediv (by omega) ?_
    exact mul_le_mul_of_nonneg_right (by omega) (by decide)

end ExecutionPlan

namespace SequentialExecutionPolicy

variable {policy : SequentialExecutionPolicy} {plan : ExecutionPlan}
  {nowUtcNs laterUtcNs volume more : ℤ}

theorem dueBy_nonneg (checked : policy.check = .ok ()) (planned : plan.check = .ok ()) :
    0 ≤ policy.dueBy plan nowUtcNs volume := by
  obtain ⟨target, lasts⟩ := plan.check_spec planned
  cases policy with
  | twap policy =>
    have sliced : 0 < policy.slices := require_eq_ok.mp checked
    have elapsed : 0 ≤ max 0 (nowUtcNs - plan.startUtcNs) * policy.slices :=
      mul_nonneg (le_max_left ..) sliced.le
    have slots : 0 ≤ max 0 (nowUtcNs - plan.startUtcNs) * policy.slices /
        (plan.deadlineUtcNs - plan.startUtcNs) := Int.ediv_nonneg elapsed (by omega)
    have none : ceilDiv 0 policy.slices = 0 := by simp [ceilDiv]
    rw [← none]
    exact ceilDiv_mono sliced (mul_nonneg target.le (le_min sliced.le (by omega)))
  | adaptivePov policy =>
    have valid := AdaptivePovPolicy.check_spec checked
    rw [dueBy]
    split
    · have linear : 0 ≤ ppmOf plan.targetSharesScaled (plan.elapsedPpm nowUtcNs) :=
        ppmOf_nonneg target.le ExecutionPlan.elapsedPpm_range.1
      exact le_min target.le (le_max_of_le_right (ppmOf_nonneg linear valid.floor.1))
    · exact target.le

/-- A schedule never takes back what it allowed. -/
theorem dueBy_mono (checked : policy.check = .ok ()) (planned : plan.check = .ok ())
    (later : nowUtcNs ≤ laterUtcNs) (grows : volume ≤ more) :
    policy.dueBy plan nowUtcNs volume ≤ policy.dueBy plan laterUtcNs more := by
  obtain ⟨target, lasts⟩ := plan.check_spec planned
  cases policy with
  | twap policy =>
    have sliced : 0 < policy.slices := require_eq_ok.mp checked
    have elapsed : max 0 (nowUtcNs - plan.startUtcNs) * policy.slices ≤
        max 0 (laterUtcNs - plan.startUtcNs) * policy.slices :=
      mul_le_mul_of_nonneg_right (max_le_max le_rfl (by omega)) sliced.le
    have slots : max 0 (nowUtcNs - plan.startUtcNs) * policy.slices /
          (plan.deadlineUtcNs - plan.startUtcNs) ≤
        max 0 (laterUtcNs - plan.startUtcNs) * policy.slices /
          (plan.deadlineUtcNs - plan.startUtcNs) := Int.ediv_le_ediv (by omega) elapsed
    refine ceilDiv_mono sliced (mul_le_mul_of_nonneg_left ?_ target.le)
    exact min_le_min le_rfl (by omega)
  | adaptivePov policy =>
    have valid := AdaptivePovPolicy.check_spec checked
    rw [dueBy, dueBy]
    by_cases early : laterUtcNs < plan.deadlineUtcNs
    · rw [if_pos (by omega), if_pos early]
      have flow : volume * policy.participationPpm / (ppm - policy.participationPpm) ≤
          more * policy.participationPpm / (ppm - policy.participationPpm) := by
        refine Int.ediv_le_ediv (sub_pos.mpr valid.participation.2) ?_
        exact mul_le_mul_of_nonneg_right grows valid.participation.1.le
      have linear : 0 ≤ ppmOf plan.targetSharesScaled (plan.elapsedPpm nowUtcNs) :=
        ppmOf_nonneg target.le ExecutionPlan.elapsedPpm_range.1
      have floor := ppmOf_mono linear valid.floor.1
        (ppmOf_mono target.le ExecutionPlan.elapsedPpm_range.1 le_rfl
          (plan.elapsedPpm_mono later)) le_rfl
      exact min_le_min le_rfl (max_le_max flow floor)
    -- from the deadline on the whole target is due, and before it never more
    · rw [if_neg early]
      split
      · exact min_le_left ..
      · exact le_rfl

/-- A child brings its parent at most to what is due at its decision. -/
theorem decide_due {state : ExecutionState} (checked : policy.check = .ok ())
    (slice : (policy.decide state).kind = .takerSlice) :
    state.filledSharesScaled + (policy.decide state).requestedSharesScaled ≤
      policy.dueBy state.plan state.nowUtcNs state.observedMarketVolumeScaled := by
  obtain ⟨clear, requested, reason, child, asks⟩ := decide_cases slice
  rw [child] at slice ⊢
  obtain ⟨_, _, caps⟩ := PolicyLimits.childAction_slice slice
  have asked := caps.requested
  have remaining := caps.remaining
  have opened := clear.opened
  unfold ExecutionState.remainingSharesScaled at remaining
  cases policy with
  | twap policy =>
    change requested = policy.scheduled state - state.filledSharesScaled at asks
    change _ ≤ policy.scheduled state
    omega
  | adaptivePov policy =>
    have valid := AdaptivePovPolicy.check_spec checked
    rw [dueBy]
    split
    · next early =>
      obtain ⟨due, rfl⟩ := asks early
      have throttled := ppmOf_le_self due.le
        (@AdaptivePovPolicy.adverseMultiplier_le policy state valid)
      change _ ≤ policy.desiredCumulative state
      omega
    · omega

end SequentialExecutionPolicy

/-! ## What is due to a parent order -/

namespace ParentOrder

variable {parent : ParentOrder}

/-- The order's own policy as the answer of a session. -/
def answers (parent : ParentOrder) : PolicyAnswer := fun state => .ok (parent.policy.decide state)

/-- The public volume of the token of the order, both instants included. -/
def volumeBetween (parent : ParentOrder) (fromUtcNs nowUtcNs : ℤ) : ℤ :=
  (columnsOf parent.trades).batchVolume parent.tokenIndex fromUtcNs nowUtcNs

/-- The shares due by an instant to an order whose volume is counted from another. -/
def dueBy (parent : ParentOrder) (fromUtcNs nowUtcNs : ℤ) : ℤ :=
  parent.policy.dueBy parent.plan nowUtcNs (parent.volumeBetween fromUtcNs nowUtcNs)

theorem volumeBetween_mono (sizes : ∀ trade ∈ parent.trades, 0 ≤ trade.sizeScaled)
    {fromUtcNs nowUtcNs laterUtcNs : ℤ} (later : nowUtcNs ≤ laterUtcNs) :
    parent.volumeBetween fromUtcNs nowUtcNs ≤ parent.volumeBetween fromUtcNs laterUtcNs := by
  have rows : (columnsOf parent.trades).trades = parent.trades.map fun trade =>
      (trade.receivedUtcNs, trade.tokenIndex, trade.sizeScaled) := by
    simp [TradeColumns.trades, columnsOf, tradeStamps, List.zip_map']
  unfold volumeBetween TradeColumns.batchVolume
  rw [rows]
  refine List.Sublist.sum_le_sum ?_ ?_
  · refine (List.monotone_filter_right _ fun trade inside => ?_).map _
    have inside := of_decide_eq_true inside
    exact decide_eq_true ⟨inside.1, inside.2.1.trans later, inside.2.2⟩
  · intro size member
    obtain ⟨_, kept, rfl⟩ := List.mem_map.mp member
    obtain ⟨trade, inside, rfl⟩ := List.mem_map.mp (List.mem_of_mem_filter kept)
    exact sizes trade inside

end ParentOrder

/-! ## What a call does to the volume and the last action -/

namespace SequentialExecutionSession

/-- The shares of the child that is outstanding. -/
def outstandingSharesScaled (session : SequentialExecutionSession) : ℤ :=
  session.pending.elim 0 fun child => child.1.requestedSharesScaled

/-- The part of a session that a record call leaves alone. -/
def observed (session : SequentialExecutionSession) : CausalVolumeCursor × Option ℤ × Option ℤ :=
  (session.volume, session.lastActionUtcNs, session.lastDecisionUtcNs)

end SequentialExecutionSession

theorem ExecutionAction.requested_nonneg (action : ExecutionAction) :
    0 ≤ action.requestedSharesScaled := by
  cases kind : action.kind with
  | wait => exact (action.sized.1 kind).ge
  | takerSlice => exact (action.sized.2 kind).le

namespace SessionMethod

variable {parent : ParentOrder} {answer : PolicyAnswer} {session after : SequentialExecutionSession}

theorem completePending_keeps (arrivalUtcNs : ℤ) :
    Keeps SequentialExecutionSession.observed (completePending arrivalUtcNs) := by
  apply Keeps.bind
  · exact keeps_update fun _ => rfl
  · intro _
    exact keeps_update fun _ => rfl

theorem applyFills_keeps (fills : List ExecutionFill) (notional fees : ℤ) :
    Keeps SequentialExecutionSession.observed (applyFills parent fills notional fees) := by
  refine (requirePending_readOnly.keeps _).bind fun child => ?_
  refine (readOnly_get.keeps _).bind fun session => ?_
  refine ((readOnly_raising _).keeps _).bind fun _ => ?_
  refine ((readOnly_raising _).keeps _).bind fun _ => ?_
  refine ((readOnly_raising _).keeps _).bind fun wallet => ?_
  apply Keeps.bind
  · exact keeps_update fun _ => rfl
  intro _
  apply Keeps.bind
  · exact keeps_update fun _ => rfl
  intro _
  apply Keeps.bind
  · exact keeps_update fun _ => rfl
  · intro _
    exact keeps_update fun _ => rfl

theorem recordOutcome_keeps (outcome : ExecutionOutcome) :
    Keeps SequentialExecutionSession.observed (recordOutcome parent outcome) := by
  refine (requirePending_readOnly.keeps _).bind fun child => ?_
  refine ((readOnly_raising _).keeps _).bind fun _ => ?_
  refine ((readOnly_raising _).keeps _).bind fun _ => ?_
  refine ((readOnly_raising _).keeps _).bind fun _ => ?_
  refine ((readOnly_raising _).keeps _).bind fun _ => ?_
  refine ((readOnly_raising _).keeps _).bind fun _ => ?_
  refine ((readOnly_raising _).keeps _).bind fun _ => ?_
  refine ((readOnly_raising _).keeps _).bind fun _ => ?_
  refine ((readOnly_raising _).keeps _).bind fun _ => ?_
  exact (applyFills_keeps _ _ _).bind fun _ => completePending_keeps _

theorem recordFill_keeps (fill : ExecutionFill) :
    Keeps SequentialExecutionSession.observed (recordFill parent fill) := by
  refine (requirePending_readOnly.keeps _).bind fun child => ?_
  refine ((readOnly_raising _).keeps _).bind fun _ => ?_
  refine ((readOnly_raising _).keeps _).bind fun _ => ?_
  refine ((readOnly_raising _).keeps _).bind fun _ => ?_
  exact (applyFills_keeps _ _ _).bind fun _ => completePending_keeps _

theorem recordNoFill_keeps (arrivalUtcNs : ℤ) :
    Keeps SequentialExecutionSession.observed (recordNoFill arrivalUtcNs) := by
  refine (requirePending_readOnly.keeps _).bind fun child => ?_
  refine ((readOnly_raising _).keeps _).bind fun _ => ?_
  exact completePending_keeps _

/-- Applied fills stay within the child that is outstanding. -/
theorem applyFills_fit {fills : List ExecutionFill} {notional fees : ℤ}
    (ran : (applyFills parent fills notional fees).perform session = (.ok (), after)) :
    after.filledSharesScaled ≤ session.filledSharesScaled + session.outstandingSharesScaled := by
  have shares := (applyFills_returned ran).shares
  unfold applyFills at ran
  obtain ⟨child, middle, pending, ran⟩ := perform_bind_eq_ok.mp ran
  obtain ⟨outstanding, rfl⟩ := requirePending_returned pending
  rw [perform_get_bind] at ran
  dsimp only at ran
  obtain ⟨fits, _⟩ := check_returned ran
  rw [SequentialExecutionSession.outstandingSharesScaled, outstanding, Option.elim_some]
  omega

/-- A decision, beside what it does to the wallet: it reads the tape up to its instant or raises
before it has, and a child is what the policy answers to the state of the session. -/
structure Observes (parent : ParentOrder) (answer : PolicyAnswer)
    (session : SequentialExecutionSession) (nowUtcNs : ℤ)
    (outcome : Except PyError ExecutionAction) (after : SequentialExecutionSession) : Prop where
  volume : after.volume = session.volume ∧ after.lastDecisionUtcNs = session.lastDecisionUtcNs ∨
    session.volume.advance parent.trades parent.tokenIndex nowUtcNs = .ok after.volume ∧
      after.lastDecisionUtcNs = some nowUtcNs
  quiet : (∀ action, outcome = .ok action → action.kind = .wait) →
    after.lastActionUtcNs = session.lastActionUtcNs
  acts : ∀ action, outcome = .ok action → action.kind = .takerSlice →
    after.lastActionUtcNs = some nowUtcNs ∧ ∃ state : ExecutionState,
      answer state = .ok action ∧ state.plan = parent.plan ∧ state.nowUtcNs = nowUtcNs ∧
      state.filledSharesScaled = session.filledSharesScaled ∧
      state.lastActionUtcNs = session.lastActionUtcNs ∧
      state.observedMarketVolumeScaled = after.volume.volumeScaled

theorem Observes.of_error {nowUtcNs : ℤ} (error : PyError)
    (volume : after.volume = session.volume ∧ after.lastDecisionUtcNs = session.lastDecisionUtcNs ∨
      session.volume.advance parent.trades parent.tokenIndex nowUtcNs = .ok after.volume ∧
        after.lastDecisionUtcNs = some nowUtcNs)
    (same : after.lastActionUtcNs = session.lastActionUtcNs) :
    Observes parent answer session nowUtcNs (.error error) after :=
  ⟨volume, fun _ => same, nofun⟩

theorem Observes.of_wait {nowUtcNs : ℤ} {action : ExecutionAction} (waits : action.kind = .wait)
    (volume : session.volume.advance parent.trades parent.tokenIndex nowUtcNs = .ok after.volume ∧
      after.lastDecisionUtcNs = some nowUtcNs)
    (same : after.lastActionUtcNs = session.lastActionUtcNs) :
    Observes parent answer session nowUtcNs (.ok action) after := by
  refine ⟨.inr volume, fun _ => same, ?_⟩
  rintro other returned slice
  cases returned
  rw [waits] at slice
  cases slice

theorem decide_observes {nowUtcNs : ℤ} {bids asks : List (ℤ × ℤ)} {minimumOrderSizeScaled : ℤ}
    {reference : Option ℤ} {outcome : Except PyError ExecutionAction}
    (ran : (decide parent answer nowUtcNs bids asks minimumOrderSizeScaled reference).perform session =
      (outcome, after)) : Observes parent answer session nowUtcNs outcome after := by
  unfold decide at ran
  rw [perform_get_bind, perform_raising_bind] at ran
  cases ordered : require (session.lastDecisionUtcNs.all (· ≤ nowUtcNs))
      "execution session cannot decide backwards in time" with
  | error error =>
    rw [ordered] at ran
    obtain ⟨rfl, rfl⟩ := Prod.mk.inj ran
    exact .of_error error (.inl ⟨rfl, rfl⟩) rfl
  | ok done =>
  rw [ordered] at ran
  dsimp only at ran
  rw [perform_raising_bind] at ran
  cases advanced : session.volume.advance parent.trades parent.tokenIndex nowUtcNs with
  | error error =>
    rw [advanced] at ran
    obtain ⟨rfl, rfl⟩ := Prod.mk.inj ran
    exact .of_error error (.inl ⟨rfl, rfl⟩) rfl
  | ok volume =>
  rw [advanced] at ran
  dsimp only at ran
  rw [perform_update_bind, perform_update_bind] at ran
  split at ran
  · obtain ⟨rfl, rfl⟩ := Prod.mk.inj ran
    exact .of_wait rfl ⟨advanced, rfl⟩ rfl
  split at ran
  · obtain ⟨rfl, rfl⟩ := Prod.mk.inj ran
    exact .of_wait rfl ⟨advanced, rfl⟩ rfl
  rw [perform_get_bind] at ran
  dsimp only at ran
  rw [perform_raising_bind] at ran
  split at ran
  · rw [perform_raising_bind] at ran
    cases answered : answer (SequentialExecutionSession.stateAt parent
        { session with volume := volume, lastDecisionUtcNs := some nowUtcNs } nowUtcNs bids asks
        minimumOrderSizeScaled reference) with
    | error error =>
      rw [answered] at ran
      obtain ⟨rfl, rfl⟩ := Prod.mk.inj ran
      exact .of_error error (.inr ⟨advanced, rfl⟩) rfl
    | ok action =>
      rw [answered] at ran
      dsimp only at ran
      split at ran
      · next waits =>
        obtain ⟨rfl, rfl⟩ := Prod.mk.inj ran
        exact .of_wait waits ⟨advanced, rfl⟩ rfl
      · next slice =>
        obtain ⟨rfl, rfl⟩ := Prod.mk.inj ran
        refine ⟨.inr ⟨advanced, rfl⟩, fun waits => ?_, ?_⟩
        · have waits := waits action rfl
          rw [slice] at waits
          cases waits
        · rintro other returned _
          cases returned
          exact ⟨rfl, _, answered, rfl, rfl, rfl, rfl, rfl⟩
  · obtain ⟨rfl, rfl⟩ := Prod.mk.inj ran
    exact .of_error _ (.inr ⟨advanced, rfl⟩) rfl

theorem records_fit {call : SessionCall} (records : call.Records) {event : SessionEvent}
    (called : (call.method parent answer).perform session = (.ok event, after)) :
    after.filledSharesScaled ≤ session.filledSharesScaled + session.outstandingSharesScaled ∧
      after.outstandingSharesScaled = 0 := by
  cases call with
  | decide => exact records.elim
  | recordOutcome outcome =>
    obtain ⟨_, _, recorded, rest⟩ := perform_bind_eq_ok.mp called
    obtain ⟨_, rfl⟩ := Prod.mk.inj rest
    unfold recordOutcome at recorded
    obtain ⟨child, _, pending, recorded⟩ := perform_bind_eq_ok.mp recorded
    obtain ⟨_, rfl⟩ := requirePending_returned pending
    obtain ⟨_, recorded⟩ := check_returned recorded
    obtain ⟨_, recorded⟩ := check_returned recorded
    obtain ⟨_, recorded⟩ := check_returned recorded
    obtain ⟨_, recorded⟩ := check_returned recorded
    obtain ⟨_, recorded⟩ := check_returned recorded
    obtain ⟨_, recorded⟩ := check_returned recorded
    obtain ⟨_, recorded⟩ := check_returned recorded
    obtain ⟨_, _, recorded⟩ := perform_raising_bind_eq_ok.mp recorded
    obtain ⟨_, _, applied, recorded⟩ := perform_bind_eq_ok.mp recorded
    obtain ⟨_, rfl⟩ := Prod.mk.inj recorded
    have fits := applyFills_fit applied
    exact ⟨fits, rfl⟩
  | recordFill fill constructed =>
    obtain ⟨_, _, recorded, rest⟩ := perform_bind_eq_ok.mp called
    obtain ⟨_, rfl⟩ := Prod.mk.inj rest
    unfold recordFill at recorded
    obtain ⟨child, _, pending, recorded⟩ := perform_bind_eq_ok.mp recorded
    obtain ⟨_, rfl⟩ := requirePending_returned pending
    obtain ⟨_, recorded⟩ := check_returned recorded
    obtain ⟨_, recorded⟩ := check_returned recorded
    obtain ⟨_, _, recorded⟩ := perform_raising_bind_eq_ok.mp recorded
    obtain ⟨_, _, applied, recorded⟩ := perform_bind_eq_ok.mp recorded
    obtain ⟨_, rfl⟩ := Prod.mk.inj recorded
    have fits := applyFills_fit applied
    exact ⟨fits, rfl⟩
  | recordNoFill arrivalUtcNs =>
    obtain ⟨_, _, recorded, rest⟩ := perform_bind_eq_ok.mp called
    obtain ⟨_, rfl⟩ := Prod.mk.inj rest
    unfold recordNoFill at recorded
    obtain ⟨child, _, pending, recorded⟩ := perform_bind_eq_ok.mp recorded
    obtain ⟨outstanding, rfl⟩ := requirePending_returned pending
    obtain ⟨_, recorded⟩ := check_returned recorded
    obtain ⟨_, rfl⟩ := Prod.mk.inj recorded
    have requested := child.1.requested_nonneg
    refine ⟨?_, rfl⟩
    rw [SequentialExecutionSession.outstandingSharesScaled, outstanding, Option.elim_some]
    dsimp only
    omega

end SessionMethod

theorem SessionCall.Records.keeps {parent : ParentOrder} {answer : PolicyAnswer} {call : SessionCall}
    (records : call.Records) :
    Keeps SequentialExecutionSession.observed (call.method parent answer) := by
  cases call with
  | decide => exact records.elim
  | recordOutcome outcome =>
    exact (recordOutcome_keeps outcome).bind fun _ => (readOnly_pure _).keeps _
  | recordFill fill constructed =>
    exact (recordFill_keeps fill).bind fun _ => (readOnly_pure _).keeps _
  | recordNoFill arrivalUtcNs =>
    exact (recordNoFill_keeps arrivalUtcNs).bind fun _ => (readOnly_pure _).keeps _

/-! ## The pace along a run -/

/-- Two decisions on children: before the deadline the later one waits out the minimum interval. -/
def SessionEvent.Spaced (parent : ParentOrder) : SessionEvent → SessionEvent → Prop
  | decided earlier first, decided later second =>
    first.kind = .takerSlice → second.kind = .takerSlice → later < parent.plan.deadlineUtcNs →
      parent.policy.limits.minimumActionIntervalNs ≤ later - earlier
  | _, _ => True

namespace SessionRun

variable {parent : ParentOrder} {fromUtcNs : ℤ} {run : SessionRun}

/-- A session whose volume counts from an instant keeps to its schedule. -/
structure Paced (parent : ParentOrder) (fromUtcNs : ℤ) (run : SessionRun) : Prop where
  seen : (columnsOf parent.trades).Seen parent.tokenIndex fromUtcNs run.session.volume
  watched : ∀ last ∈ run.session.lastDecisionUtcNs, run.session.volume.lastUtcNs = last
  due : ∀ nowUtcNs, (∀ last ∈ run.session.lastDecisionUtcNs, last ≤ nowUtcNs) →
    run.session.filledSharesScaled + run.session.outstandingSharesScaled ≤
      parent.dueBy fromUtcNs nowUtcNs
  window : ∀ nowUtcNs action, .decided nowUtcNs action ∈ run.history → action.kind = .takerSlice →
    parent.plan.startUtcNs ≤ nowUtcNs ∧ nowUtcNs ≤ parent.plan.deadlineUtcNs
  acted : ∀ nowUtcNs action, .decided nowUtcNs action ∈ run.history → action.kind = .takerSlice →
    ∃ last ∈ run.session.lastActionUtcNs, nowUtcNs ≤ last
  recent : ∀ acted ∈ run.session.lastActionUtcNs, ∃ last ∈ run.session.lastDecisionUtcNs, acted ≤ last
  spaced : run.history.Pairwise (SessionEvent.Spaced parent)

/-- What the tape and the checks of an order guarantee. -/
structure Grounded (parent : ParentOrder) : Prop where
  planned : parent.plan.check = .ok ()
  checked : parent.policy.check = .ok ()
  sizes : ∀ trade ∈ parent.trades, 0 ≤ trade.sizeScaled
  columns : (columnsOf parent.trades).Sound

theorem Grounded.dueBy_mono (grounded : Grounded parent) {nowUtcNs laterUtcNs : ℤ}
    (later : nowUtcNs ≤ laterUtcNs) :
    parent.dueBy fromUtcNs nowUtcNs ≤ parent.dueBy fromUtcNs laterUtcNs :=
  SequentialExecutionPolicy.dueBy_mono grounded.checked grounded.planned later
    (ParentOrder.volumeBetween_mono grounded.sizes later)

/-- An advance of the volume counts the tape up to its instant. -/
theorem Grounded.advance (grounded : Grounded parent) {volume after : CausalVolumeCursor}
    {nowUtcNs : ℤ} (seen : (columnsOf parent.trades).Seen parent.tokenIndex fromUtcNs volume)
    (advanced : volume.advance parent.trades parent.tokenIndex nowUtcNs = .ok after) :
    (columnsOf parent.trades).Seen parent.tokenIndex fromUtcNs after ∧
      after.lastUtcNs = nowUtcNs := by
  have ran := @CausalVolumeCursor.advance_eq parent.trades parent.tokenIndex volume nowUtcNs
  rw [advanced] at ran
  have returns := seen.advance grounded.columns nowUtcNs
  rcases le_or_gt volume.lastUtcNs nowUtcNs with later | back
  · obtain ⟨other, returned, counts, stamped⟩ := returns.1 later
    rw [ran] at returned
    obtain ⟨_, rfl⟩ := Prod.mk.inj returned
    exact ⟨counts, stamped⟩
  · have raised := returns.2 back
    rw [ran] at raised
    cases (Prod.mk.inj raised).1

/-- The volume after a decision, and the instants it has been counted through. -/
theorem Paced.observed (paced : run.Paced parent fromUtcNs) (grounded : Grounded parent)
    {answer : PolicyAnswer} {nowUtcNs : ℤ} {outcome : Except PyError ExecutionAction}
    {after : SequentialExecutionSession}
    (observes : Observes parent answer run.session nowUtcNs outcome after) :
    (columnsOf parent.trades).Seen parent.tokenIndex fromUtcNs after.volume ∧
      ∀ last ∈ after.lastDecisionUtcNs, after.volume.lastUtcNs = last := by
  rcases observes.volume with ⟨volume, decision⟩ | ⟨advanced, decision⟩
  · rw [volume, decision]
    exact ⟨paced.seen, paced.watched⟩
  · obtain ⟨seen, stamped⟩ := grounded.advance paced.seen advanced
    refine ⟨seen, ?_⟩
    rw [decision]
    rintro last ⟨⟩
    exact stamped

/-- Time that has moved forward leaves what was due before still due. -/
theorem Paced.later (paced : run.Paced parent fromUtcNs) {nowUtcNs : ℤ}
    {outcome : Except PyError ExecutionAction} {after : SequentialExecutionSession}
    (decides : Decides run.session nowUtcNs outcome after)
    (idle : after.pending = run.session.pending) {laterUtcNs : ℤ}
    (behind : ∀ last ∈ after.lastDecisionUtcNs, last ≤ laterUtcNs) :
    after.filledSharesScaled + after.outstandingSharesScaled ≤
      parent.dueBy fromUtcNs laterUtcNs := by
  rw [decides.filled, SequentialExecutionSession.outstandingSharesScaled, idle]
  refine paced.due laterUtcNs fun last member => ?_
  rcases decides.forward with same | ⟨forward, moved⟩
  · exact behind last (same ▸ member)
  · exact (forward last member).trans (behind nowUtcNs moved)

/-- A child is issued inside the window, at what is due, and away from the one before it. -/
theorem Paced.issued (paced : run.Paced parent fromUtcNs) (grounded : Grounded parent)
    {nowUtcNs : ℤ} {action : ExecutionAction} {after : SequentialExecutionSession}
    (decides : Decides run.session nowUtcNs (.ok action) after)
    (observes : Observes parent parent.answers run.session nowUtcNs (.ok action) after)
    (slice : action.kind = .takerSlice) :
    Paced parent fromUtcNs ⟨after, run.history ++ [.decided nowUtcNs action]⟩ := by
  obtain ⟨acted, state, answered, plan, instant, filled, last, volume⟩ :=
    observes.acts action rfl slice
  obtain ⟨_, _, pending⟩ := decides.issues action rfl slice
  obtain ⟨seen, watched⟩ := paced.observed grounded observes
  obtain rfl := Except.ok.inj answered
  have clear := (SequentialExecutionPolicy.decide_cases slice).1
  have moved := (decides.decided _ rfl).2
  have counted : state.observedMarketVolumeScaled = parent.volumeBetween fromUtcNs nowUtcNs := by
    rw [volume, seen.volume, watched nowUtcNs moved]
    rfl
  have past : ∀ earlier other, .decided earlier other ∈ run.history → other.kind = .takerSlice →
      earlier ≤ nowUtcNs ∧ (nowUtcNs < parent.plan.deadlineUtcNs →
        parent.policy.limits.minimumActionIntervalNs ≤ nowUtcNs - earlier) := by
    intro earlier other member kind
    obtain ⟨before, remembered, bound⟩ := paced.acted earlier other member kind
    obtain ⟨decision, known, recent⟩ := paced.recent before remembered
    have forward := (decides.decided _ rfl).1 decision known
    refine ⟨by omega, fun early => ?_⟩
    have spaced := clear.spaced
    rw [plan, instant, last] at spaced
    have waited := spaced early before remembered
    omega
  refine ⟨seen, watched, fun laterUtcNs behind => ?_, fun earlier other member kind => ?_,
    fun earlier other member kind => ⟨nowUtcNs, acted, ?_⟩, ?_, ?_⟩
  · have due := SequentialExecutionPolicy.decide_due grounded.checked slice
    rw [plan, instant, filled, counted] at due
    change after.filledSharesScaled + after.outstandingSharesScaled ≤ _
    rw [decides.filled, SequentialExecutionSession.outstandingSharesScaled, pending,
      Option.elim_some]
    exact due.trans (grounded.dueBy_mono (behind nowUtcNs moved))
  · rcases List.mem_append.mp member with old | new
    · exact paced.window earlier other old kind
    · obtain ⟨rfl, rfl⟩ := SessionEvent.decided.inj (List.mem_singleton.mp new)
      have started := clear.started
      have opened := clear.opened
      rw [plan, instant] at started opened
      exact ⟨started, opened⟩
  · rcases List.mem_append.mp member with old | new
    · exact (past earlier other old kind).1
    · exact (SessionEvent.decided.inj (List.mem_singleton.mp new)).1.le
  · intro own member
    rw [acted] at member
    obtain rfl := Option.some.inj member
    exact ⟨nowUtcNs, moved, le_rfl⟩
  · rw [List.pairwise_append]
    refine ⟨paced.spaced, List.pairwise_singleton .., fun earlier member event newest => ?_⟩
    obtain rfl := List.mem_singleton.mp newest
    cases earlier with
    | decided before other => exact fun kind _ => (past before other member kind).2
    | completed => trivial

/-- A decision without a child only moves time forward. -/
theorem Paced.unissued (paced : run.Paced parent fromUtcNs) (grounded : Grounded parent)
    {nowUtcNs : ℤ} {outcome : Except PyError ExecutionAction} {after : SequentialExecutionSession}
    (decides : Decides run.session nowUtcNs outcome after)
    (observes : Observes parent parent.answers run.session nowUtcNs outcome after)
    (waits : ∀ action, outcome = .ok action → action.kind = .wait) :
    Paced parent fromUtcNs ⟨after, run.history⟩ := by
  obtain ⟨seen, watched⟩ := paced.observed grounded observes
  have idle : after.pending = run.session.pending := by
    cases outcome with
    | error error => exact decides.raised error rfl
    | ok action => exact decides.waits action rfl (waits action rfl)
  have acted := observes.quiet waits
  refine ⟨seen, watched, fun laterUtcNs behind => paced.later decides idle behind, paced.window,
    fun earlier other member kind => ?_, fun before remembered => ?_, paced.spaced⟩
  · obtain ⟨before, remembered, bound⟩ := paced.acted earlier other member kind
    exact ⟨before, acted ▸ remembered, bound⟩
  · obtain ⟨decision, known, bound⟩ := paced.recent before (acted ▸ remembered)
    rcases decides.forward with same | ⟨forward, moved⟩
    · exact ⟨decision, same ▸ known, bound⟩
    · exact ⟨nowUtcNs, moved, bound.trans (forward decision known)⟩

/-- An event that is not a child leaves the pace of the history as it is. -/
theorem Paced.append (paced : run.Paced parent fromUtcNs) {event : SessionEvent}
    (quiet : event.issues = false) :
    Paced parent fromUtcNs ⟨run.session, run.history ++ [event]⟩ := by
  have old : ∀ nowUtcNs action, .decided nowUtcNs action ∈ run.history ++ [event] →
      action.kind = .takerSlice → .decided nowUtcNs action ∈ run.history := by
    intro nowUtcNs action member slice
    refine (List.mem_append.mp member).resolve_right fun new => ?_
    obtain rfl := List.mem_singleton.mp new
    exact of_decide_eq_false quiet slice
  refine ⟨paced.seen, paced.watched, paced.due,
    fun nowUtcNs action member slice => paced.window _ _ (old _ _ member slice) slice,
    fun nowUtcNs action member slice => paced.acted _ _ (old _ _ member slice) slice,
    paced.recent, ?_⟩
  rw [List.pairwise_append]
  refine ⟨paced.spaced, List.pairwise_singleton .., fun earlier _ other newest => ?_⟩
  obtain rfl := List.mem_singleton.mp newest
  cases earlier with
  | completed => trivial
  | decided before first =>
    cases other with
    | completed => trivial
    | decided later second => exact fun _ slice => absurd slice (of_decide_eq_false quiet)

/-- A record call turns the outstanding child into at most as many fills. -/
theorem Paced.recorded (paced : run.Paced parent fromUtcNs) {answer : PolicyAnswer}
    {call : SessionCall} (records : call.Records) {event : SessionEvent}
    {after : SequentialExecutionSession}
    (called : (call.method parent answer).perform run.session = (.ok event, after)) :
    Paced parent fromUtcNs ⟨after, run.history⟩ := by
  obtain ⟨fits, closed⟩ := records_fit records called
  have kept := @SessionCall.Records.keeps parent answer _ records run.session
  rw [called] at kept
  obtain ⟨volume, others⟩ := Prod.mk.inj kept
  obtain ⟨acted, decision⟩ := Prod.mk.inj others
  refine ⟨volume ▸ paced.seen, ?_, fun laterUtcNs behind => ?_, paced.window, ?_, ?_, paced.spaced⟩
  · change ∀ last ∈ after.lastDecisionUtcNs, after.volume.lastUtcNs = last
    rw [volume, decision]
    exact paced.watched
  · have due := paced.due laterUtcNs (decision ▸ behind)
    change after.filledSharesScaled + after.outstandingSharesScaled ≤ _
    omega
  · change ∀ nowUtcNs action, _ → _ → ∃ last ∈ after.lastActionUtcNs, nowUtcNs ≤ last
    rw [acted]
    exact paced.acted
  · change ∀ before ∈ after.lastActionUtcNs, ∃ last ∈ after.lastDecisionUtcNs, before ≤ last
    rw [acted, decision]
    exact paced.recent

theorem records_issue_nothing {answer : PolicyAnswer} {call : SessionCall} (records : call.Records)
    {event : SessionEvent} {session after : SequentialExecutionSession}
    (called : (call.method parent answer).perform session = (.ok event, after)) :
    event.issues = false := by
  cases call with
  | decide => exact records.elim
  | recordOutcome | recordFill | recordNoFill =>
    obtain ⟨_, _, _, rest⟩ := perform_bind_eq_ok.mp called
    obtain ⟨same, _⟩ := Prod.mk.inj rest
    obtain rfl := Except.ok.inj same
    rfl

theorem Paced.records (paced : run.Paced parent fromUtcNs) {answer : PolicyAnswer}
    {call : SessionCall} (records : call.Records) :
    (run.call parent answer call).Paced parent fromUtcNs := by
  cases called : (call.method parent answer).perform run.session with
  | mk outcome after =>
  cases outcome with
  | error error =>
    have kept := @SessionCall.method_atomic parent answer call records run.session error (by rw [called])
    rw [called] at kept
    obtain rfl : after = run.session := kept
    rw [call_raised called]
    exact paced
  | ok event =>
    rw [call_returned called]
    exact (paced.recorded records called).append (records_issue_nothing records called)

theorem Paced.call (paced : run.Paced parent fromUtcNs) (grounded : Grounded parent)
    (call : SessionCall) : (run.call parent parent.answers call).Paced parent fromUtcNs := by
  cases call with
  | recordOutcome => exact paced.records trivial
  | recordFill => exact paced.records trivial
  | recordNoFill => exact paced.records trivial
  | decide nowUtcNs bids asks minimumOrderSizeScaled reference =>
  cases called : ((SessionCall.decide nowUtcNs bids asks minimumOrderSizeScaled reference).method
      parent parent.answers).perform run.session with
  | mk outcome after =>
  cases outcome with
  | error error =>
    rw [call_raised called]
    rcases perform_bind_eq_error.mp called with failed | ⟨_, _, _, never⟩
    · exact paced.unissued grounded (decide_decides failed) (decide_observes failed) nofun
    · cases never
  | ok event =>
    rw [call_returned called]
    obtain ⟨action, middle, decided, rest⟩ := perform_bind_eq_ok.mp called
    obtain ⟨same, rfl⟩ := Prod.mk.inj rest
    obtain rfl := Except.ok.inj same
    cases kind : action.kind with
    | takerSlice =>
      exact paced.issued grounded (decide_decides decided) (decide_observes decided) kind
    | wait =>
      have waits : ∀ other, (.ok action : Except PyError ExecutionAction) = .ok other →
          other.kind = .wait := by
        rintro other ⟨⟩
        exact kind
      have unissued :=
        paced.unissued grounded (decide_decides decided) (decide_observes decided) waits
      refine unissued.append ?_
      simp [SessionEvent.issues, kind]

theorem Paced.calls (paced : run.Paced parent fromUtcNs) (grounded : Grounded parent)
    (calls : List SessionCall) :
    (run.calls parent parent.answers calls).Paced parent fromUtcNs := by
  induction calls generalizing run with
  | nil => exact paced
  | cons call rest ih => exact ih (paced.call grounded call)

/-- A session as it is opened, on a volume that counts from an instant. -/
theorem Paced.opened {volume : CausalVolumeCursor} {cash inventory : ℤ}
    {session : SequentialExecutionSession} (planned : parent.plan.check = .ok ())
    (checked : parent.policy.check = .ok ())
    (counting : CausalVolumeCursor.init parent.trades fromUtcNs = .ok volume)
    (opened : SequentialExecutionSession.init parent volume cash inventory = .ok session) :
    Grounded parent ∧ Paced parent fromUtcNs ⟨session, []⟩ := by
  have columns := counting
  rw [CausalVolumeCursor.init_eq] at columns
  obtain ⟨sound, rfl⟩ := TradeColumns.cursorFrom_eq_ok columns
  obtain ⟨_, _, counting⟩ := Except.bind_eq_ok.mp counting
  obtain ⟨_, sizes, _⟩ := Except.bind_eq_ok.mp counting
  obtain ⟨_, _, opened⟩ := Except.bind_eq_ok.mp opened
  obtain ⟨_, _, opened⟩ := Except.bind_eq_ok.mp opened
  obtain ⟨_, _, opened⟩ := Except.bind_eq_ok.mp opened
  obtain rfl := Except.pure_eq_ok.mp opened
  refine ⟨⟨planned, checked, require_eq_ok.mp sizes, sound⟩, sound.opens fromUtcNs, nofun,
    fun nowUtcNs _ => ?_, nofun, nofun, nofun, .nil⟩
  exact SequentialExecutionPolicy.dueBy_nonneg checked planned

end SessionRun

/-- Whatever is called, and whatever raises, a session of one of the policies is never ahead of its
schedule: its fills and the child it waits for are within what is due at its last decision and at any
instant after it, given the public volume counted so far. Its children are decided inside the window,
and before the deadline they are apart by the minimum interval. -/
theorem session_keeps_pace (parent : ParentOrder) (fromUtcNs : ℤ) (volume : CausalVolumeCursor)
    (cash inventory : ℤ) (session : SequentialExecutionSession) (calls : List SessionCall)
    (planned : parent.plan.check = .ok ()) (checked : parent.policy.check = .ok ())
    (counting : CausalVolumeCursor.init parent.trades fromUtcNs = .ok volume)
    (opened : SequentialExecutionSession.init parent volume cash inventory = .ok session) :
    let run := SessionRun.calls parent parent.answers ⟨session, []⟩ calls
    (∀ nowUtcNs, (∀ last ∈ run.session.lastDecisionUtcNs, last ≤ nowUtcNs) →
      run.session.filledSharesScaled + run.session.outstandingSharesScaled ≤
        parent.dueBy fromUtcNs nowUtcNs) ∧
    (∀ nowUtcNs action, .decided nowUtcNs action ∈ run.history → action.kind = .takerSlice →
      parent.plan.startUtcNs ≤ nowUtcNs ∧ nowUtcNs ≤ parent.plan.deadlineUtcNs) ∧
    run.history.Pairwise (SessionEvent.Spaced parent) := by
  obtain ⟨grounded, start⟩ := SessionRun.Paced.opened planned checked counting opened
  have paced := start.calls grounded calls
  exact ⟨paced.due, paced.window, paced.spaced⟩

/-- A quarter of the flow, or half of the linear schedule where the tape is silent. -/
def quarterFlow : ParentOrder where
  plan := (childState .buy).plan
  policy := .adaptivePov ⟨250000, 500000, none, 100000, childLimits⟩
  trades := [⟨5000000000, .up, 12000000⟩, ⟨15000000000, .up, 3000000⟩]
  tokenIndex := .up

def quarterFlowSession : SequentialExecutionSession where
  volume := ⟨0, -1, 0⟩
  cashScaled := 9000000
  inventorySharesScaled := 0
  filledSharesScaled := 0
  fills := []
  lastActionUtcNs := none
  lastDecisionUtcNs := none
  nextDecisionNotBeforeUtcNs := 0
  pending := none

/-- The flow asks for four shares at ten seconds, three are filled, and the floor asks for the rest of
six at twenty; between the two the session is too early, and going back raises. -/
def quarterFlowCalls : List SessionCall := [
  .decide 10000000000 [] [(400000, 48000000)] 0 none,
  .recordFill ⟨10100000000, 3000000, 400000, 1000⟩ rfl,
  .decide 10200000000 [] [(400000, 48000000)] 0 none,
  .decide 20000000000 [] [(400000, 48000000)] 0 none,
  .decide 19000000000 [] [(400000, 48000000)] 0 none]

theorem session_keeps_pace_quarter_flow :
    let run := SessionRun.calls quarterFlow quarterFlow.answers ⟨quarterFlowSession, []⟩
      quarterFlowCalls
    run.session.filledSharesScaled = 3000000 ∧ run.session.outstandingSharesScaled = 3000000 ∧
    quarterFlow.dueBy 0 20000000000 = 6000000 ∧
    run.history.Pairwise (SessionEvent.Spaced quarterFlow) := by
  refine ⟨by decide +kernel, by decide +kernel, by decide +kernel, ?_⟩
  exact (session_keeps_pace quarterFlow 0 ⟨0, -1, 0⟩ 9000000 0 quarterFlowSession quarterFlowCalls
    (by decide) (by decide) (by decide) (by decide)).2.2

end PolymarketBt
