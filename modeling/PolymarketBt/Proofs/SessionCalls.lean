import PolymarketBt.Model.SessionCalls
import PolymarketBt.Machine.Loop

/-! # What one call does to a session

A record call checks first and assigns last, so a raise leaves the session alone. A decision may
raise after it has advanced the clock and the volume of the session; it never touches the wallet.
-/

namespace PolymarketBt

open RaisingMethod

theorem ExecutionFill.check_iff {fill : ExecutionFill} :
    fill.check = .ok () ↔ (0 < fill.sharesScaled ∧ 0 < fill.priceScaled) ∧ 0 ≤ fill.feeScaled := by
  unfold ExecutionFill.check
  simp [Except.bind_eq_ok]

namespace SessionMethod

variable {parent : ParentOrder} {answer : PolicyAnswer} {session after : SequentialExecutionSession}

/-! ## Order of checks and assignments -/

theorem requirePending_readOnly : ReadOnly requirePending := by
  refine readOnly_get.bind fun session => ?_
  cases session.pending with
  | none => exact readOnly_raising _
  | some child => exact readOnly_pure _

theorem completePending_returns (arrivalUtcNs : ℤ) : Returns (completePending arrivalUtcNs) :=
  (returns_update _).bind fun _ => returns_update _

theorem applyFills_atomic (fills : List ExecutionFill) (notional fees : ℤ) :
    Atomic (applyFills parent fills notional fees) := by
  refine requirePending_readOnly.bind_atomic fun child => ?_
  refine readOnly_get.bind_atomic fun session => ?_
  refine (readOnly_raising _).bind_atomic fun _ => ?_
  refine (readOnly_raising _).bind_atomic fun _ => ?_
  refine (readOnly_raising _).bind_atomic fun wallet => ?_
  refine Returns.atomic ?_
  refine (returns_update _).bind fun _ => ?_
  refine (returns_update _).bind fun _ => ?_
  exact (returns_update _).bind fun _ => returns_update _

theorem recordOutcome_atomic (outcome : ExecutionOutcome) :
    Atomic (recordOutcome parent outcome) := by
  refine requirePending_readOnly.bind_atomic fun child => ?_
  refine (readOnly_raising _).bind_atomic fun _ => ?_
  refine (readOnly_raising _).bind_atomic fun _ => ?_
  refine (readOnly_raising _).bind_atomic fun _ => ?_
  refine (readOnly_raising _).bind_atomic fun _ => ?_
  refine (readOnly_raising _).bind_atomic fun _ => ?_
  refine (readOnly_raising _).bind_atomic fun _ => ?_
  refine (readOnly_raising _).bind_atomic fun _ => ?_
  refine (readOnly_raising _).bind_atomic fun _ => ?_
  exact (applyFills_atomic _ _ _).bind_returns fun _ => completePending_returns _

theorem recordFill_atomic (fill : ExecutionFill) : Atomic (recordFill parent fill) := by
  refine requirePending_readOnly.bind_atomic fun child => ?_
  refine (readOnly_raising _).bind_atomic fun _ => ?_
  refine (readOnly_raising _).bind_atomic fun _ => ?_
  refine (readOnly_raising _).bind_atomic fun _ => ?_
  exact (applyFills_atomic _ _ _).bind_returns fun _ => completePending_returns _

theorem recordNoFill_atomic (arrivalUtcNs : ℤ) : Atomic (recordNoFill arrivalUtcNs) := by
  refine requirePending_readOnly.bind_atomic fun child => ?_
  refine (readOnly_raising _).bind_atomic fun _ => ?_
  exact (completePending_returns _).atomic

end SessionMethod

/-- A record call that raises changes nothing. -/
theorem SessionCall.method_atomic {parent : ParentOrder} {answer : PolicyAnswer}
    {call : SessionCall} (records : call.Records) : Atomic (call.method parent answer) := by
  cases call with
  | decide => exact records.elim
  | recordOutcome outcome =>
    exact (SessionMethod.recordOutcome_atomic outcome).bind_returns fun _ => returns_pure _
  | recordFill fill constructed =>
    exact (SessionMethod.recordFill_atomic fill).bind_returns fun _ => returns_pure _
  | recordNoFill arrivalUtcNs =>
    exact (SessionMethod.recordNoFill_atomic arrivalUtcNs).bind_returns fun _ => returns_pure _

namespace SessionMethod

variable {parent : ParentOrder} {answer : PolicyAnswer} {session after : SequentialExecutionSession}

/-! ## What a record call does when it returns -/

theorem requirePending_returned {child : ExecutionAction × ℤ}
    (ran : requirePending.perform session = (.ok child, after)) :
    session.pending = some child ∧ session = after := by
  unfold requirePending at ran
  rw [perform_get_bind] at ran
  cases outstanding : session.pending with
  | none =>
    rw [outstanding] at ran
    cases ran
  | some other =>
    rw [outstanding] at ran
    cases ran
    exact ⟨rfl, rfl⟩

/-- A check in front of a method that returned has held. -/
theorem check_returned {condition : Prop} [Decidable condition] {message : String} {α : Type}
    {next : Unit → SessionMethod α} {value : α}
    (ran : (raising (require condition message) >>= next).perform session = (.ok value, after)) :
    condition ∧ (next ()).perform session = (.ok value, after) := by
  obtain ⟨_, held, rest⟩ := perform_raising_bind_eq_ok.mp ran
  exact ⟨require_eq_ok.mp held, rest⟩

/-- Fills that were applied: they fit the child, the parent and the wallet. -/
structure Applies (parent : ParentOrder) (session : SequentialExecutionSession)
    (fills : List ExecutionFill) (notional fees : ℤ) (after : SequentialExecutionSession) : Prop where
  shares : after.filledSharesScaled =
    session.filledSharesScaled + (fills.map ExecutionFill.sharesScaled).sum
  target : after.filledSharesScaled ≤ parent.plan.targetSharesScaled
  cash : 0 ≤ after.cashScaled
  spent : parent.plan.side = .buy → after.cashScaled = session.cashScaled - (notional + fees)
  bought : parent.plan.side = .buy → after.inventorySharesScaled =
    session.inventorySharesScaled + (fills.map ExecutionFill.sharesScaled).sum
  sold : parent.plan.side = .sell → 0 ≤ after.inventorySharesScaled
  fills : after.fills = session.fills ++ fills
  others : after = { session with
    cashScaled := after.cashScaled
    inventorySharesScaled := after.inventorySharesScaled
    filledSharesScaled := after.filledSharesScaled
    fills := after.fills }

theorem applyFills_returned {fills : List ExecutionFill} {notional fees : ℤ}
    (ran : (applyFills parent fills notional fees).perform session = (.ok (), after)) :
    Applies parent session fills notional fees after := by
  unfold applyFills at ran
  obtain ⟨child, middle, pending, ran⟩ := perform_bind_eq_ok.mp ran
  obtain ⟨_, rfl⟩ := requirePending_returned pending
  rw [perform_get_bind] at ran
  dsimp only at ran
  obtain ⟨_, ran⟩ := check_returned ran
  obtain ⟨room, ran⟩ := check_returned ran
  obtain ⟨wallet, funded, ran⟩ := perform_raising_bind_eq_ok.mp ran
  simp only [perform_update_bind, perform_update, Prod.mk.injEq, true_and] at ran
  subst ran
  rw [SequentialExecutionSession.remainingSharesScaled] at room
  have target : session.filledSharesScaled + (fills.map ExecutionFill.sharesScaled).sum ≤
      parent.plan.targetSharesScaled := by omega
  cases side : parent.plan.side with
  | buy =>
    rw [side] at funded
    obtain ⟨_, solvent, funded⟩ := Except.bind_eq_ok.mp funded
    obtain rfl := Except.pure_eq_ok.mp funded
    have solvent := require_eq_ok.mp solvent
    exact ⟨rfl, target, by dsimp only; omega, fun _ => rfl, fun _ => rfl,
      fun sells => (by rw [side] at sells; cases sells), rfl, rfl⟩
  | sell =>
    rw [side] at funded
    obtain ⟨_, held, funded⟩ := Except.bind_eq_ok.mp funded
    obtain ⟨_, solvent, funded⟩ := Except.bind_eq_ok.mp funded
    obtain rfl := Except.pure_eq_ok.mp funded
    have held := require_eq_ok.mp held
    exact ⟨rfl, target, require_eq_ok.mp solvent, fun buys => (by rw [side] at buys; cases buys),
      fun buys => (by rw [side] at buys; cases buys), fun _ => by dsimp only; omega, rfl, rfl⟩

theorem completePending_perform (arrivalUtcNs : ℤ) :
    (completePending arrivalUtcNs).perform session = (.ok (), { session with
      nextDecisionNotBeforeUtcNs := max session.nextDecisionNotBeforeUtcNs arrivalUtcNs
      pending := none }) := rfl

/-- A record call that returned: it closed the outstanding child at an arrival. -/
structure Completes (parent : ParentOrder) (session : SequentialExecutionSession)
    (arrivalUtcNs : ℤ) (fills : List RecordedFill) (after : SequentialExecutionSession) : Prop where
  pending : session.pending.isSome
  stamped : ∀ recorded ∈ fills, recorded.fill.timestampUtcNs = arrivalUtcNs ∧
    arrivalUtcNs ≤ parent.plan.deadlineUtcNs
  shares : after.filledSharesScaled = session.filledSharesScaled +
    (fills.map fun recorded => recorded.fill.sharesScaled).sum
  target : session.filledSharesScaled ≤ parent.plan.targetSharesScaled →
    after.filledSharesScaled ≤ parent.plan.targetSharesScaled
  cash : 0 ≤ session.cashScaled → 0 ≤ after.cashScaled
  inventory : 0 ≤ session.inventorySharesScaled → 0 ≤ after.inventorySharesScaled
  spent : parent.plan.side = .buy → session.cashScaled - after.cashScaled =
    (fills.map fun recorded => recorded.notionalScaled + recorded.fill.feeScaled).sum
  fills : after.fills = session.fills ++ fills.map RecordedFill.fill
  notBefore : after.nextDecisionNotBeforeUtcNs =
    max session.nextDecisionNotBeforeUtcNs arrivalUtcNs
  closed : after.pending = none
  decision : after.lastDecisionUtcNs = session.lastDecisionUtcNs

/-- Fills that were applied and then closed, booked one by one at these notionals. -/
theorem Applies.completes {fills : List RecordedFill} {notional fees arrivalUtcNs : ℤ}
    (applied : Applies parent session (fills.map RecordedFill.fill) notional fees after)
    (pending : session.pending.isSome)
    (stamped : ∀ recorded ∈ fills, recorded.fill.timestampUtcNs = arrivalUtcNs ∧
      arrivalUtcNs ≤ parent.plan.deadlineUtcNs)
    (positive : ∀ recorded ∈ fills, 0 < recorded.fill.sharesScaled)
    (booked : notional = (fills.map RecordedFill.notionalScaled).sum)
    (charged : fees = (fills.map fun recorded => recorded.fill.feeScaled).sum) :
    Completes parent session arrivalUtcNs fills { after with
      nextDecisionNotBeforeUtcNs := max after.nextDecisionNotBeforeUtcNs arrivalUtcNs
      pending := none } := by
  have shares : ((fills.map RecordedFill.fill).map ExecutionFill.sharesScaled).sum =
      (fills.map fun recorded => recorded.fill.sharesScaled).sum := by
    rw [List.map_map]
    rfl
  have nonneg : 0 ≤ (fills.map fun recorded => recorded.fill.sharesScaled).sum := by
    refine List.sum_nonneg fun added member => ?_
    obtain ⟨recorded, inside, rfl⟩ := List.mem_map.mp member
    exact (positive recorded inside).le
  have others := applied.others
  refine ⟨pending, stamped, applied.shares.trans (by rw [shares]), fun _ => applied.target,
    fun _ => applied.cash, fun held => ?_, fun buys => ?_, applied.fills, ?_, rfl, ?_⟩
  · cases side : parent.plan.side with
    | buy =>
      have bought := applied.bought side
      rw [shares] at bought
      change 0 ≤ after.inventorySharesScaled
      omega
    | sell => exact applied.sold side
  · have spent := applied.spent buys
    rw [List.sum_map_add, ← charged]
    change session.cashScaled - after.cashScaled = (fills.map RecordedFill.notionalScaled).sum + fees
    omega
  · rw [others]
  · rw [others]

theorem recordOutcome_returned {outcome : ExecutionOutcome}
    (ran : (recordOutcome parent outcome).perform session = (.ok (), after)) :
    Completes parent session outcome.arrivalUtcNs (RecordedFill.ofOutcome outcome) after := by
  unfold recordOutcome at ran
  obtain ⟨child, _, pending, ran⟩ := perform_bind_eq_ok.mp ran
  obtain ⟨outstanding, rfl⟩ := requirePending_returned pending
  obtain ⟨_, ran⟩ := check_returned ran
  obtain ⟨_, ran⟩ := check_returned ran
  obtain ⟨_, ran⟩ := check_returned ran
  obtain ⟨horizon, ran⟩ := check_returned ran
  obtain ⟨shares, ran⟩ := check_returned ran
  obtain ⟨notional, ran⟩ := check_returned ran
  obtain ⟨fees, ran⟩ := check_returned ran
  obtain ⟨_, checked, ran⟩ := perform_raising_bind_eq_ok.mp ran
  obtain ⟨_, middle, applied, ran⟩ := perform_bind_eq_ok.mp ran
  obtain ⟨_, rfl⟩ := Prod.mk.inj ran
  have same : fillsOf outcome = (RecordedFill.ofOutcome outcome).map RecordedFill.fill := by
    unfold fillsOf RecordedFill.ofOutcome
    rw [List.map_map]
    rfl
  have positive : ∀ recorded ∈ RecordedFill.ofOutcome outcome, 0 < recorded.fill.sharesScaled := by
    intro recorded member
    have valid := Except.of_forM_eq_ok checked recorded.fill
      (by rw [same]; exact List.mem_map_of_mem member)
    exact (ExecutionFill.check_iff.mp valid).1.1
  have sum : ((RecordedFill.ofOutcome outcome).map fun recorded => recorded.fill.sharesScaled).sum =
      outcome.filledSharesScaled := by
    rw [← shares, RecordedFill.ofOutcome, List.map_map]
    rfl
  have stamped : ∀ recorded ∈ RecordedFill.ofOutcome outcome,
      recorded.fill.timestampUtcNs = outcome.arrivalUtcNs ∧
        outcome.arrivalUtcNs ≤ parent.plan.deadlineUtcNs := by
    intro recorded member
    refine ⟨?_, ?_⟩
    · obtain ⟨slice, _, rfl⟩ := List.mem_map.mp member
      rfl
    -- an outcome with a fill has filled, and a filled outcome arrived in time
    · refine horizon.resolve_right fun unfilled => ?_
      have added := positive recorded member
      have total : recorded.fill.sharesScaled ≤ outcome.filledSharesScaled := by
        rw [← sum]
        refine List.single_le_sum (fun shares inside => ?_) _ (List.mem_map_of_mem member)
        obtain ⟨other, listed, rfl⟩ := List.mem_map.mp inside
        exact (positive other listed).le
      have unfilled := of_decide_eq_false unfilled
      omega
  refine (applyFills_returned (same ▸ applied)).completes ?_ stamped positive ?_ ?_
  · rw [outstanding]
    rfl
  · rw [← notional, RecordedFill.ofOutcome, List.map_map]
    rfl
  · rw [← fees, RecordedFill.ofOutcome, List.map_map]
    rfl

theorem recordFill_returned {fill : ExecutionFill} (constructed : fill.check = .ok ())
    (ran : (recordFill parent fill).perform session = (.ok (), after)) :
    Completes parent session fill.timestampUtcNs [.ofFill fill] after ∧
      notionalScaled fill.sharesScaled fill.priceScaled =
        .ok (RecordedFill.ofFill fill).notionalScaled := by
  unfold recordFill at ran
  obtain ⟨child, _, pending, ran⟩ := perform_bind_eq_ok.mp ran
  obtain ⟨outstanding, rfl⟩ := requirePending_returned pending
  obtain ⟨_, ran⟩ := check_returned ran
  obtain ⟨horizon, ran⟩ := check_returned ran
  obtain ⟨notional, booked, ran⟩ := perform_raising_bind_eq_ok.mp ran
  obtain ⟨_, middle, applied, ran⟩ := perform_bind_eq_ok.mp ran
  obtain ⟨_, rfl⟩ := Prod.mk.inj ran
  have amount : (RecordedFill.ofFill fill).notionalScaled = notional := by
    unfold RecordedFill.ofFill
    rw [booked]
    rfl
  have applied : Applies parent session ([RecordedFill.ofFill fill].map RecordedFill.fill) notional
      fill.feeScaled middle := applyFills_returned applied
  refine ⟨applied.completes ?_ ?_ ?_ ?_ ?_, amount ▸ booked⟩
  · rw [outstanding]
    rfl
  · intro recorded member
    obtain rfl := List.mem_singleton.mp member
    exact ⟨rfl, horizon⟩
  · intro recorded member
    obtain rfl := List.mem_singleton.mp member
    exact (ExecutionFill.check_iff.mp constructed).1.1
  · rw [List.map_singleton, List.sum_singleton, amount]
  · rw [List.map_singleton, List.sum_singleton]
    rfl

theorem recordNoFill_returned {arrivalUtcNs : ℤ}
    (ran : (recordNoFill arrivalUtcNs).perform session = (.ok (), after)) :
    Completes parent session arrivalUtcNs [] after := by
  unfold recordNoFill at ran
  obtain ⟨child, _, pending, ran⟩ := perform_bind_eq_ok.mp ran
  obtain ⟨outstanding, rfl⟩ := requirePending_returned pending
  obtain ⟨_, ran⟩ := check_returned ran
  obtain ⟨_, rfl⟩ := Prod.mk.inj ran
  refine ⟨by rw [outstanding]; rfl, fun _ member => absurd member List.not_mem_nil,
    (add_zero _).symm, id, id, id, fun _ => sub_self _, (List.append_nil _).symm, rfl, rfl, rfl⟩

/-! ## What a decision does -/

/-- A decision, whether it returned or raised: the wallet stays and time moves forward. A child is
issued only where none is outstanding and the last one has arrived. -/
structure Decides (session : SequentialExecutionSession) (nowUtcNs : ℤ)
    (outcome : Except PyError ExecutionAction) (after : SequentialExecutionSession) : Prop where
  cash : after.cashScaled = session.cashScaled
  inventory : after.inventorySharesScaled = session.inventorySharesScaled
  filled : after.filledSharesScaled = session.filledSharesScaled
  fills : after.fills = session.fills
  notBefore : after.nextDecisionNotBeforeUtcNs = session.nextDecisionNotBeforeUtcNs
  forward : after.lastDecisionUtcNs = session.lastDecisionUtcNs ∨
    (∀ last ∈ session.lastDecisionUtcNs, last ≤ nowUtcNs) ∧ after.lastDecisionUtcNs = some nowUtcNs
  raised : ∀ error, outcome = .error error → after.pending = session.pending
  decided : ∀ action, outcome = .ok action → (∀ last ∈ session.lastDecisionUtcNs, last ≤ nowUtcNs) ∧
    after.lastDecisionUtcNs = some nowUtcNs
  waits : ∀ action, outcome = .ok action → action.kind = .wait → after.pending = session.pending
  issues : ∀ action, outcome = .ok action → action.kind = .takerSlice →
    session.pending = none ∧ session.nextDecisionNotBeforeUtcNs ≤ nowUtcNs ∧
      after.pending = some (action, nowUtcNs)

section Observed

variable {nowUtcNs : ℤ} (volume : CausalVolumeCursor)
  (earlier : ∀ last ∈ session.lastDecisionUtcNs, last ≤ nowUtcNs)

include earlier

theorem Decides.of_raise (error : PyError) : Decides session nowUtcNs (.error error)
    { session with volume := volume, lastDecisionUtcNs := some nowUtcNs } :=
  ⟨rfl, rfl, rfl, rfl, rfl, .inr ⟨earlier, rfl⟩, fun _ _ => rfl, nofun, nofun, nofun⟩

theorem Decides.of_wait {action : ExecutionAction} (waits : action.kind = .wait) :
    Decides session nowUtcNs (.ok action)
      { session with volume := volume, lastDecisionUtcNs := some nowUtcNs } := by
  refine ⟨rfl, rfl, rfl, rfl, rfl, .inr ⟨earlier, rfl⟩, nofun, fun _ _ => ⟨earlier, rfl⟩,
    fun _ _ _ => rfl, ?_⟩
  rintro other same slice
  cases same
  rw [waits] at slice
  cases slice

end Observed

theorem decide_decides {nowUtcNs : ℤ} {bids asks : List (ℤ × ℤ)} {minimumOrderSizeScaled : ℤ}
    {reference : Option ℤ} {outcome : Except PyError ExecutionAction}
    (ran : (decide parent answer nowUtcNs bids asks minimumOrderSizeScaled reference).perform session =
      (outcome, after)) : Decides session nowUtcNs outcome after := by
  unfold decide at ran
  rw [perform_get_bind, perform_raising_bind] at ran
  cases ordered : require (session.lastDecisionUtcNs.all (· ≤ nowUtcNs))
      "execution session cannot decide backwards in time" with
  | error error =>
    rw [ordered] at ran
    obtain ⟨rfl, rfl⟩ := Prod.mk.inj ran
    exact ⟨rfl, rfl, rfl, rfl, rfl, .inl rfl, fun _ _ => rfl, nofun, nofun, nofun⟩
  | ok done =>
  have earlier : ∀ last ∈ session.lastDecisionUtcNs, last ≤ nowUtcNs := by
    intro last present
    have all := require_eq_ok.mp ordered
    rw [present] at all
    simpa using all
  rw [ordered] at ran
  dsimp only at ran
  rw [perform_raising_bind] at ran
  cases advanced : session.volume.advance parent.trades parent.tokenIndex nowUtcNs with
  | error error =>
    rw [advanced] at ran
    obtain ⟨rfl, rfl⟩ := Prod.mk.inj ran
    exact ⟨rfl, rfl, rfl, rfl, rfl, .inl rfl, fun _ _ => rfl, nofun, nofun, nofun⟩
  | ok volume =>
  rw [advanced] at ran
  dsimp only at ran
  rw [perform_update_bind, perform_update_bind] at ran
  split at ran
  · obtain ⟨rfl, rfl⟩ := Prod.mk.inj ran
    exact .of_wait volume earlier rfl
  next free =>
  split at ran
  · obtain ⟨rfl, rfl⟩ := Prod.mk.inj ran
    exact .of_wait volume earlier rfl
  next arrived =>
  rw [perform_get_bind] at ran
  dsimp only at ran
  rw [perform_raising_bind] at ran
  split at ran
  · rw [perform_raising_bind] at ran
    cases answered : answer (SequentialExecutionSession.stateAt parent
        { session with volume := volume, lastDecisionUtcNs := some nowUtcNs } nowUtcNs bids asks
        minimumOrderSizeScaled reference) with
    | error error =>
      rw [answered] at ran
      obtain ⟨rfl, rfl⟩ := Prod.mk.inj ran
      exact .of_raise volume earlier error
    | ok action =>
      rw [answered] at ran
      dsimp only at ran
      split at ran
      · next waits =>
        obtain ⟨rfl, rfl⟩ := Prod.mk.inj ran
        exact .of_wait volume earlier waits
      · next slice =>
        obtain ⟨rfl, rfl⟩ := Prod.mk.inj ran
        refine ⟨rfl, rfl, rfl, rfl, rfl, .inr ⟨earlier, rfl⟩, nofun, fun _ _ => ⟨earlier, rfl⟩,
          ?_, ?_⟩
        · rintro other same waits
          cases same
          rw [slice] at waits
          cases waits
        · rintro other same _
          cases same
          exact ⟨Option.not_isSome_iff_eq_none.mp free, not_lt.mp arrived, rfl⟩
  · obtain ⟨rfl, rfl⟩ := Prod.mk.inj ran
    exact .of_raise volume earlier _

/-! ## The same session without the states of a raise -/

theorem requirePending_perform {child : ExecutionAction × ℤ}
    (pending : session.pending = some child) :
    requirePending.perform session = (.ok child, session) := by
  unfold requirePending
  rw [perform_get_bind, pending]
  rfl

theorem applyFills_perform {action : ExecutionAction} {decisionNs : ℤ}
    (pending : session.pending = some (action, decisionNs)) (fills : List ExecutionFill)
    (notional fees : ℤ) :
    (applyFills parent fills notional fees).perform session =
      settle session (session.applyFills parent action fills notional fees) := by
  unfold applyFills SequentialExecutionSession.applyFills
  rw [perform_bind, requirePending_perform pending]
  dsimp only
  rw [perform_get_bind]
  refine perform_raising_bind_settle fun _ => ?_
  refine perform_raising_bind_settle fun _ => ?_
  rw [perform_raising_bind]
  cases parent.plan.side with
  | buy =>
    dsimp only
    cases require (notional + fees ≤ session.cashScaled)
      "fill notional plus fees exceeds available cash" <;> rfl
  | sell =>
    dsimp only
    cases require ((fills.map ExecutionFill.sharesScaled).sum ≤ session.inventorySharesScaled)
        "sell fills exceed available inventory" with
    | error error => rfl
    | ok held =>
      cases require (0 ≤ session.cashScaled + notional - fees)
        "sell fees would make available cash negative" <;> rfl

theorem recordOutcome_perform (outcome : ExecutionOutcome) :
    (recordOutcome parent outcome).perform session =
      settle session (session.recordOutcome parent outcome) := by
  unfold recordOutcome SequentialExecutionSession.recordOutcome
  cases outstanding : session.pending with
  | none =>
    rw [perform_bind]
    unfold requirePending
    rw [perform_get_bind, outstanding]
    rfl
  | some child =>
  obtain ⟨action, decisionNs⟩ := child
  rw [perform_bind, requirePending_perform outstanding]
  dsimp only
  refine perform_raising_bind_settle fun _ => ?_
  refine perform_raising_bind_settle fun _ => ?_
  refine perform_raising_bind_settle fun _ => ?_
  refine perform_raising_bind_settle fun _ => ?_
  refine perform_raising_bind_settle fun _ => ?_
  refine perform_raising_bind_settle fun _ => ?_
  refine perform_raising_bind_settle fun _ => ?_
  refine perform_raising_bind_settle fun _ => ?_
  rw [perform_bind, applyFills_perform outstanding]
  unfold fillsOf
  cases applied : session.applyFills parent action (outcome.slices.map fun slice =>
      ⟨outcome.arrivalUtcNs, slice.sizeScaled, slice.priceScaled, slice.feeScaled⟩)
      outcome.notionalScaled outcome.feesScaled with
  | error error => rfl
  | ok after =>
    have applies := applyFills_returned ((applyFills_perform outstanding _ _ _).trans
      (congrArg (settle session) applied))
    have others := congrArg SequentialExecutionSession.nextDecisionNotBeforeUtcNs applies.others
    dsimp only [settle]
    rw [completePending_perform, others]
    rfl

theorem perform_pure_eq_ok {α : Type} {value result : α} :
    (pure value : SessionMethod α).perform session = (.ok result, after) ↔
      (pure (session, value) : Except PyError _) = .ok (after, result) := by
  rw [perform_pure]
  constructor
  · rintro same
    cases same
    rfl
  · rintro same
    cases same
    rfl

/-- A decision of the parent's own policy returns the session and the action that `decide` does. -/
theorem decide_perform {nowUtcNs : ℤ} {bids asks : List (ℤ × ℤ)} {minimumOrderSizeScaled : ℤ}
    {reference : Option ℤ} {action : ExecutionAction} :
    (decide parent (fun state => .ok (parent.policy.decide state)) nowUtcNs bids asks
        minimumOrderSizeScaled reference).perform session = (.ok action, after) ↔
      session.decide parent nowUtcNs bids asks minimumOrderSizeScaled reference =
        .ok (after, action) := by
  unfold decide SequentialExecutionSession.decide
  rw [perform_get_bind]
  rw [perform_raising_bind_eq_ok, Except.bind_eq_ok]
  refine exists_congr fun _ => and_congr_right fun _ => ?_
  rw [perform_raising_bind_eq_ok, Except.bind_eq_ok]
  refine exists_congr fun volume => and_congr_right fun _ => ?_
  dsimp only
  rw [perform_update_bind, perform_update_bind]
  split
  · exact perform_pure_eq_ok
  split
  · exact perform_pure_eq_ok
  rw [perform_get_bind]
  dsimp only
  rw [perform_raising_bind_eq_ok, Except.bind_eq_ok]
  refine exists_congr fun _ => and_congr_right fun _ => ?_
  rw [perform_raising_bind]
  dsimp only
  cases (parent.policy.decide (SequentialExecutionSession.stateAt parent
      { session with volume := volume, lastDecisionUtcNs := some nowUtcNs } nowUtcNs bids asks
      minimumOrderSizeScaled reference)).kind with
  | wait => exact perform_pure_eq_ok
  | takerSlice => exact perform_pure_eq_ok

end SessionMethod

end PolymarketBt
