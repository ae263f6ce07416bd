import PolymarketBt.Model.Realism
import PolymarketBt.Model.Tape
import PolymarketBt.ToMathlib.Bisect

/-! # Causal sequential execution of one parent order

A policy sees the state at its decision instant only. The session owns what a parent order has done
so far: its wallet, its fills, the public volume observed and the child that is outstanding. Prints
after the decision enter neither; the cursor over the prints keeps a position and never moves back.
-/

namespace PolymarketBt

/-- A rate in parts per million of a value, truncated toward zero. -/
def ppmOf (value ratePpm : ℤ) : ℤ := (if value < 0 then -1 else 1) * (|value| * ratePpm / ppm)

def ceilDiv (numerator denominator : ℤ) : ℤ := -(-numerator / denominator)

structure ObjectiveWeights where
  implementationShortfallPpm : ℤ := ppm
  nonFillPenaltyPpm : ℤ := ppm
  adverseSelectionPenaltyPpm : ℤ := ppm
deriving DecidableEq, Repr

/-- A finite-horizon parent order and the benchmark that scores it. -/
structure ExecutionPlan where
  side : Side
  targetSharesScaled : ℤ
  startUtcNs : ℤ
  deadlineUtcNs : ℤ
  benchmarkPriceScaled : ℤ
  limitPriceScaled : Option ℤ
  objective : ObjectiveWeights := {}
deriving DecidableEq, Repr

def ExecutionPlan.check (plan : ExecutionPlan) : Except PyError Unit := do
  require (0 < plan.targetSharesScaled) "target_shares_scaled must be positive"
  require (plan.startUtcNs < plan.deadlineUtcNs) "deadline must be after start"
  require (0 < plan.benchmarkPriceScaled) "benchmark_price_scaled must be positive"
  require (plan.limitPriceScaled.all (0 < ·)) "limit_price_scaled must be positive"

/-- What a causal policy may know at one decision. -/
structure ExecutionState where
  plan : ExecutionPlan
  nowUtcNs : ℤ
  filledSharesScaled : ℤ
  inventorySharesScaled : ℤ
  availableCashScaled : ℤ
  bids : List (ℤ × ℤ)
  asks : List (ℤ × ℤ)
  observedMarketVolumeScaled : ℤ
  minimumOrderSizeScaled : ℤ
  lastActionUtcNs : Option ℤ
  currentReferencePriceScaled : Option ℤ
deriving DecidableEq, Repr

namespace ExecutionState

/-- Positive levels in strict price order, checked from the best level on. -/
def validateLadder (side : Side) (name : String) : Option ℤ → List (ℤ × ℤ) → Except PyError Unit
  | _, [] => .ok ()
  | previous, (price, size) :: rest => do
    require (0 < price ∧ 0 < size) s!"{name} must contain positive price and size"
    require (previous.all fun previous =>
        match side with
        | .buy => price < previous
        | .sell => previous < price)
      s!"{name} must be strictly price ordered"
    validateLadder side name (some price) rest

variable (state : ExecutionState)

def check : Except PyError Unit := do
  require (0 ≤ state.filledSharesScaled ∧
    state.filledSharesScaled ≤ state.plan.targetSharesScaled)
    "filled shares must be between zero and target"
  require (0 ≤ state.inventorySharesScaled) "inventory_shares_scaled must be non-negative"
  require (0 ≤ state.availableCashScaled) "available_cash_scaled must be non-negative"
  require (0 ≤ state.observedMarketVolumeScaled) "observed_market_volume_scaled must be non-negative"
  require (0 ≤ state.minimumOrderSizeScaled) "minimum_order_size_scaled must be non-negative"
  require (state.lastActionUtcNs.all (· ≤ state.nowUtcNs)) "last action cannot be in the future"
  require (state.currentReferencePriceScaled.all (0 < ·))
    "current_reference_price_scaled must be positive"
  validateLadder .buy "bids" none state.bids
  validateLadder .sell "asks" none state.asks

def remainingSharesScaled : ℤ := state.plan.targetSharesScaled - state.filledSharesScaled

def takerLadder : List (ℤ × ℤ) :=
  match state.plan.side with
  | .buy => state.asks
  | .sell => state.bids

def touchPriceScaled : Option ℤ := (state.takerLadder.head?).map Prod.fst

def progressPpm : ℤ :=
  if state.nowUtcNs ≤ state.plan.startUtcNs then 0
  else if state.plan.deadlineUtcNs ≤ state.nowUtcNs then ppm
  else (state.nowUtcNs - state.plan.startUtcNs) * ppm /
    (state.plan.deadlineUtcNs - state.plan.startUtcNs)

/-- Observable deterioration from the benchmark; a reference of zero falls back to the touch. -/
def adverseMoveScaled : ℤ :=
  let price :=
    match state.currentReferencePriceScaled with
    | none => state.touchPriceScaled
    | some reference => if reference = 0 then state.touchPriceScaled else some reference
  match price, state.plan.side with
  | none, _ => 0
  | some price, .buy => max 0 (price - state.plan.benchmarkPriceScaled)
  | some price, .sell => max 0 (state.plan.benchmarkPriceScaled - price)

end ExecutionState

inductive ActionKind where
  | wait
  | takerSlice
deriving DecidableEq, Repr

inductive ActionReason where
  | beforeStart
  | deadlinePassed
  | parentComplete
  | emptyTakerLadder
  | noInventory
  | minimumActionInterval
  | noExecutableCapacity
  | belowMinimumOrderSize
  | aheadOfTwapSchedule
  | deadlineCatchUp
  | twapSchedule
  | participationTargetSatisfied
  | adversePriceWait
  | adaptiveParticipation
  | childOutstanding
  | previousChildNotArrived
deriving DecidableEq, Repr

def ActionReason.text : ActionReason → String
  | beforeStart => "before_start"
  | deadlinePassed => "deadline_passed"
  | parentComplete => "parent_complete"
  | emptyTakerLadder => "empty_taker_ladder"
  | noInventory => "no_inventory"
  | minimumActionInterval => "minimum_action_interval"
  | noExecutableCapacity => "no_executable_capacity"
  | belowMinimumOrderSize => "below_minimum_order_size"
  | aheadOfTwapSchedule => "ahead_of_twap_schedule"
  | deadlineCatchUp => "deadline_catch_up"
  | twapSchedule => "twap_schedule"
  | participationTargetSatisfied => "participation_target_satisfied"
  | adversePriceWait => "adverse_price_wait"
  | adaptiveParticipation => "adaptive_participation"
  | childOutstanding => "child_outstanding"
  | previousChildNotArrived => "previous_child_not_arrived"

/-- A policy decision; a wait requests nothing and a slice requests something. -/
structure ExecutionAction where
  kind : ActionKind
  requestedSharesScaled : ℤ
  limitPriceScaled : Option ℤ
  reason : ActionReason
  sized : (kind = .wait → requestedSharesScaled = 0) ∧
    (kind = .takerSlice → 0 < requestedSharesScaled)
deriving DecidableEq, Repr

namespace ExecutionAction

def waitFor (reason : ActionReason) : ExecutionAction :=
  ⟨.wait, 0, none, reason, by simp⟩

def slice (shares : ℤ) (limit : Option ℤ) (reason : ActionReason) (positive : 0 < shares) :
    ExecutionAction :=
  ⟨.takerSlice, shares, limit, reason, by simpa using positive⟩

end ExecutionAction

/-- Venue and risk bounds shared by the policies. -/
@[ext] structure PolicyLimits where
  minimumActionIntervalNs : ℤ
  maxChildSharesScaled : Option ℤ
  maxL2ParticipationPpm : ℤ
  feeReservePpm : ℤ
  interval_nonneg : 0 ≤ minimumActionIntervalNs := by decide
  child_pos : ∀ shares ∈ maxChildSharesScaled, 0 < shares := by decide
  participation_range : 0 < maxL2ParticipationPpm ∧ maxL2ParticipationPpm ≤ ppm := by decide
  reserve_nonneg : 0 ≤ feeReservePpm := by decide
deriving Repr

instance : DecidableEq PolicyLimits := fun _ _ => decidable_of_iff _ PolicyLimits.ext_iff.symm

namespace PolicyLimits

variable (limits : PolicyLimits) (state : ExecutionState)

/-- The reason to wait that applies to every policy, if any. -/
def preflight : Option ActionReason :=
  if state.nowUtcNs < state.plan.startUtcNs then some .beforeStart
  else if state.plan.deadlineUtcNs < state.nowUtcNs then some .deadlinePassed
  else if state.remainingSharesScaled ≤ 0 then some .parentComplete
  else if state.takerLadder = [] then some .emptyTakerLadder
  else if state.plan.side = .sell ∧ state.inventorySharesScaled ≤ 0 then some .noInventory
  else if state.nowUtcNs < state.plan.deadlineUtcNs ∧
      state.lastActionUtcNs.any fun last => state.nowUtcNs - last < limits.minimumActionIntervalNs
    then some .minimumActionInterval
  else none

def executableLevels : List (ℤ × ℤ) :=
  match state.plan.limitPriceScaled with
  | none => state.takerLadder
  | some limit => state.takerLadder.filter fun level => !state.plan.side.beyond (some limit) level.1

def executableDepth : ℤ := ((executableLevels state).map Prod.snd).sum

/-- Shares the wallet could pay for at the worst executable price, with a reserve for fees. -/
def cashAffordableShares : ℤ :=
  match (executableLevels state).getLast? with
  | none => 0
  | some (lastPrice, _) =>
    let worstPrice :=
      match state.plan.limitPriceScaled with
      | none => lastPrice
      | some limit => max lastPrice limit
    state.availableCashScaled * polymarketPriceScale * ppm /
      (worstPrice * (ppm + limits.feeReservePpm))

/-- The size of a child under every bound. -/
def childSize (requestedSharesScaled : ℤ) : ℤ :=
  let remaining := min requestedSharesScaled state.remainingSharesScaled
  let capped :=
    match limits.maxChildSharesScaled with
    | none => remaining
    | some bound => min remaining bound
  match state.plan.side with
  | .sell =>
    min (min capped state.inventorySharesScaled)
      (ppmOf (executableDepth state) limits.maxL2ParticipationPpm)
  | .buy =>
    min (min capped (ppmOf (executableDepth state) limits.maxL2ParticipationPpm))
      (limits.cashAffordableShares state)

def childAction (requestedSharesScaled : ℤ) (reason : ActionReason) : ExecutionAction :=
  if positive : 0 < limits.childSize state requestedSharesScaled then
    if limits.childSize state requestedSharesScaled < state.minimumOrderSizeScaled then
      .waitFor .belowMinimumOrderSize
    else
      .slice (limits.childSize state requestedSharesScaled) state.plan.limitPriceScaled reason
        positive
  else .waitFor .noExecutableCapacity

end PolicyLimits

structure TwapPolicy where
  slices : ℤ
  limits : PolicyLimits
deriving DecidableEq, Repr

def TwapPolicy.check (policy : TwapPolicy) : Except PyError Unit :=
  require (0 < policy.slices) "slices must be positive"

def TwapPolicy.decide (policy : TwapPolicy) (state : ExecutionState) : ExecutionAction :=
  match policy.limits.preflight state with
  | some reason => .waitFor reason
  | none =>
    let duration := state.plan.deadlineUtcNs - state.plan.startUtcNs
    let elapsed := max 0 (state.nowUtcNs - state.plan.startUtcNs)
    let slot := min policy.slices (elapsed * policy.slices / duration + 1)
    let due := ceilDiv (state.plan.targetSharesScaled * slot) policy.slices -
      state.filledSharesScaled
    if due ≤ 0 then .waitFor .aheadOfTwapSchedule
    else
      policy.limits.childAction state due
        (if state.nowUtcNs = state.plan.deadlineUtcNs then .deadlineCatchUp else .twapSchedule)

structure AdaptivePovPolicy where
  participationPpm : ℤ
  twapFloorPpm : ℤ := 500000
  adverseMoveToleranceScaled : Option ℤ := some 20000
  minimumAdverseMultiplierPpm : ℤ := 100000
  limits : PolicyLimits
deriving DecidableEq, Repr

namespace AdaptivePovPolicy

variable (policy : AdaptivePovPolicy) (state : ExecutionState)

def check : Except PyError Unit := do
  require (0 < policy.participationPpm ∧ policy.participationPpm < ppm)
    "participation_ppm must be in (0, 1_000_000)"
  require (0 ≤ policy.twapFloorPpm ∧ policy.twapFloorPpm ≤ ppm)
    "twap_floor_ppm must be in [0, 1_000_000]"
  require (policy.adverseMoveToleranceScaled.all (0 < ·))
    "adverse_move_tolerance_scaled must be positive"
  require (0 ≤ policy.minimumAdverseMultiplierPpm ∧ policy.minimumAdverseMultiplierPpm ≤ ppm)
    "minimum_adverse_multiplier_ppm must be in [0, 1_000_000]"

/-- The throttle of an adverse move, relieved as the deadline comes near. -/
def adverseMultiplier : ℤ :=
  match policy.adverseMoveToleranceScaled with
  | none => ppm
  | some tolerance =>
    if state.adverseMoveScaled ≤ 0 then ppm
    else
      let pressure := min ppm (state.adverseMoveScaled * ppm / tolerance)
      max policy.minimumAdverseMultiplierPpm (ppm - ppmOf pressure (ppm - state.progressPpm))

def decide : ExecutionAction :=
  match policy.limits.preflight state with
  | some reason => .waitFor reason
  | none =>
    if state.nowUtcNs = state.plan.deadlineUtcNs then
      policy.limits.childAction state state.remainingSharesScaled .deadlineCatchUp
    else
      let flowTarget := state.observedMarketVolumeScaled * policy.participationPpm /
        (ppm - policy.participationPpm)
      let scheduleFloor :=
        ppmOf (ppmOf state.plan.targetSharesScaled state.progressPpm) policy.twapFloorPpm
      let due := min state.plan.targetSharesScaled (max flowTarget scheduleFloor) -
        state.filledSharesScaled
      if due ≤ 0 then .waitFor .participationTargetSatisfied
      else if ppmOf due (policy.adverseMultiplier state) ≤ 0 then .waitFor .adversePriceWait
      else policy.limits.childAction state (ppmOf due (policy.adverseMultiplier state))
        .adaptiveParticipation

end AdaptivePovPolicy

inductive SequentialExecutionPolicy where
  | twap (policy : TwapPolicy)
  | adaptivePov (policy : AdaptivePovPolicy)
deriving DecidableEq, Repr

namespace SequentialExecutionPolicy

def check : SequentialExecutionPolicy → Except PyError Unit
  | twap policy => policy.check
  | adaptivePov policy => policy.check

def decide : SequentialExecutionPolicy → ExecutionState → ExecutionAction
  | twap policy => policy.decide
  | adaptivePov policy => policy.decide

end SequentialExecutionPolicy

/-! ## The objective -/

/-- One child-fill slice used by the objective. -/
structure ExecutionFill where
  timestampUtcNs : ℤ
  sharesScaled : ℤ
  priceScaled : ℤ
  feeScaled : ℤ
deriving DecidableEq, Repr

def ExecutionFill.check (fill : ExecutionFill) : Except PyError Unit := do
  require (0 < fill.sharesScaled ∧ 0 < fill.priceScaled) "fill shares and price must be positive"
  require (0 ≤ fill.feeScaled) "fill fee cannot be negative"

structure ExecutionObjectiveResult where
  filledSharesScaled : ℤ
  unfilledSharesScaled : ℤ
  fillRatePpm : ℤ
  rawImplementationShortfallScaled : ℤ
  implementationShortfallScaled : ℤ
  nonFillPenaltyScaled : ℤ
  adverseSelectionPenaltyScaled : ℤ
  totalObjectiveScaled : ℤ
  deadlineMarkPriceScaled : Option ℤ
deriving DecidableEq, Repr

/-- The loss of one fill against the deadline mark, floored at zero. -/
def adverseMarkout (side : Side) (mark : ℤ) (fill : ExecutionFill) : Except PyError ℤ :=
  notionalScaled fill.sharesScaled
    (match side with
      | .buy => max 0 (fill.priceScaled - mark)
      | .sell => max 0 (mark - fill.priceScaled))

/-- Score a completed replay with information available at the deadline. -/
def evaluateExecutionObjective (plan : ExecutionPlan) (fills : List ExecutionFill)
    (evaluationUtcNs : ℤ) (deadlineMarkPriceScaled : Option ℤ) :
    Except PyError ExecutionObjectiveResult := do
  require (plan.deadlineUtcNs ≤ evaluationUtcNs)
    "execution objective cannot be evaluated before the deadline"
  require (plan.objective.adverseSelectionPenaltyPpm = 0 ∨
      deadlineMarkPriceScaled.any (0 < ·) = true)
    "a positive deadline mark is required for adverse-selection scoring"
  require (∀ fill ∈ fills, fill.timestampUtcNs ≤ plan.deadlineUtcNs)
    "fills after the parent deadline are invalid"
  let filled := (fills.map ExecutionFill.sharesScaled).sum
  require (filled ≤ plan.targetSharesScaled) "fills exceed the parent target"
  let unfilled := plan.targetSharesScaled - filled
  let benchmarkFilled ← notionalScaled filled plan.benchmarkPriceScaled
  let notionals ← fills.mapM fun fill => notionalScaled fill.sharesScaled fill.priceScaled
  let fees := (fills.map ExecutionFill.feeScaled).sum
  let rawShortfall :=
    match plan.side with
    | .buy => notionals.sum + fees - benchmarkFilled
    | .sell => benchmarkFilled - (notionals.sum - fees)
  let nonFillBase ← notionalScaled unfilled plan.benchmarkPriceScaled
  let adverse ←
    match deadlineMarkPriceScaled with
    | none => pure []
    | some mark => fills.mapM (adverseMarkout plan.side mark)
  let weightedShortfall := ppmOf rawShortfall plan.objective.implementationShortfallPpm
  let nonFillPenalty := ppmOf nonFillBase plan.objective.nonFillPenaltyPpm
  let adversePenalty := ppmOf adverse.sum plan.objective.adverseSelectionPenaltyPpm
  return {
    filledSharesScaled := filled
    unfilledSharesScaled := unfilled
    fillRatePpm := filled * ppm / plan.targetSharesScaled
    rawImplementationShortfallScaled := rawShortfall
    implementationShortfallScaled := weightedShortfall
    nonFillPenaltyScaled := nonFillPenalty
    adverseSelectionPenaltyScaled := adversePenalty
    totalObjectiveScaled := weightedShortfall + nonFillPenalty + adversePenalty
    deadlineMarkPriceScaled := deadlineMarkPriceScaled }

/-! ## The session -/

/-- An incremental view of the public prints of one token. -/
structure CausalVolumeCursor where
  position : ℕ
  lastUtcNs : ℤ
  volumeScaled : ℤ
deriving DecidableEq, Repr

def tradeStamps (trades : List TradePrint) : List ℤ := trades.map TradePrint.receivedUtcNs

namespace CausalVolumeCursor

def init (trades : List TradePrint) (startUtcNs : ℤ) : Except PyError CausalVolumeCursor := do
  require ((tradeStamps trades).IsChain (· ≤ ·)) "trade timestamps must be sorted"
  require (∀ trade ∈ trades, 0 ≤ trade.sizeScaled) "trade sizes must be non-negative"
  return ⟨(tradeStamps trades).bisectLeft startUtcNs, startUtcNs - 1, 0⟩

/-- Cumulative volume of the token through `nowUtcNs` inclusive. -/
def advance (trades : List TradePrint) (tokenIndex : TokenIndex) (cursor : CausalVolumeCursor)
    (nowUtcNs : ℤ) : Except PyError CausalVolumeCursor := do
  require (cursor.lastUtcNs ≤ nowUtcNs) "causal volume cursor cannot move backwards"
  let last := (tradeStamps trades).bisectRightFrom cursor.position nowUtcNs
  let fresh := ((trades.take last).drop cursor.position).filter (·.tokenIndex = tokenIndex)
  return ⟨last, nowUtcNs, cursor.volumeScaled + (fresh.map TradePrint.sizeScaled).sum⟩

end CausalVolumeCursor

/-- What stays fixed during a session. -/
structure ParentOrder where
  plan : ExecutionPlan
  policy : SequentialExecutionPolicy
  trades : List TradePrint
  tokenIndex : TokenIndex
deriving DecidableEq, Repr

structure SequentialExecutionSession where
  volume : CausalVolumeCursor
  cashScaled : ℤ
  inventorySharesScaled : ℤ
  filledSharesScaled : ℤ
  fills : List ExecutionFill
  lastActionUtcNs : Option ℤ
  lastDecisionUtcNs : Option ℤ
  nextDecisionNotBeforeUtcNs : ℤ
  /-- The outstanding child and its decision instant. -/
  pending : Option (ExecutionAction × ℤ)
deriving DecidableEq, Repr

namespace SequentialExecutionSession

variable (parent : ParentOrder)

def init (volume : CausalVolumeCursor) (initialCashScaled initialInventorySharesScaled : ℤ) :
    Except PyError SequentialExecutionSession := do
  require (0 ≤ initialCashScaled) "initial_cash_scaled must be non-negative"
  require (0 ≤ initialInventorySharesScaled) "initial_inventory_shares_scaled must be non-negative"
  require (parent.plan.side = .sell → parent.plan.targetSharesScaled ≤ initialInventorySharesScaled)
    "sell parent target exceeds initial inventory"
  return {
    volume := volume
    cashScaled := initialCashScaled
    inventorySharesScaled := initialInventorySharesScaled
    filledSharesScaled := 0
    fills := []
    lastActionUtcNs := none
    lastDecisionUtcNs := none
    nextDecisionNotBeforeUtcNs := parent.plan.startUtcNs
    pending := none }

variable (session : SequentialExecutionSession)

def remainingSharesScaled : ℤ := parent.plan.targetSharesScaled - session.filledSharesScaled

/-- The state a policy sees. -/
def stateAt (nowUtcNs : ℤ) (bids asks : List (ℤ × ℤ)) (minimumOrderSizeScaled : ℤ)
    (currentReferencePriceScaled : Option ℤ) : ExecutionState where
  plan := parent.plan
  nowUtcNs := nowUtcNs
  filledSharesScaled := session.filledSharesScaled
  inventorySharesScaled := session.inventorySharesScaled
  availableCashScaled := session.cashScaled
  bids := bids
  asks := asks
  observedMarketVolumeScaled := session.volume.volumeScaled
  minimumOrderSizeScaled := minimumOrderSizeScaled
  lastActionUtcNs := session.lastActionUtcNs
  currentReferencePriceScaled := currentReferencePriceScaled

/-- The next child decision from a present-time book state. -/
def decide (nowUtcNs : ℤ) (bids asks : List (ℤ × ℤ)) (minimumOrderSizeScaled : ℤ)
    (currentReferencePriceScaled : Option ℤ) :
    Except PyError (SequentialExecutionSession × ExecutionAction) := do
  require (session.lastDecisionUtcNs.all (· ≤ nowUtcNs))
    "execution session cannot decide backwards in time"
  let volume ← session.volume.advance parent.trades parent.tokenIndex nowUtcNs
  let observed := { session with volume := volume, lastDecisionUtcNs := some nowUtcNs }
  if session.pending.isSome then return (observed, .waitFor .childOutstanding)
  if nowUtcNs < session.nextDecisionNotBeforeUtcNs then
    return (observed, .waitFor .previousChildNotArrived)
  let state :=
    observed.stateAt parent nowUtcNs bids asks minimumOrderSizeScaled currentReferencePriceScaled
  state.check
  let action := parent.policy.decide state
  match action.kind with
  | .wait => return (observed, action)
  | .takerSlice =>
    return ({ observed with pending := some (action, nowUtcNs), lastActionUtcNs := some nowUtcNs },
      action)

def applyFills (action : ExecutionAction) (fills : List ExecutionFill)
    (notionalTotalScaled feeTotalScaled : ℤ) : Except PyError SequentialExecutionSession := do
  let addedShares := (fills.map ExecutionFill.sharesScaled).sum
  require (addedShares ≤ action.requestedSharesScaled) "fills exceed the pending child request"
  require (addedShares ≤ session.remainingSharesScaled parent) "fills exceed the parent remainder"
  let (nextCash, nextInventory) ←
    match parent.plan.side with
    | .buy => do
      require (notionalTotalScaled + feeTotalScaled ≤ session.cashScaled)
        "fill notional plus fees exceeds available cash"
      pure (session.cashScaled - (notionalTotalScaled + feeTotalScaled),
        session.inventorySharesScaled + addedShares)
    | .sell => do
      require (addedShares ≤ session.inventorySharesScaled) "sell fills exceed available inventory"
      require (0 ≤ session.cashScaled + notionalTotalScaled - feeTotalScaled)
        "sell fees would make available cash negative"
      pure (session.cashScaled + notionalTotalScaled - feeTotalScaled,
        session.inventorySharesScaled - addedShares)
  return { session with
    cashScaled := nextCash
    inventorySharesScaled := nextInventory
    filledSharesScaled := session.filledSharesScaled + addedShares
    fills := session.fills ++ fills }

/-- Atomically apply the outcome of the outstanding child. -/
def recordOutcome (outcome : ExecutionOutcome) : Except PyError SequentialExecutionSession := do
  let some (action, decisionNs) := session.pending
    | .error (.valueError "there is no pending child action")
  require (outcome.requestedSharesScaled = action.requestedSharesScaled)
    "outcome requested size does not match pending child"
  require (outcome.decisionUtcNs = decisionNs)
    "outcome decision timestamp does not match pending child"
  require (decisionNs ≤ outcome.arrivalUtcNs) "outcome arrival cannot precede its decision"
  require (outcome.arrivalUtcNs ≤ parent.plan.deadlineUtcNs ∨ outcome.filled = false)
    "a child arriving after the parent deadline cannot fill"
  require (sliceShares outcome.slices = outcome.filledSharesScaled)
    "outcome slices do not equal aggregate filled shares"
  require (sliceNotional outcome.slices = outcome.notionalScaled)
    "outcome slices do not equal aggregate notional"
  require (sliceFees outcome.slices = outcome.feesScaled)
    "outcome slices do not equal aggregate fees"
  let fills := outcome.slices.map fun slice =>
    ⟨outcome.arrivalUtcNs, slice.sizeScaled, slice.priceScaled, slice.feeScaled⟩
  fills.forM ExecutionFill.check
  let applied ← session.applyFills parent action fills outcome.notionalScaled outcome.feesScaled
  return { applied with
    nextDecisionNotBeforeUtcNs :=
      max session.nextDecisionNotBeforeUtcNs outcome.arrivalUtcNs
    pending := none }

def evaluate (evaluationUtcNs : ℤ) (deadlineMarkPriceScaled : Option ℤ) :
    Except PyError ExecutionObjectiveResult := do
  require session.pending.isNone "cannot evaluate while a child outcome is outstanding"
  evaluateExecutionObjective parent.plan session.fills evaluationUtcNs deadlineMarkPriceScaled

end SequentialExecutionSession

end PolymarketBt
