import PolymarketBt.Proofs.FastSim.Phases

/-! # Sources of cash that agree during the market

A replay asks for cash at the signal of an entry, at the arrivals of its orders and at the deadline
of a parent, and all of these lie between the start and the end of the market. Two sources that
answer alike in between give the same run, whatever they answer or raise at other instants.
-/

namespace PolymarketBt

open Machine

theorem cashAt_congr {left right : ℤ → Except PyError ℤ} {instant : ℤ}
    (same : left instant = right instant) :
    cashAt (some left) instant = cashAt (some right) instant := by
  simp only [cashAt, same]

namespace Replay

variable {replay : Replay}

/-! ## Orders -/

/-- An order asks for cash once, after its decision and before the market ends. -/
theorem send_congr (venue : 0 ≤ replay.takerDelayNs) (request : OrderRequest) (other : CashAvailability)
    (agrees : ∀ instant, request.decisionNs ≤ instant → instant ≤ replay.tape.episode.endUtcNs →
      cashAt request.cash instant = cashAt other instant) (context : SimContext) :
    replay.send request context = replay.send { request with cash := other } context := by
  have arrive : replay.arrive { request with cash := other } context =
      replay.arrive request context := rfl
  rw [send, send, arrive]
  cases arrived : replay.arrive request context with
  | error e => rfl
  | ok arrival =>
    obtain ⟨arrivalNs, drawn⟩ := arrival
    obtain ⟨latency, sampled, shape⟩ := Except.bind_eq_ok.mp arrived
    obtain ⟨rfl, _⟩ := Prod.mk.inj (Except.pure_eq_ok.mp shape)
    have nonneg := sampleNs_nonneg sampled
    simp only [Except.ok_bind, sendAt]
    split
    · rfl
    split
    · rfl
    next early =>
    rw [agrees _ (by omega) (not_le.mp early).le]
    rfl

/-! ## Children -/

theorem childCash_congr {entry : ParentEntry} {other : CashAvailability} {instant : ℤ}
    (same : cashAt entry.cash instant = cashAt other instant) (session : SequentialExecutionSession)
    (spent : ℤ) :
    childCash entry session spent instant = childCash { entry with cash := other } session spent instant := by
  simp only [childCash, same]

theorem workChild_congr (venue : 0 ≤ replay.takerDelayNs) {entry : ParentEntry}
    {other : CashAvailability} {nowNs : ℤ}
    (agrees : ∀ instant, nowNs ≤ instant → instant ≤ replay.tape.episode.endUtcNs →
      cashAt entry.cash instant = cashAt other instant) (run : ParentRun) (action : ExecutionAction) :
    replay.workChild entry run nowNs action =
      replay.workChild { entry with cash := other } run nowNs action := by
  have sent := send_congr venue (childRequest entry run.session run.externallySpent nowNs action)
    (some (childCash { entry with cash := other } run.session run.externallySpent))
    (fun instant late early =>
      cashAt_congr (childCash_congr (agrees instant late early) run.session run.externallySpent))
    run.context
  rw [workChild, sent]
  rfl

/-- A child is sent only from the start of its parent on. -/
theorem decideChild_congr (venue : 0 ≤ replay.takerDelayNs) {entry : ParentEntry}
    {other : CashAvailability}
    (agrees : ∀ instant, entry.parent.plan.startUtcNs ≤ instant →
      instant ≤ replay.tape.episode.endUtcNs → cashAt entry.cash instant = cashAt other instant)
    (run : ParentRun) (nowNs : ℤ) :
    replay.decideChild entry run nowNs = replay.decideChild { entry with cash := other } run nowNs := by
  unfold decideChild
  dsimp only
  cases rowAt (replay.rowsOf entry.parent.tokenIndex) nowNs with
  | none => rfl
  | some met =>
    dsimp only
    split
    · rfl
    refine Except.bind_congr_ok fun decided ran => ?_
    obtain ⟨session, action⟩ := decided
    obtain ⟨_, _, slice⟩ := SequentialExecutionSession.decide_spec ran
    dsimp only
    cases kind : action.kind with
    | wait => rfl
    | takerSlice =>
      refine workChild_congr venue (fun instant late early => ?_) _ _
      exact agrees instant ((slice kind).1.trans late) early

/-! ## Parents -/

theorem openParent_congr {tokenIndex : TokenIndex} {decisionNs reference entryToNs : ℤ}
    {maxSpend : Option ℤ} {cash other : CashAvailability}
    (agrees : ∀ instant, decisionNs ≤ instant → instant ≤ replay.tape.episode.endUtcNs →
      cashAt cash instant = cashAt other instant) :
    (replay.openParent tokenIndex decisionNs reference entryToNs maxSpend cash).map
        (fun opened => ({ opened.1 with cash := other }, opened.2)) =
      replay.openParent tokenIndex decisionNs reference entryToNs maxSpend other := by
  unfold openParent
  cases replay.parentTarget maxSpend reference with
  | error e => rfl
  | ok target =>
    simp only [Except.ok_bind]
    unfold require
    split
    swap
    · rfl
    next ahead =>
    have inside : replay.executionDeadlineNs decisionNs entryToNs ≤ replay.tape.episode.endUtcNs := by
      unfold executionDeadlineNs
      omega
    have same : sessionCash maxSpend cash (replay.executionDeadlineNs decisionNs entryToNs) =
        sessionCash maxSpend other (replay.executionDeadlineNs decisionNs entryToNs) := by
      unfold sessionCash
      rw [agrees _ ahead.le inside]
    simp only [same, Except.ok_bind, Except.map_bind]
    rfl

theorem sequentialEntry_congr (venue : 0 ≤ replay.takerDelayNs) {tokenIndex : TokenIndex}
    {decisionNs reference entryToNs : ℤ} {maxSpend : Option ℤ} {cash other : CashAvailability}
    (agrees : ∀ instant, decisionNs ≤ instant → instant ≤ replay.tape.episode.endUtcNs →
      cashAt cash instant = cashAt other instant) (context : SimContext) :
    replay.sequentialEntry tokenIndex decisionNs reference entryToNs maxSpend cash context =
      replay.sequentialEntry tokenIndex decisionNs reference entryToNs maxSpend other context := by
  unfold sequentialEntry
  rw [← openParent_congr agrees]
  cases opened : replay.openParent tokenIndex decisionNs reference entryToNs maxSpend cash with
  | error e => rfl
  | ok parent =>
    obtain ⟨entry, session⟩ := parent
    obtain ⟨plans, rfl, _⟩ := openParent_spec opened
    have children : ∀ run nowNs, replay.decideChild entry run nowNs =
        replay.decideChild { entry with cash := other } run nowNs := by
      refine decideChild_congr venue fun instant late early => agrees instant ?_ early
      rwa [plans.start] at late
    simp only [Except.map, Except.ok_bind]
    rw [forLoop_congr fun run now _ => children run now]
    rfl

/-! ## Entries -/

section Entries

variable {left right : ℤ → Except PyError ℤ}

/-- The sources answer alike from an instant of the run to the end of the market. -/
def AgreeFrom (replay : Replay) (first : ℤ) (left right : ℤ → Except PyError ℤ) : Prop :=
  ∀ instant, first ≤ instant → instant ≤ replay.tape.episode.endUtcNs → left instant = right instant

theorem AgreeFrom.walletAt {first : ℤ} (agree : replay.AgreeFrom first left right) (debited : ℤ) :
    replay.AgreeFrom first (replay.walletAt (some left) debited)
      (replay.walletAt (some right) debited) := by
  intro instant late early
  simp only [Replay.walletAt, cashAt_congr (agree instant late early)]

theorem entrySpend_congr {state : RunState} {timestamp : ℤ}
    (agree : replay.AgreeFrom timestamp left right)
    (open_ : timestamp ≤ replay.tape.episode.endUtcNs) :
    replay.entrySpend (some left) state timestamp = replay.entrySpend (some right) state timestamp := by
  unfold entrySpend
  rw [agree.walletAt state.entryCashDebited timestamp le_rfl open_]
  cases replay.params.orderNotionalScaled <;> rfl

theorem attemptEntry_congr (venue : 0 ≤ replay.takerDelayNs) {state : RunState} {row : TapeRow}
    (agree : replay.AgreeFrom row.receivedUtcNs left right) (ask : ℤ) (spend : Option ℤ)
    (limited : Bool) :
    replay.attemptEntry (some left) state row ask spend limited =
      replay.attemptEntry (some right) state row ask spend limited := by
  have wallets := agree.walletAt state.entryCashDebited
  unfold attemptEntry
  split
  · unfold immediateEntry
    refine Except.bind_congr_ok fun shares _ => ?_
    rw [send_congr venue _ (some (replay.walletAt (some right) state.entryCashDebited))
      fun instant late early => cashAt_congr (wallets instant late early)]
    rfl
  · unfold sequentialAttempt
    dsimp only
    rw [sequentialEntry_congr venue fun instant late early => cashAt_congr (wallets instant late early)]

theorem entryStep_congr (venue : 0 ≤ replay.takerDelayNs) {state : RunState} {row : TapeRow}
    {first : ℤ} (agree : replay.AgreeFrom first left right)
    (open_ : row.receivedUtcNs ≤ replay.tape.episode.endUtcNs)
    (late : ∀ ask, replay.entrySignal state row = some ask → first ≤ row.receivedUtcNs) :
    replay.entryStep (some left) state row = replay.entryStep (some right) state row := by
  unfold entryStep
  cases signal : replay.entrySignal state row with
  | none => rfl
  | some ask =>
    have fromRow : replay.AgreeFrom row.receivedUtcNs left right :=
      fun instant later => agree instant ((late ask signal).trans later)
    dsimp only
    rw [entrySpend_congr fromRow open_]
    refine Except.bind_congr_ok fun spends _ => ?_
    obtain ⟨spend, limited⟩ := spends
    dsimp only
    rw [attemptEntry_congr venue fromRow]

/-! ## The run -/

/-- Sources that agree from the start of the market to its end give the same run. -/
theorem trace_congr (inRange : replay.params.InRange) (venue : 0 ≤ replay.takerDelayNs)
    (agree : replay.AgreeFrom replay.tape.episode.startUtcNs left right) :
    replay.trace (some left) = replay.trace (some right) := by
  refine forLoop_congr_reached fun past row future state split reached => ?_
  have inTape : ∀ other ∈ past, other ∈ replay.tape.rows := by simp +contextual [split]
  have running : replay.Running (some left) state :=
    reached.invariant (replay.Running (some left)) (.inl (.initialState replay))
      fun _ other _ member kept ran => step_running inRange (inTape other member) kept ran
  unfold step
  split
  · rfl
  next open_ =>
  split
  · rfl
  refine entryStep_congr venue agree (not_lt.mp open_) fun ask signal => ?_
  obtain ⟨empty, window, _⟩ := entrySignal_eq_some signal
  have flat : replay.Flat state := running.resolve_right fun held => by omega
  have allowed := flat.window
  have offset := inRange.entryFrom_nonneg
  unfold entryFromNs at allowed
  omega

end Entries

end Replay

end PolymarketBt
