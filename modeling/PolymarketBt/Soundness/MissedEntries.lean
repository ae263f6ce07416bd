import PolymarketBt.Soundness.ExitMachine
import PolymarketBt.Soundness.OrderSequence

/-! # No entry is missed

A row of the tape offers an entry when it quotes an allowed token inside the window and the price
band. Under the immediate policy every offer is answered: by an order decided on its row, or because
the one position of the run was opened before, the attempts are used up, or a cooldown is running.
-/

namespace PolymarketBt

open Machine

namespace Replay

variable {replay : Replay} {cash : CashAvailability}

/-- A row that offers an entry at an ask. -/
structure Offers (replay : Replay) (row : TapeRow) (ask : ℤ) : Prop where
  before_end : row.receivedUtcNs ≤ replay.tape.episode.endUtcNs
  window : replay.entryFromNs ≤ row.receivedUtcNs ∧ row.receivedUtcNs ≤ replay.entryToNs
  allowed : replay.allowed row.tokenIndex = true
  quoted : row.bestAskScaled = some ask
  band : replay.params.entryTriggerPriceScaled ≤ ask ∧ ask ≤ replay.params.entryLimitPriceScaled

end Replay

/-- The entry orders decided by an instant. -/
def entriesBy (timestampNs : ℤ) (orders : List SimulatedOrder) : List SimulatedOrder :=
  orders.filter fun order => order.kind = .entry ∧ order.decisionUtcNs ≤ timestampNs

/-- What answers an offer among the orders of a run. -/
inductive Answered (params : ThresholdHoldParams) (orders : List SimulatedOrder) (row : TapeRow)
    (ask : ℤ) : Prop
  | sent (order : SimulatedOrder) (member : order ∈ orders) (kind : order.kind = .entry)
      (decided : order.decisionUtcNs = row.receivedUtcNs)
      (trigger : order.triggerPriceScaled = some ask)
  | held (order : SimulatedOrder) (member : order ∈ entriesBy row.receivedUtcNs orders)
      (filled : 0 < order.filledSharesScaled)
  | exhausted (attempts : params.maxEntriesPerEpisode ≤ (entriesBy row.receivedUtcNs orders).length)
  | cooling (order : SimulatedOrder) (member : order ∈ entriesBy row.receivedUtcNs orders)
      (early : row.receivedUtcNs < order.decisionUtcNs + params.reentryCooldownNs)

theorem mem_entriesBy {timestampNs : ℤ} {orders : List SimulatedOrder} {order : SimulatedOrder} :
    order ∈ entriesBy timestampNs orders ↔
      order ∈ orders ∧ order.kind = .entry ∧ order.decisionUtcNs ≤ timestampNs := by
  simp [entriesBy]

theorem Answered.mono {params : ThresholdHoldParams} {orders later : List SimulatedOrder}
    {row : TapeRow} {ask : ℤ} (answered : Answered params orders row ask)
    (grows : orders <+: later) : Answered params later row ask := by
  have entries : entriesBy row.receivedUtcNs orders <+: entriesBy row.receivedUtcNs later :=
    grows.filter _
  cases answered with
  | sent order member kind decided trigger =>
    exact .sent order (grows.subset member) kind decided trigger
  | held order member filled => exact .held order (entries.subset member) filled
  | exhausted attempts => exact .exhausted (attempts.trans entries.length_le)
  | cooling order member early => exact .cooling order (entries.subset member) early

namespace Replay

variable {replay : Replay} {cash : CashAvailability}

/-! ## One iteration -/

/-- What an immediate entry leaves behind. -/
structure Enters (replay : Replay) (state : RunState) (row : TapeRow) (ask : ℤ) (after : RunState)
    (order : SentOrder) : Prop where
  sent : after.sent = state.sent ++ [order]
  kind : order.kind = .entry
  trigger : order.triggerPriceScaled = some ask
  decided : order.outcome.decisionUtcNs = row.receivedUtcNs
  entries : after.entries ≤ state.entries + 1
  cooldown : after.nextEntryAllowedNs = state.nextEntryAllowedNs ∨
    after.nextEntryAllowedNs = row.receivedUtcNs + replay.params.reentryCooldownNs

/-- Under the immediate policy a signal sends an order. -/
theorem entryStep_enters (immediate : replay.params.entryExecutionPolicy = .immediate)
    {state : RunState} {row : TapeRow} {ask : ℤ} (signal : replay.entrySignal state row = some ask)
    {flow : Flow RunState} (ran : replay.entryStep cash state row = .ok flow) :
    ∃ order, replay.Enters state row ask flow.state order := by
  unfold entryStep at ran
  rw [signal] at ran
  dsimp only at ran
  obtain ⟨⟨spend, limited⟩, _, ran⟩ := Except.bind_eq_ok.mp ran
  dsimp only at ran
  rw [if_neg fun late => late.1 immediate] at ran
  obtain ⟨attempt, attemptRan, ran⟩ := Except.bind_eq_ok.mp ran
  rw [attemptEntry, if_pos immediate] at attemptRan
  obtain ⟨shares, _, attemptRan⟩ := Except.bind_eq_ok.mp attemptRan
  obtain ⟨⟨outcome, context⟩, sent, attemptRan⟩ := Except.bind_eq_ok.mp attemptRan
  obtain rfl := Except.pure_eq_ok.mp attemptRan
  have enters : ∀ after : RunState, after.sent = state.sent ++
      [⟨.entry, row.tokenIndex, row.receivedUtcNs, some ask, outcome⟩] →
      (after.entries = state.entries ∨ after.entries = state.entries + 1) →
      (after.nextEntryAllowedNs = state.nextEntryAllowedNs ∨
        after.nextEntryAllowedNs = row.receivedUtcNs + replay.params.reentryCooldownNs) →
      ∃ order, replay.Enters state row ask after order := by
    intro after same entries cooldown
    exact ⟨_, same, rfl, rfl, (send_spec sent).decided, by omega, cooldown⟩
  dsimp only at ran
  split at ran
  · obtain ⟨opened, openedRan, ran⟩ := Except.bind_eq_ok.mp ran
    obtain rfl := Except.pure_eq_ok.mp ran
    obtain ⟨_, _, openedRan⟩ := Except.bind_eq_ok.mp openedRan
    obtain rfl := Except.pure_eq_ok.mp openedRan
    exact enters _ rfl (ite_eq_or_eq ..) (ite_eq_or_eq ..)
  · obtain rfl := Except.pure_eq_ok.mp ran
    exact enters _ rfl (ite_eq_or_eq ..) (ite_eq_or_eq ..)

/-- Whatever an iteration sends under the immediate policy is decided on its row. -/
theorem step_decided (immediate : replay.params.entryExecutionPolicy = .immediate)
    {state : RunState} {row : TapeRow} {flow : Flow RunState}
    (ran : replay.step cash state row = .ok flow) :
    ∃ fresh, flow.state.sent = state.sent ++ fresh ∧
      ∀ order ∈ fresh, order.outcome.decisionUtcNs = row.receivedUtcNs := by
  have nothing : ∀ {after : RunState}, after.sent = state.sent → ∃ fresh,
      after.sent = state.sent ++ fresh ∧
        ∀ order ∈ fresh, order.outcome.decisionUtcNs = row.receivedUtcNs :=
    fun same => ⟨[], by simp [same], by simp⟩
  unfold step at ran
  split at ran
  · cases ran
    exact nothing rfl
  split at ran
  · obtain ⟨⟨order, context⟩, exitRan, ran⟩ := Except.bind_eq_ok.mp ran
    dsimp only at ran
    cases order with
    | none =>
      obtain rfl := Except.pure_eq_ok.mp ran
      exact nothing rfl
    | some sent =>
      obtain ⟨stateIs, _⟩ := stops_flat (Except.pure_eq_ok.mp ran)
      refine ⟨[sent], by rw [stateIs, rearm_sent, bookExit_sent], fun other member => ?_⟩
      obtain rfl := List.mem_singleton.mp member
      exact maybeExit_decided exitRan
  · cases signal : replay.entrySignal state row with
    | none =>
      rw [entryStep, signal] at ran
      cases ran
      exact nothing rfl
    | some ask =>
      obtain ⟨order, enters⟩ := entryStep_enters immediate signal ran
      refine ⟨[order], enters.sent, fun other member => ?_⟩
      obtain rfl := List.mem_singleton.mp member
      exact enters.decided

/-- An offer that gives no signal finds a position, the attempts used up, or a cooldown. -/
theorem Offers.no_signal {row : TapeRow} {ask : ℤ} (offers : replay.Offers row ask)
    {state : RunState} (none : replay.entrySignal state row = none) :
    0 < state.positionShares ∨ replay.params.maxEntriesPerEpisode ≤ state.entries ∨
      row.receivedUtcNs < state.nextEntryAllowedNs := by
  by_contra open_
  push Not at open_
  obtain ⟨flat, left, allowed⟩ := open_
  unfold entrySignal at none
  dsimp only at none
  rw [if_neg (by omega), if_neg (by have := offers.window.2; omega), if_pos offers.allowed,
    offers.quoted, Option.filter_some, if_pos (by simpa using offers.band)] at none
  cases none

/-! ## Whole runs -/

/-- The orders of a run so far, as they are reported. -/
def ordersOf (replay : Replay) (state : RunState) : List SimulatedOrder :=
  state.sent.map (SentOrder.toOrder replay.tape.episode)

/-- Every offer gone over is answered, and a flat state remembers its attempts. -/
structure Attentive (replay : Replay) (cash : CashAvailability) (past : List TapeRow)
    (state : RunState) : Prop where
  running : replay.Running cash state
  answered : ∀ row ∈ past, ∀ ask, replay.Offers row ask →
    Answered replay.params (replay.ordersOf state) row ask
  decided : ∀ order ∈ state.sent, ∃ row ∈ past, order.outcome.decisionUtcNs = row.receivedUtcNs
  counted : replay.Flat state → state.entries ≤ state.sent.length
  waiting : replay.Flat state → state.nextEntryAllowedNs = replay.entryFromNs ∨
    ∃ order ∈ state.sent,
      state.nextEntryAllowedNs ≤ order.outcome.decisionUtcNs + replay.params.reentryCooldownNs

/-- A run that holds a position has bought it. -/
theorem Running.bought {state : RunState} (running : replay.Running cash state)
    (held : 0 < state.positionShares) :
    ∃ order ∈ state.sent, order.kind = .entry ∧ 0 < order.outcome.filledSharesScaled := by
  obtain ⟨_, tokenIndex, signalNs, ask, before, parent, after, entered⟩ :=
    running.resolve_left fun flat => by rw [flat.positionShares] at held; omega
  have sold : 0 ≤ totalShares (outcomesOf after) := totalShares_nonneg fun outcome member => by
    obtain ⟨order, inAfter, rfl⟩ := List.mem_map.mp member
    exact (entered.exits order inAfter).2.2.2
  have position := entered.positionShares
  by_contra nothing
  push Not at nothing
  have none : totalShares (outcomesOf parent) = 0 := by
    refine List.sum_eq_zero fun shares member => ?_
    obtain ⟨outcome, inOutcomes, rfl⟩ := List.mem_map.mp member
    obtain ⟨order, inParent, rfl⟩ := List.mem_map.mp inOutcomes
    refine le_antisymm (nothing order ?_ (entered.bounded.marks order inParent).1)
      (entered.bounded.orders order inParent).balanced.filled_nonneg
    rw [entered.sent]
    exact List.mem_append_left _ (List.mem_append_right _ inParent)
  omega

/-- A position at a row answers its offers. -/
theorem Attentive.held {past : List TapeRow} {state : RunState}
    (attentive : replay.Attentive cash past state) {row : TapeRow} {ask : ℤ}
    (later : ∀ earlier ∈ past, earlier.receivedUtcNs ≤ row.receivedUtcNs)
    (held : 0 < state.positionShares) :
    Answered replay.params (replay.ordersOf state) row ask := by
  obtain ⟨order, inSent, kind, filled⟩ := attentive.running.bought held
  obtain ⟨earlier, inPast, decided⟩ := attentive.decided order inSent
  refine .held (order.toOrder replay.tape.episode) (mem_entriesBy.mpr ⟨?_, kind, ?_⟩) filled
  · exact List.mem_map_of_mem inSent
  · exact decided.trans_le (later earlier inPast)

/-- An offer that gives no signal is answered by what was sent before. -/
theorem Attentive.unsignalled {past : List TapeRow} {state : RunState}
    (attentive : replay.Attentive cash past state) {row : TapeRow} {ask : ℤ}
    (later : ∀ earlier ∈ past, earlier.receivedUtcNs ≤ row.receivedUtcNs)
    (offers : replay.Offers row ask) (none : replay.entrySignal state row = none) :
    Answered replay.params (replay.ordersOf state) row ask := by
  rcases lt_or_ge 0 state.positionShares with held | empty
  · exact attentive.held later held
  have flat : replay.Flat state := attentive.running.resolve_right fun held => by omega
  have listed : ∀ order ∈ state.sent,
      order.toOrder replay.tape.episode ∈ entriesBy row.receivedUtcNs (replay.ordersOf state) := by
    intro order inSent
    obtain ⟨earlier, inPast, decided⟩ := attentive.decided order inSent
    refine mem_entriesBy.mpr ⟨List.mem_map_of_mem inSent, (flat.idle order inSent).kind, ?_⟩
    exact decided.trans_le (later earlier inPast)
  rcases offers.no_signal none with held | used | cooling
  · omega
  · refine .exhausted (used.trans ((attentive.counted flat).trans_eq ?_))
    have all : entriesBy row.receivedUtcNs (replay.ordersOf state) = replay.ordersOf state := by
      refine List.filter_eq_self.mpr fun order member => ?_
      obtain ⟨sent, inSent, rfl⟩ := List.mem_map.mp member
      exact decide_eq_true (mem_entriesBy.mp (listed sent inSent)).2
    rw [all, ordersOf, List.length_map]
  · rcases attentive.waiting flat with opening | ⟨order, inSent, until_⟩
    · have := offers.window.1
      omega
    · exact .cooling _ (listed order inSent) (cooling.trans_le until_)

/-- An iteration answers the offer of its row. -/
theorem Attentive.answers (immediate : replay.params.entryExecutionPolicy = .immediate)
    {past : List TapeRow} {state : RunState} (attentive : replay.Attentive cash past state)
    {row : TapeRow} {ask : ℤ}
    (later : ∀ earlier ∈ past, earlier.receivedUtcNs ≤ row.receivedUtcNs)
    (offers : replay.Offers row ask) {flow : Flow RunState}
    (ran : replay.step cash state row = .ok flow) :
    Answered replay.params (replay.ordersOf flow.state) row ask := by
  obtain ⟨fresh, same, _⟩ := step_decided immediate ran
  have grows : replay.ordersOf state <+: replay.ordersOf flow.state := by
    rw [ordersOf, ordersOf, same, List.map_append]
    exact List.prefix_append _ _
  rw [step, if_neg (not_lt.mpr offers.before_end)] at ran
  split at ran
  · next watched =>
    simp only [watchesExit, Bool.and_eq_true, decide_eq_true_eq] at watched
    exact (attentive.held later watched.1.1).mono grows
  · cases signal : replay.entrySignal state row with
    | none => exact (attentive.unsignalled later offers signal).mono grows
    | some quoted =>
      obtain ⟨order, enters⟩ := entryStep_enters immediate signal ran
      have own : quoted = ask := by
        obtain ⟨_, _, _, _, shown, _⟩ := replay.entrySignal_eq_some signal
        exact Option.some.inj (shown.symm.trans offers.quoted)
      subst own
      refine .sent (order.toOrder replay.tape.episode) ?_ enters.kind enters.decided enters.trigger
      rw [ordersOf, enters.sent]
      exact List.mem_map_of_mem (List.mem_append_right _ List.mem_cons_self)

/-- An iteration that goes on keeps the run attentive. -/
theorem Attentive.next (inRange : replay.params.InRange)
    (immediate : replay.params.entryExecutionPolicy = .immediate) {past : List TapeRow}
    {state after : RunState} (attentive : replay.Attentive cash past state) {row : TapeRow}
    (member : row ∈ replay.tape.rows)
    (later : ∀ earlier ∈ past, earlier.receivedUtcNs ≤ row.receivedUtcNs)
    (ran : replay.step cash state row = .ok (.next after)) :
    replay.Attentive cash (past ++ [row]) after := by
  obtain ⟨fresh, same, onRow⟩ := step_decided immediate ran
  have running := step_running inRange member attentive.running ran
  have grows : replay.ordersOf state <+: replay.ordersOf after := by
    rw [ordersOf, ordersOf, show after.sent = state.sent ++ fresh from same, List.map_append]
    exact List.prefix_append _ _
  -- A flat state was flat before: it has bought nothing.
  have flatBefore : replay.Flat after → replay.Flat state := by
    intro flat
    refine attentive.running.resolve_right fun held => ?_
    obtain ⟨order, inSent, _, filled⟩ := attentive.running.bought held.1
    have idle := flat.idle order (same ▸ List.mem_append_left _ inSent)
    exact of_decide_eq_false idle.unfilled filled
  have attempts : replay.Flat after → after.entries ≤ after.sent.length ∧
      (after.nextEntryAllowedNs = replay.entryFromNs ∨ ∃ order ∈ after.sent,
        after.nextEntryAllowedNs ≤
          order.outcome.decisionUtcNs + replay.params.reentryCooldownNs) := by
    intro flat
    have before := flatBefore flat
    have counted := attentive.counted before
    have waiting := attentive.waiting before
    have unwatched : watchesExit state row = false := by
      simp [watchesExit, before.positionShares]
    unfold step at ran
    split at ran
    · cases ran
    rw [unwatched, if_neg Bool.false_ne_true] at ran
    cases signal : replay.entrySignal state row with
    | none =>
      rw [entryStep, signal] at ran
      cases ran
      exact ⟨counted, waiting⟩
    | some ask =>
      obtain ⟨order, enters⟩ := entryStep_enters immediate signal ran
      have sent : after.sent = state.sent ++ [order] := enters.sent
      have entries : after.entries ≤ state.entries + 1 := enters.entries
      rw [sent, List.length_append]
      refine ⟨entries.trans (Nat.add_le_add_right counted 1), ?_⟩
      rcases enters.cooldown with kept | restarted
      · rcases waiting with opening | ⟨earlier, inSent, until_⟩
        · exact .inl (kept.trans opening)
        · exact .inr ⟨earlier, List.mem_append_left _ inSent, kept.trans_le until_⟩
      · refine .inr ⟨order, List.mem_append_right _ List.mem_cons_self, ?_⟩
        rw [enters.decided]
        exact restarted.le
  refine ⟨running, ?_, ?_, fun flat => (attempts flat).1, fun flat => (attempts flat).2⟩
  · intro other inPast ask offers
    rcases List.mem_append.mp inPast with earlier | own
    · exact (attentive.answered other earlier ask offers).mono grows
    · obtain rfl := List.mem_singleton.mp own
      exact attentive.answers immediate later offers ran
  · intro order inSent
    rw [show after.sent = state.sent ++ fresh from same] at inSent
    rcases List.mem_append.mp inSent with earlier | own
    · obtain ⟨other, inPast, decided⟩ := attentive.decided order earlier
      exact ⟨other, List.mem_append_left _ inPast, decided⟩
    · exact ⟨row, List.mem_append_right _ List.mem_cons_self, onRow order own⟩

/-- Every offer of the tape is answered when the loop has ended. -/
theorem trace_answers (inRange : replay.params.InRange)
    (immediate : replay.params.entryExecutionPolicy = .immediate) (ordered : replay.tape.Ordered)
    {final : RunState} (ran : replay.trace cash = .ok final) {row : TapeRow}
    (member : row ∈ replay.tape.rows) {ask : ℤ} (offers : replay.Offers row ask) :
    Answered replay.params (replay.ordersOf final) row ask := by
  obtain ⟨past, future, state, split, reached, ends⟩ := forLoop_end_reached ran
  have start : replay.Attentive cash [] replay.initialState :=
    ⟨.inl (.initialState replay), by simp, by simp [initialState],
      fun _ => Nat.zero_le _, fun _ => .inl rfl⟩
  have sorted : (past ++ future).Pairwise fun earlier later =>
      earlier.receivedUtcNs ≤ later.receivedUtcNs := split ▸ ordered
  have attentive : replay.Attentive cash past state := by
    refine reached.history (replay.Attentive cash) start ?_
    intro before item after other next cut _ holds stepped
    have whole : replay.tape.rows = before ++ item :: (after ++ future) := by simp [split, cut]
    refine holds.next inRange immediate (by simp [whole]) (fun earlier inBefore => ?_) stepped
    have pairs : (before ++ item :: (after ++ future)).Pairwise fun earlier later =>
        earlier.receivedUtcNs ≤ later.receivedUtcNs := whole ▸ ordered
    exact (List.pairwise_append.mp pairs).2.2 earlier inBefore item List.mem_cons_self
  rw [split] at member
  rcases List.mem_append.mp member with before | after
  · rcases ends with ⟨_, rfl⟩ | ⟨item, rest, _, stopped⟩
    · exact attentive.answered row before ask offers
    · obtain ⟨fresh, same, _⟩ := step_decided immediate stopped
      refine (attentive.answered row before ask offers).mono ?_
      rw [ordersOf, ordersOf, show final.sent = state.sent ++ fresh from same, List.map_append]
      exact List.prefix_append _ _
  · rcases ends with ⟨rfl, _⟩ | ⟨item, rest, rfl, stopped⟩
    · cases after
    -- The loop was left at a row behind the end, or with the position sold.
    obtain ⟨_, others, across⟩ := List.pairwise_append.mp sorted
    have reaches : item.receivedUtcNs ≤ row.receivedUtcNs := by
      rcases List.mem_cons.mp after with rfl | inRest
      · exact le_rfl
      · exact (List.pairwise_cons.mp others).1 row inRest
    obtain ⟨fresh, same, _⟩ := step_decided immediate stopped
    unfold step at stopped
    split at stopped
    · next late => exact absurd offers.before_end (by omega)
    split at stopped
    · next watched =>
      simp only [watchesExit, Bool.and_eq_true, decide_eq_true_eq] at watched
      refine (attentive.held (fun earlier inPast => across earlier inPast row after)
        watched.1.1).mono ?_
      rw [ordersOf, ordersOf, show final.sent = state.sent ++ fresh from same, List.map_append]
      exact List.prefix_append _ _
    · obtain ⟨next, goes, _⟩ := entryStep_spec inRange
        (by simp [split]) attentive.running stopped
      cases goes

end Replay

namespace ThresholdHoldSimulator

variable {simulator : ThresholdHoldSimulator} {tape : EpisodeTape} {cash : CashAvailability}
  {result : EpisodeResult}

/-- Under the immediate policy no run misses an entry: every row that offers one has an order decided
on it, or comes when a position was opened, the attempts are used up, or a cooldown is running. -/
theorem run_answers (inRange : simulator.params.InRange)
    (immediate : simulator.params.entryExecutionPolicy = .immediate)
    (eligible : tape.episode.eligible = true) (ordered : tape.Ordered)
    (ran : simulator.run tape cash = .ok result) :
    ∃ replay, simulator.Replays tape replay ∧ ∀ row ∈ tape.rows, ∀ ask, replay.Offers row ask →
      Answered simulator.params result.orders row ask := by
  obtain ⟨replay, state, replayed, traced, rfl⟩ := run_eq_ok eligible ran
  obtain ⟨params, sameTape, _⟩ := replayOf_fields replayed
  refine ⟨replay, ⟨params, sameTape⟩, fun row member ask offers => ?_⟩
  rw [← params] at inRange immediate ⊢
  rw [← sameTape] at ordered member
  rw [Replay.settle_orders]
  exact Replay.trace_answers inRange immediate ordered traced member offers

/-- The first row offers an entry at 0.80 and is answered by the order decided on it. -/
theorem run_answers_stopped_out : ∃ result replay,
    (exampleSimulator .immediate).run exampleTape none = .ok result ∧
      (exampleSimulator .immediate).Replays exampleTape replay ∧
      (∀ row ∈ exampleTape.rows, ∀ ask, replay.Offers row ask →
        Answered (exampleParams .immediate) result.orders row ask) ∧
      replay.Offers (TapeBuilder.exampleRow none 780000 800000) 800000 := by
  have returned : ((exampleSimulator .immediate).run exampleTape none).toOption.isSome = true := by
    decide +kernel
  cases ran : (exampleSimulator .immediate).run exampleTape none with
  | error e =>
    rw [ran] at returned
    cases returned
  | ok result =>
    obtain ⟨replay, ⟨params, sameTape⟩, answers⟩ := run_answers (exampleParams_inRange .immediate)
      rfl (by decide) (by simp [EpisodeTape.Ordered, exampleTape, TapeBuilder.exampleRow, fallenRow])
      ran
    refine ⟨result, replay, rfl, ⟨params, sameTape⟩, answers, ?_⟩
    constructor
    · rw [sameTape]
      decide
    · rw [Replay.entryFromNs, Replay.entryToNs, params, sameTape]
      decide
    · rw [Replay.allowed, params, sameTape]
      decide
    · decide
    · rw [params]
      decide

end ThresholdHoldSimulator

end PolymarketBt
