import PolymarketBt.Proofs.FastSim.Delay
import PolymarketBt.Proofs.TapeNavigation

/-! # Replays that share their past

Two tapes of one market share their past up to an instant when nothing received by then tells them
apart. Every lookup at or before the instant then answers alike, so an order that arrives by then
meets the same book, takes the same slices and leaves the same overlay in both replays.
-/

namespace PolymarketBt

open Machine

/-- Two episodes of one market; they may differ in how it settled. -/
structure Episode.SameMarket (left right : Episode) : Prop where
  conditionId : left.conditionId = right.conditionId
  marketSlug : left.marketSlug = right.marketSlug
  startUtcNs : left.startUtcNs = right.startUtcNs
  endUtcNs : left.endUtcNs = right.endUtcNs
  upTokenId : left.upTokenId = right.upTokenId
  downTokenId : left.downTokenId = right.downTokenId
  tickSizeScaled : left.tickSizeScaled = right.tickSizeScaled
  minimumOrderSizeScaled : left.minimumOrderSizeScaled = right.minimumOrderSizeScaled
  feeRate : left.feeRate = right.feeRate
  feeExponent : left.feeExponent = right.feeExponent
  takerOrderDelayMs : left.takerOrderDelayMs = right.takerOrderDelayMs

/-- Prints stand in receipt order. -/
def EpisodeTape.TradesOrdered (tape : EpisodeTape) : Prop :=
  (tradeStamps tape.trades).Pairwise (· ≤ ·)

/-- Two tapes of one market that nothing received by the instant tells apart. -/
structure EpisodeTape.SamePast (instant : ℤ) (left right : EpisodeTape) : Prop where
  market : left.episode.SameMarket right.episode
  ordered : left.Ordered ∧ right.Ordered
  tradesOrdered : left.TradesOrdered ∧ right.TradesOrdered
  rows : left.rows.filter (fun row => row.receivedUtcNs ≤ instant) =
    right.rows.filter fun row => row.receivedUtcNs ≤ instant
  trades : left.trades.filter (fun trade => trade.receivedUtcNs ≤ instant) =
    right.trades.filter fun trade => trade.receivedUtcNs ≤ instant
  uncertain : ∀ tokenIndex timestampNs, timestampNs ≤ instant →
    left.isUncertain (left.tokenIdOf tokenIndex) timestampNs =
      right.isUncertain (right.tokenIdOf tokenIndex) timestampNs

/-- The rows of a token that a test selects, read off a prefix outside which it selects none. -/
theorem tokenRows_filter_of_split {tape : EpisodeTape} {earlier later : List TapeRow}
    (split : tape.rows = earlier ++ later) (tokenIndex : TokenIndex) {keep : TapeRow × ℕ → Bool}
    (late : ∀ entry ∈ later.zipIdx earlier.length, keep entry = false) :
    (tokenRows tape tokenIndex).filter keep =
      (earlier.zipIdx.filter fun entry => entry.1.tokenIndex = tokenIndex).filter keep := by
  have none : ((later.zipIdx (0 + earlier.length)).filter
      fun entry => entry.1.tokenIndex = tokenIndex).filter keep = [] := by
    rw [List.filter_eq_nil_iff]
    intro entry member
    rw [zero_add] at member
    simp [late entry (List.mem_filter.mp member).1]
  rw [tokenRows, split, List.zipIdx_append, List.filter_append, List.filter_append, none,
    List.append_nil]

namespace EpisodeTape

/-- The rows received by an instant. -/
def rowsBy (tape : EpisodeTape) (instant : ℤ) : List TapeRow :=
  tape.rows.filter fun row => row.receivedUtcNs ≤ instant

theorem rows_split {tape : EpisodeTape} (ordered : tape.Ordered) (instant : ℤ) :
    ∃ later, tape.rows = tape.rowsBy instant ++ later ∧ ∀ row ∈ later, instant < row.receivedUtcNs := by
  refine ⟨_, List.filter_append_filter_not TapeRow.receivedUtcNs ?_ instant, fun row member => ?_⟩
  · rw [List.pairwise_map]
    exact ordered
  · simpa using (List.mem_filter.mp member).2

namespace SamePast

variable {instant : ℤ} {left right : EpisodeTape}

theorem mono (past : SamePast instant left right) {earlier : ℤ} (before : earlier ≤ instant) :
    SamePast earlier left right := by
  have narrow : ∀ {α : Type} (stamp : α → ℤ) (xs : List α),
      xs.filter (fun x => decide (stamp x ≤ earlier)) =
        (xs.filter fun x => decide (stamp x ≤ instant)).filter fun x => decide (stamp x ≤ earlier) := by
    intro α stamp xs
    rw [List.filter_filter]
    refine List.filter_congr fun x _ => ?_
    rw [← Bool.decide_and, decide_eq_decide]
    omega
  refine ⟨past.market, past.ordered, past.tradesOrdered, ?_, ?_,
    fun tokenIndex timestampNs by_ => past.uncertain tokenIndex timestampNs (by_.trans before)⟩
  · rw [narrow, past.rows, ← narrow]
  · rw [narrow, past.trades, ← narrow]

theorem tokenIdOf (past : SamePast instant left right) (tokenIndex : TokenIndex) :
    left.tokenIdOf tokenIndex = right.tokenIdOf tokenIndex := by
  cases tokenIndex
  · exact past.market.upTokenId
  · exact past.market.downTokenId

theorem tokenIndexOf (past : SamePast instant left right) (tokenId : String) :
    left.tokenIndexOf tokenId = right.tokenIndexOf tokenId := by
  rw [EpisodeTape.tokenIndexOf, EpisodeTape.tokenIndexOf, past.market.upTokenId]

theorem rowsBy_eq (past : SamePast instant left right) : left.rowsBy instant = right.rowsBy instant :=
  past.rows

/-- The rows received by an earlier instant are the same, positions included. -/
theorem received_eq (past : SamePast instant left right) (tokenIndex : TokenIndex) {timestampNs : ℤ}
    (by_ : timestampNs ≤ instant) :
    (tokenRows left tokenIndex).filter (fun entry => entry.1.receivedUtcNs ≤ timestampNs) =
      (tokenRows right tokenIndex).filter fun entry => entry.1.receivedUtcNs ≤ timestampNs := by
  obtain ⟨leftLater, leftSplit, leftLate⟩ := rows_split past.ordered.1 instant
  obtain ⟨rightLater, rightSplit, rightLate⟩ := rows_split past.ordered.2 instant
  have late : ∀ (later : List TapeRow) (start : ℕ), (∀ row ∈ later, instant < row.receivedUtcNs) →
      ∀ entry ∈ later.zipIdx start, decide (entry.1.receivedUtcNs ≤ timestampNs) = false := by
    intro later start after entry member
    have := after _ (List.fst_mem_of_mem_zipIdx member)
    exact decide_eq_false (by omega)
  rw [tokenRows_filter_of_split leftSplit tokenIndex (late _ _ leftLate),
    tokenRows_filter_of_split rightSplit tokenIndex (late _ _ rightLate), past.rowsBy_eq]

theorem rowAt_eq (past : SamePast instant left right) (tokenIndex : TokenIndex) {timestampNs : ℤ}
    (by_ : timestampNs ≤ instant) :
    rowAt (tokenRows left tokenIndex) timestampNs = rowAt (tokenRows right tokenIndex) timestampNs := by
  rw [rowAt_eq_getLast? (stamps_sorted past.ordered.1 tokenIndex),
    rowAt_eq_getLast? (stamps_sorted past.ordered.2 tokenIndex), past.received_eq tokenIndex by_]

/-- Reconciling up to a row received by the instant replays the same restatements. -/
theorem reconcile_eq (past : SamePast instant left right) {tokenIndex : TokenIndex} {timestampNs : ℤ}
    (by_ : timestampNs ≤ instant) {met : TapeRow × ℕ}
    (found : rowAt (tokenRows left tokenIndex) timestampNs = some met) (context : SimContext) :
    reconcileSelfImpact (tokenRows left tokenIndex) tokenIndex met.2 context =
      reconcileSelfImpact (tokenRows right tokenIndex) tokenIndex met.2 context := by
  obtain ⟨leftLater, leftSplit, leftLate⟩ := rows_split past.ordered.1 instant
  obtain ⟨rightLater, rightSplit, _⟩ := rows_split past.ordered.2 instant
  have inside : met.2 < (left.rowsBy instant).length :=
    position_lt_of_rowAt past.ordered.1 leftSplit
      (fun row member => by_.trans_lt (leftLate row member)) found
  rw [← past.rowsBy_eq] at rightSplit
  have late : ∀ (later : List TapeRow) (after : ℤ),
      ∀ entry ∈ later.zipIdx (left.rowsBy instant).length,
        decide (after < (entry.2 : ℤ) ∧ entry.2 < met.2 + 1) = false := by
    intro later after entry member
    have := List.le_snd_of_mem_zipIdx member
    exact decide_eq_false (by omega)
  have same : ∀ after, rowsBetween (tokenRows left tokenIndex) after (met.2 + 1) =
      rowsBetween (tokenRows right tokenIndex) after (met.2 + 1) := by
    intro after
    rw [rowsBetween, rowsBetween, tokenRows_filter_of_split leftSplit tokenIndex (late _ after),
      tokenRows_filter_of_split rightSplit tokenIndex (late _ after)]
  have leftConsumed := reconcileSelfImpact_consumed _ (positions_sorted left tokenIndex) tokenIndex
    met.2 context
  have rightConsumed := reconcileSelfImpact_consumed _ (positions_sorted right tokenIndex) tokenIndex
    met.2 context
  unfold reconcileSelfImpact at *
  split
  · rfl
  · next ahead =>
    rw [if_neg ahead] at leftConsumed rightConsumed
    dsimp only at leftConsumed rightConsumed ⊢
    rw [leftConsumed, rightConsumed, same]

theorem tradable_eq (past : SamePast instant left right) (tokenIndex : TokenIndex) (row : TapeRow)
    {timestampNs : ℤ} (by_ : timestampNs ≤ instant) :
    tradable left tokenIndex row timestampNs = tradable right tokenIndex row timestampNs := by
  rw [tradable, tradable, past.uncertain tokenIndex timestampNs by_]

end SamePast

end EpisodeTape

namespace Replay

/-- Two replays of one parameter set over tapes that share their past. -/
structure Aligned (instant : ℤ) (left right : Replay) : Prop where
  params : left.params = right.params
  executor : left.executor = right.executor
  takerDelay : left.takerDelayNs = right.takerDelayNs
  past : left.tape.SamePast instant right.tape

namespace Aligned

variable {instant delay : ℤ} {left right : Replay} (aligned : Aligned instant left right)

include aligned

theorem delays (delayed : left.Delays delay) : right.Delays delay := by
  intro draw latency ran
  rw [← aligned.executor] at ran
  rw [← aligned.takerDelay]
  exact delayed draw latency ran

theorem matchAt_eq {request : OrderRequest} {arrivalNs : ℤ} (by_ : arrivalNs ≤ instant)
    {entry : TapeRow × ℕ} (found : rowAt (left.rowsOf request.tokenIndex) arrivalNs = some entry)
    (cash : Option ℤ) (context : SimContext) :
    left.matchAt request arrivalNs cash entry context =
      right.matchAt request arrivalNs cash entry context := by
  simp only [matchAt, requestedShares, capToSpend, rowsOf, aligned.executor,
    aligned.past.market.minimumOrderSizeScaled, aligned.past.market.tickSizeScaled,
    aligned.past.reconcile_eq by_ found]

theorem sendAt_eq (request : OrderRequest) {arrivalNs : ℤ} (by_ : arrivalNs ≤ instant)
    (context : SimContext) :
    left.sendAt request arrivalNs context = right.sendAt request arrivalNs context := by
  simp only [sendAt, aligned.past.market.endUtcNs]
  split
  · rfl
  split
  · rfl
  cases cashAt request.cash arrivalNs with
  | error e => rfl
  | ok cash =>
    simp only [Except.ok_bind]
    split
    · rfl
    have same := aligned.past.rowAt_eq request.tokenIndex by_
    cases found : rowAt (left.rowsOf request.tokenIndex) arrivalNs with
    | none =>
      rw [rowsOf] at found
      rw [rowsOf, ← same, found]
    | some entry =>
      have other : rowAt (right.rowsOf request.tokenIndex) arrivalNs = some entry :=
        same.symm.trans found
      rw [other]
      dsimp only
      rw [aligned.past.tradable_eq _ _ by_, aligned.executor, aligned.matchAt_eq by_ found]

/-- An order that arrives by the instant is the same order in both replays. -/
theorem send_eq (delayed : left.Delays delay) {request : OrderRequest}
    (by_ : request.decisionNs + delay ≤ instant) (context : SimContext) :
    left.send request context = right.send request context := by
  have arrive : left.arrive request context = right.arrive request context := by
    simp only [Replay.arrive, aligned.executor, aligned.takerDelay]
  rw [send, send, arrive]
  cases arrived : right.arrive request context with
  | error e => rfl
  | ok arrival =>
    obtain ⟨arrivalNs, drawn⟩ := arrival
    have same := arrive_spec (aligned.delays delayed) arrived
    exact aligned.sendAt_eq request (by omega) drawn

/-! ## Exits -/

theorem exitSignal_eq (state : RunState) (row : TapeRow) :
    left.exitSignal state row = right.exitSignal state row := by
  rw [exitSignal, exitSignal, flattenNs, flattenNs, stopArmedNs, stopArmedNs, aligned.params,
    aligned.past.market.endUtcNs, aligned.past.market.startUtcNs]

theorem maybeExit_eq (delayed : left.Delays delay) (state : RunState) {row : TapeRow}
    (by_ : row.receivedUtcNs + delay ≤ instant) :
    left.maybeExit state row = right.maybeExit state row := by
  unfold maybeExit
  rw [aligned.exitSignal_eq]
  split
  · rfl
  split
  · rfl
  rw [aligned.send_eq delayed by_]
  simp only [exitRequest, aligned.params]

theorem exitStep_eq (delayed : left.Delays delay) (state : RunState) {row : TapeRow}
    (by_ : row.receivedUtcNs + delay ≤ instant) :
    left.exitStep state row = right.exitStep state row := by
  simp only [exitStep, aligned.maybeExit_eq delayed _ by_, rearm, aligned.params]

end Aligned

end Replay

end PolymarketBt
