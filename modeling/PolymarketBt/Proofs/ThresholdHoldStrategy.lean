import PolymarketBt.Model.ThresholdHoldStrategy
import PolymarketBt.Proofs.Engine

/-! # The decisions of threshold-and-hold

A market event lets the strategy do nothing, enter in the entry window on an ask in its band, or
exit what it holds on a bid at the stop. The other callbacks do nothing.
-/

namespace PolymarketBt

namespace ThresholdHoldStrategy

variable {hold : ThresholdHoldStrategy}

/-- An intent to buy, in the context of the callback that decides it. -/
structure Enters (hold : ThresholdHoldStrategy) (context : StrategyContext) (intent : OrderIntent) :
    Prop where
  side : intent.side = .buy
  now : intent.decisionTimestampNs = context.nowNs
  window : hold.entryFromNs ≤ context.nowNs ∧ context.nowNs ≤ hold.entryToNs
  before_end : context.nowNs ≤ hold.episode.endUtcNs
  candidate : intent.tokenId ∈ hold.candidateTokens
  limit : intent.limitPriceScaled = some hold.params.entryLimitPriceScaled
  quoted : ∃ book ask shares, context.books intent.tokenId = some book ∧ book.valid = true ∧
    book.bestAsk = some ask ∧ hold.params.entryTriggerPriceScaled ≤ ask ∧
    ask ≤ hold.params.entryLimitPriceScaled ∧ hold.entrySize ask = .ok shares ∧
    intent.requestedSharesScaled = some shares

/-- An intent to sell, in the context of the callback that decides it. -/
structure Exits (hold : ThresholdHoldStrategy) (context : StrategyContext) (intent : OrderIntent) :
    Prop where
  side : intent.side = .sell
  now : intent.decisionTimestampNs = context.nowNs
  before_end : context.nowNs ≤ hold.episode.endUtcNs
  held : 0 < context.portfolio.inventory intent.tokenId
  fraction : intent.requestedSharesScaled = some
    (context.portfolio.inventory intent.tokenId * hold.params.stopLossFractionPpm / 1000000)
  stopped : ∃ stop book, hold.params.stopLossPriceScaled = some stop ∧
    context.books intent.tokenId = some book ∧ ∀ bid ∈ book.bestBid, bid ≤ stop

/-- What a market event can make the strategy do. -/
inductive Decision (hold : ThresholdHoldStrategy) (context : StrategyContext) (state : HoldState) :
    HoldState × List OrderIntent → Prop
  | nothing : Decision hold context state (state, [])
  | entry {intent : OrderIntent} (flat : state.positionToken = none)
      (enters : hold.Enters context intent) :
      Decision hold context state
        ({ state with
          entries := state.entries + 1
          positionToken := some intent.tokenId }, [intent])
  | exit {intent : OrderIntent} (holding : state.positionToken = some intent.tokenId)
      (unsent : state.stopSent = false) (exits : hold.Exits context intent) :
      Decision hold context state ({ state with stopSent := true }, [intent])

theorem triggerAsk_eq_some {context : StrategyContext} {tokenId : String} {ask : ℤ}
    (found : hold.triggerAsk context tokenId = some ask) :
    ∃ book, context.books tokenId = some book ∧ book.valid = true ∧ book.bestAsk = some ask ∧
      hold.params.entryTriggerPriceScaled ≤ ask ∧ ask ≤ hold.params.entryLimitPriceScaled := by
  unfold triggerAsk at found
  obtain ⟨book, stored, found⟩ := Option.bind_eq_some_iff.mp found
  split at found
  · next valid =>
    obtain ⟨quoted, band⟩ := Option.filter_eq_some_iff.mp found
    rw [decide_eq_true_eq] at band
    exact ⟨book, stored, valid, quoted, band⟩
  · cases found

theorem entryIntent_enters {context : StrategyContext} {tokenId : String} {ask : ℤ}
    {intent : OrderIntent}
    (window : hold.entryFromNs ≤ context.nowNs ∧ context.nowNs ≤ hold.entryToNs)
    (before_end : context.nowNs ≤ hold.episode.endUtcNs) (member : tokenId ∈ hold.candidateTokens)
    (asked : hold.triggerAsk context tokenId = some ask)
    (built : hold.entryIntent context tokenId ask = .ok intent) :
    tokenId = intent.tokenId ∧ hold.Enters context intent := by
  obtain ⟨book, stored, valid, quoted, above, below⟩ := triggerAsk_eq_some asked
  unfold entryIntent at built
  simp only [Except.bind_eq_ok, Except.pure_eq_ok] at built
  obtain ⟨outcome, _, shares, sized, rfl⟩ := built
  exact ⟨rfl, rfl, rfl, window, before_end, member, rfl,
    book, ask, shares, stored, valid, quoted, above, below, sized, rfl⟩

theorem exitIntents_decides {context : StrategyContext} {state : HoldState} {tokenId : String}
    {after : HoldState × List OrderIntent} (holding : state.positionToken = some tokenId)
    (before_end : context.nowNs ≤ hold.episode.endUtcNs)
    (ran : hold.exitIntents state tokenId context = .ok after) :
    hold.Decision context state after := by
  unfold exitIntents at ran
  split at ran
  · next stop book stop_set stored =>
    split at ran
    · cases ran
      exact .nothing
    · next due =>
      simp only [not_or, Bool.not_eq_true, not_le] at due
      obtain ⟨unsent, held, bids⟩ := due
      unfold exitIntent at ran
      simp only [Except.bind_eq_ok, Except.pure_eq_ok] at ran
      obtain ⟨intent, ⟨outcome, _, rfl⟩, rfl⟩ := ran
      refine .exit holding unsent
        ⟨rfl, rfl, before_end, held, rfl, stop, book, stop_set, stored, ?_⟩
      intro bid quoted
      rw [Option.mem_def.mp quoted] at bids
      simpa using bids
  · cases ran
    exact .nothing

theorem onMarketEvent_decides {context : StrategyContext} {state : HoldState}
    {after : HoldState × List OrderIntent} (ran : hold.onMarketEvent state context = .ok after) :
    hold.Decision context state after := by
  unfold onMarketEvent at ran
  split at ran
  · cases ran
    exact .nothing
  next before_end =>
  rw [not_lt] at before_end
  split at ran
  · next tokenId holding => exact exitIntents_decides holding before_end ran
  · next flat =>
    split at ran
    · cases ran
      exact .nothing
    · next open_window =>
      simp only [not_or, not_lt] at open_window
      split at ran
      · cases ran
        exact .nothing
      · next tokenId ask found =>
        obtain ⟨candidate, member, triggered⟩ := List.exists_of_findSome?_eq_some found
        obtain ⟨own, asked, same⟩ := Option.map_eq_some_iff.mp triggered
        obtain ⟨rfl, rfl⟩ := Prod.mk.inj same
        simp only [Except.bind_eq_ok, Except.pure_eq_ok] at ran
        obtain ⟨intent, built, rfl⟩ := ran
        obtain ⟨rfl, enters⟩ := entryIntent_enters open_window.2 before_end member asked built
        exact .entry flat enters

/-- Every intent is an entry or an exit in the context of its callback. -/
theorem strategy_obeys : hold.strategy.Obeys fun context intent =>
    hold.Enters context intent ∨ hold.Exits context intent where
  onMarketEvent := by
    intro state event context after ran intent member
    cases onMarketEvent_decides ran with
    | nothing => cases member
    | entry _ enters =>
      obtain rfl := List.mem_singleton.mp member
      exact .inl enters
    | exit _ _ exits =>
      obtain rfl := List.mem_singleton.mp member
      exact .inr exits
  onBtcPrice := by
    rintro _ _ _ _ ⟨⟩
    simp
  onTrade := by
    rintro _ _ _ _ ⟨⟩
    simp
  onMarketClose := by
    rintro _ _ _ _ ⟨⟩
    simp

end ThresholdHoldStrategy

end PolymarketBt
