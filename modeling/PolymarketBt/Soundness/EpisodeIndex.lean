import PolymarketBt.Model.EpisodeIndex
import PolymarketBt.Proofs.Selection
import PolymarketBt.Soundness.ConnectionGaps

/-! # Grounds of an eligible episode

An episode that the index declares eligible has a winner among its own tokens, no recorded resolution
names another one, and its settlement is never available before the market has ended and the evidence
for the winner has been received. Its window is covered by both books and free of connection gaps and
of blocking quality errors. The index has one episode for every condition, made of its latest
version.
-/

namespace PolymarketBt

open StableSort

/-- What is made of keys, each item under its own key, has the keys in their order. -/
theorem map_filterMap_sublist {κ α : Type*} {make : κ → Option α} {key : α → κ}
    (own : ∀ k item, make k = some item → key item = k) (keys : List κ) :
    ((keys.filterMap make).map key).Sublist keys := by
  induction keys with
  | nil => exact .slnil
  | cons k rest ih =>
    cases made : make k with
    | none =>
      rw [List.filterMap_cons_none made]
      exact ih.cons k
    | some item =>
      rw [List.filterMap_cons_some made, List.map_cons, own k item made]
      exact ih.cons_cons k

section Combined

variable {choose : ℤ → ℤ → ℤ} {first second : Option ℤ}

theorem combined_max_le {time bound : ℤ} (both : combined max first second = some time)
    (le : time ≤ bound) : (∀ t, first = some t → t ≤ bound) ∧ ∀ t, second = some t → t ≤ bound := by
  cases first <;> cases second <;> simp_all [combined]
  omega

end Combined

/-- The other token loses its bids, or has none. -/
def LosesBids (datasets : IndexDatasets) (window : EpisodeWindow) (tokenId : String)
    (available : ℤ) : Prop :=
  ∀ quote, datasets.terminalBook window tokenId = some quote →
    quote.receivedUtcNs ≤ available ∧ ∀ bid, quote.bestBidScaled = some bid → bid ≤ settledAskScaled

/-- The token is bid for at certainty. -/
def Collapses (datasets : IndexDatasets) (window : EpisodeWindow) (tokenId : String)
    (available : ℤ) : Prop :=
  ∃ quote bid, datasets.terminalBook window tokenId = some quote ∧
    quote.receivedUtcNs ≤ available ∧ quote.bestBidScaled = some bid ∧ settledBidScaled ≤ bid

/-- The evidence of a source for a winner, received by an instant. -/
def Supports (datasets : IndexDatasets) (window : EpisodeWindow) (episode : IndexedEpisode)
    (token : String) (available : ℤ) : WinnerSource → Prop
  | .marketResolution => ∃ row ∈ datasets.marketResolutions,
      row.conditionId = episode.conditionId ∧ row.receivedUtcNs ≤ available
  | .gamma => ∃ row ∈ datasets.markets, row.conditionId = episode.conditionId ∧
      row.winningTokenId = some token ∧ row.gammaReceived ≤ available
  | .terminalBook =>
      ((token = episode.upTokenId ∧ Collapses datasets window episode.upTokenId available ∧
          LosesBids datasets window episode.downTokenId available) ∨
        (token = episode.downTokenId ∧ Collapses datasets window episode.downTokenId available ∧
          LosesBids datasets window episode.upTokenId available)) ∧
      ∀ price, episode.reference = some price →
        token = if price.openScaled ≤ price.closeScaled then episode.upTokenId
          else episode.downTokenId
  | .referencePrice => ∃ price, episode.reference = some price ∧
      (token = if price.openScaled ≤ price.closeScaled then episode.upTokenId
        else episode.downTokenId) ∧
      price.openReceived ≤ episode.startUtcNs ∧
      episode.startUtcNs - price.openReceived ≤ referenceMaxAgeNs ∧
      price.closeReceived ≤ episode.endUtcNs ∧
      episode.endUtcNs - price.closeReceived ≤ referenceMaxAgeNs ∧ price.closeReceived ≤ available
  | .ambiguous => False

/-- The schedule of an indexed episode. -/
def IndexedEpisode.Scheduled (episode : IndexedEpisode) (market : MarketWindow) : Prop :=
  market.conditionId = episode.conditionId ∧ market.marketStartUtcNs = episode.startUtcNs ∧
    market.marketEndUtcNs = episode.endUtcNs

/-- What an eligible episode rests on. -/
structure Grounded (datasets : IndexDatasets) (window : EpisodeWindow) (requireFullWindow : Bool)
    (episode : IndexedEpisode) : Prop where
  /-- The winner is a token of the market, and its settlement is known to follow the end of the
  market and the evidence. -/
  winner : ∃ token available, episode.winnerTokenId = some token ∧
    (token = episode.upTokenId ∨ token = episode.downTokenId) ∧
    episode.winnerOutcome = some (if token = episode.upTokenId then "UP" else "DOWN") ∧
    episode.resolutionReceivedUtcNs = some available ∧ episode.endUtcNs ≤ available ∧
    Supports datasets window episode token available episode.winnerSource
  uncontradicted : ∀ row ∈ datasets.marketResolutions, row.conditionId = episode.conditionId →
    episode.winnerTokenId = some row.winningTokenId
  covered : ∀ token, token = episode.upTokenId ∨ token = episode.downTokenId →
    datasets.bookTimes token ≠ [] ∧
    (requireFullWindow → (∃ time ∈ datasets.bookTimes token, time ≤ episode.startUtcNs) ∧
      ∃ time ∈ datasets.bookTimes token, episode.endUtcNs ≤ time)
  clean : ∃ market, episode.Scheduled market.row.schedule ∧
    market.upTokenId = episode.upTokenId ∧ market.downTokenId = episode.downTokenId ∧
    ∀ row ∈ datasets.qualityRows market, row.isError → row.replayEligible
  connected : ∃ market, episode.Scheduled market ∧
    ∀ gap ∈ connectionGaps datasets.connectionEvents, gap.overlaps market = false

namespace IndexDatasets

variable {datasets : IndexDatasets} {window : EpisodeWindow} {requireFullWindow : Bool}
  {market : ListedMarket} {tokenId conditionId : String}

/-! ## Queries -/

theorem coverage_spec {cover : TokenCoverage} (found : datasets.coverage tokenId = some cover) :
    cover.first ∈ datasets.bookTimes tokenId ∧ cover.last ∈ datasets.bookTimes tokenId := by
  simp only [coverage, bind, Option.bind_eq_some_iff, pure] at found
  obtain ⟨first, least, last, greatest, same⟩ := found
  cases same
  exact ⟨List.min?_mem least, List.max?_mem greatest⟩

/-- Both boundary prices were observed by their boundary, and recently. -/
theorem referencePrice_spec {price : ReferencePrice}
    (found : datasets.referencePrice market = some price) :
    price.openReceived ≤ market.row.marketStartUtcNs ∧
    market.row.marketStartUtcNs - price.openReceived ≤ referenceMaxAgeNs ∧
    price.closeReceived ≤ market.row.marketEndUtcNs ∧
    market.row.marketEndUtcNs - price.closeReceived ≤ referenceMaxAgeNs := by
  obtain ⟨source, -, chosen⟩ := List.exists_of_findSome?_eq_some found
  obtain ⟨picked, fresh⟩ := Option.filter_eq_some_iff.mp chosen
  simp only [Bool.and_eq_true, decide_eq_true_eq] at fresh
  simp only [pick, bind, Option.bind_eq_some_iff, pure] at picked
  obtain ⟨opened, openFound, closed, closeFound, same⟩ := picked
  cases same
  have atOpen := (List.mem_filter.mp (maxBy_spec openFound).1).2
  have atClose := (List.mem_filter.mp (maxBy_spec closeFound).1).2
  exact ⟨of_decide_eq_true atOpen, fresh.1, of_decide_eq_true atClose, fresh.2⟩

/-- No resolution, one winner that every row names, or a contradiction. -/
theorem recordedResolution_cases :
    (datasets.resolutionsOf conditionId = [] ∧ datasets.recordedResolution conditionId = {}) ∨
    (∃ row ∈ datasets.resolutionsOf conditionId,
      (∀ other ∈ datasets.resolutionsOf conditionId, other.winningTokenId = row.winningTokenId) ∧
      datasets.recordedResolution conditionId =
        { winner := some row.winningTokenId, received := some row.receivedUtcNs }) ∨
    (datasets.recordedResolution conditionId).conflict := by
  cases named : ((datasets.resolutionsOf conditionId).map ResolutionRow.winningTokenId).dedup with
  | nil =>
    refine .inl ⟨List.map_eq_nil_iff.mp ((List.dedup_eq_nil _).mp named), ?_⟩
    simp only [recordedResolution, named]
  | cons winner others =>
    cases others with
    | nil =>
      have every : ∀ row ∈ datasets.resolutionsOf conditionId, row.winningTokenId = winner := by
        intro row member
        have dedup := List.mem_dedup.mpr (List.mem_map_of_mem (f := ResolutionRow.winningTokenId) member)
        rw [named] at dedup
        exact List.mem_singleton.mp dedup
      have some_ : datasets.resolutionsOf conditionId ≠ [] := by
        intro none
        simp [none] at named
      have times : (datasets.resolutionsOf conditionId).map ResolutionRow.receivedUtcNs ≠ [] :=
        mt List.map_eq_nil_iff.mp some_
      obtain ⟨least, found⟩ := Option.isSome_iff_exists.mp (List.isSome_min?_of_ne_nil times)
      obtain ⟨row, member, same⟩ := List.mem_map.mp (List.min?_mem found)
      refine .inr (.inl ⟨row, member, fun other present => ?_, ?_⟩)
      · rw [every other present, every row member]
      · simp only [recordedResolution, named, found, ← same, every row member]
    | cons second rest =>
      refine .inr (.inr ?_)
      simp only [recordedResolution, named]

end IndexDatasets

/-! ## The winner -/

section Winner

variable {upToken downToken : String} {upBid downBid : Option ℤ} {reference : Option ReferencePrice}
  {resolution : RecordedResolution} {gammaWinner : Option String} {token : String}

theorem winnerFromTerminalBook_spec
    (won : winnerFromTerminalBook upToken downToken upBid downBid = some token) :
    (token = upToken ∧ (∃ bid, upBid = some bid ∧ settledBidScaled ≤ bid) ∧
      ∀ bid, downBid = some bid → bid ≤ settledAskScaled) ∨
    (token = downToken ∧ (∃ bid, downBid = some bid ∧ settledBidScaled ≤ bid) ∧
      ∀ bid, upBid = some bid → bid ≤ settledAskScaled) := by
  have settles {bid : Option ℤ} (settled : bid.any (settledBidScaled ≤ ·)) :
      ∃ price, bid = some price ∧ settledBidScaled ≤ price := by
    simpa [Option.any_eq_true] using settled
  have dies {bid : Option ℤ} (dead : bid.all (· ≤ settledAskScaled)) :
      ∀ price, bid = some price → price ≤ settledAskScaled := by
    rintro price rfl
    simpa using dead
  simp only [winnerFromTerminalBook] at won
  split at won
  · next up =>
    rw [Bool.and_eq_true] at up
    exact .inl ⟨(Option.some.inj won).symm, settles up.1, dies up.2⟩
  · split at won
    · next down =>
      rw [Bool.and_eq_true] at down
      exact .inr ⟨(Option.some.inj won).symm, settles down.1, dies down.2⟩
    · cases won

variable (upToken downToken upBid downBid reference resolution gammaWinner) in
/-- What a source says of a winner, the sources before it being silent. -/
def Determines (winner : String) : WinnerSource → Prop
  | .marketResolution => resolution.winner = some winner
  | .gamma => resolution.winner = none ∧ gammaWinner = some winner
  | .terminalBook => resolution.winner = none ∧
      winnerFromTerminalBook upToken downToken upBid downBid = some winner ∧
      ∀ other, winnerFromReference upToken downToken reference = some other → other = winner
  | .referencePrice => resolution.winner = none ∧
      winnerFromReference upToken downToken reference = some winner
  | .ambiguous => False

/-- A determined winner is a token of the market, named by its source and contradicted by none. -/
theorem resolveWinner_determines
    (determined : (resolveWinner gammaWinner upToken downToken upBid downBid reference
      resolution).source ≠ .ambiguous) :
    resolution.conflict = false ∧ ∃ winner, (winner = upToken ∨ winner = downToken) ∧
      (resolveWinner gammaWinner upToken downToken upBid downBid reference resolution).token =
        some winner ∧
      Determines upToken downToken upBid downBid reference resolution gammaWinner winner
        (resolveWinner gammaWinner upToken downToken upBid downBid reference resolution).source := by
  have ofBook {winner : String}
      (won : winnerFromTerminalBook upToken downToken upBid downBid = some winner) :
      winner = upToken ∨ winner = downToken :=
    (winnerFromTerminalBook_spec won).imp (·.1) (·.1)
  have ofReference {winner : String}
      (won : winnerFromReference upToken downToken reference = some winner) :
      winner = upToken ∨ winner = downToken := by
    obtain ⟨price, -, rfl⟩ := Option.map_eq_some_iff.mp won
    split
    · exact .inl rfl
    · exact .inr rfl
  unfold resolveWinner at determined ⊢
  split at determined
  · exact absurd rfl determined
  · next agreed =>
    rw [if_neg agreed]
    refine ⟨Bool.eq_false_iff.mpr agreed, ?_⟩
    split at determined
    · next winner recorded =>
      split at determined
      · next own => exact ⟨winner, own, by simp [own, Determines, recorded]⟩
      · exact absurd rfl determined
    · next silent =>
      split at determined
      · next own =>
        rcases own with named | named
        · exact ⟨upToken, .inl rfl, by simp [named, Determines, silent]⟩
        · exact ⟨downToken, .inr rfl, by simp [named, Determines, silent]⟩
      · next unnamed =>
        simp only [if_neg unnamed]
        split at determined
        · next book price won closed =>
          split at determined
          · next same =>
            refine ⟨book, ofBook won, ?_⟩
            simp [same, won, closed, Determines, silent]
          · exact absurd rfl determined
        · next book won unpriced =>
          refine ⟨book, ofBook won, ?_⟩
          simp [won, unpriced, Determines, silent]
        · next price _ closed =>
          refine ⟨price, ofReference closed, ?_⟩
          simp [closed, Determines, silent]
        · exact absurd rfl determined

end Winner

/-! ## Eligibility -/

theorem exclusionReason_none {source : WinnerSource} {up down : Option TokenCoverage}
    {lead lag : Option ℤ} {requireFullWindow : Bool} {blocking gaps : ℕ}
    (eligible : exclusionReason source up down lead lag requireFullWindow blocking gaps = none) :
    (up.isSome ∧ down.isSome) ∧ source ≠ .ambiguous ∧ blocking = 0 ∧ gaps = 0 ∧
      (requireFullWindow → lead.any (0 ≤ ·) ∧ lag.any (0 ≤ ·)) := by
  unfold exclusionReason at eligible
  split_ifs at eligible with one ambiguous blocked gap partly late early
  all_goals
    simp only [Bool.or_eq_true, Option.isNone_iff_eq_none, not_or, not_not] at one blocked gap
    refine ⟨one.imp Option.isSome_iff_ne_none.mpr Option.isSome_iff_ne_none.mpr, ambiguous, blocked,
      gap, ?_⟩
  · simp_all
  · simp_all

namespace IndexDatasets

variable {datasets : IndexDatasets} {window : EpisodeWindow} {requireFullWindow : Bool}
  {market : ListedMarket} {startUtcNs endUtcNs : Option ℤ} {gaps : String → ℕ}

theorem listed_spec {row : MarketRow} (listed : row.listed = some market) :
    market.row = row ∧ row.upTokenId = some market.upTokenId ∧
      row.downTokenId = some market.downTokenId := by
  simp only [MarketRow.listed, bind, Option.bind_eq_some_iff, pure] at listed
  obtain ⟨up, upListed, down, downListed, same⟩ := listed
  cases same
  exact ⟨rfl, upListed, downListed⟩

/-- A listing is the latest version of its condition. -/
theorem mem_listings (member : market ∈ datasets.listings startUtcNs endUtcNs) :
    market.row ∈ datasets.markets ∧
    (∀ other ∈ datasets.markets, other.conditionId = market.row.conditionId →
      other.versionKey ≤ market.row.versionKey) ∧
    market.row.upTokenId = some market.upTokenId ∧
    market.row.downTokenId = some market.downTokenId ∧
    startUtcNs.all (· ≤ market.row.marketStartUtcNs) ∧
    endUtcNs.all (market.row.marketEndUtcNs ≤ ·) := by
  obtain ⟨listed, bounds⟩ := List.mem_filter.mp (mem_sortByKey.mp member)
  obtain ⟨conditionId, -, found⟩ := List.mem_filterMap.mp listed
  obtain ⟨row, latest, listed⟩ := Option.bind_eq_some_iff.mp found
  obtain ⟨rfl, up, down⟩ := listed_spec listed
  obtain ⟨present, condition⟩ := List.mem_filter.mp (maxBy_spec latest).1
  rw [Bool.and_eq_true] at bounds
  refine ⟨present, fun other member same => ?_, up, down, bounds⟩
  refine (maxBy_spec latest).2 other (List.mem_filter.mpr ⟨member, ?_⟩)
  rw [same]
  exact condition

/-- The listings have distinct conditions. -/
theorem listings_distinct :
    ((datasets.listings startUtcNs endUtcNs).map fun market => market.row.conditionId).Nodup := by
  have latest : ∀ conditionId market, (maxBy MarketRow.versionKey
      (datasets.markets.filter fun row => row.conditionId = conditionId)).bind MarketRow.listed =
        some market → market.row.conditionId = conditionId := by
    intro conditionId market found
    obtain ⟨row, latest, listed⟩ := Option.bind_eq_some_iff.mp found
    obtain ⟨rfl, -⟩ := listed_spec listed
    exact of_decide_eq_true (List.mem_filter.mp (maxBy_spec latest).1).2
  refine (((sortByKey_perm _ _).map _).nodup_iff).mpr ?_
  refine (List.filter_sublist.map _).nodup ?_
  exact (map_filterMap_sublist latest _).nodup (List.nodup_dedup _)

/-- An instant at which evidence is available is not before the end of the market, and not before the
receipt of any of it. -/
theorem resolutionAvailableTime_spec {source : WinnerSource} {marketEndUtcNs : ℤ}
    {times : EvidenceTimes} (observed : 0 ≤ window.postEndNs) {available : ℤ}
    (found : resolutionAvailableTime window source marketEndUtcNs times = some available) :
    marketEndUtcNs ≤ available ∧
    (source = .marketResolution → ∀ t, times.authoritative = some t → t ≤ available) ∧
    (source = .gamma → times.gamma ≤ available) ∧
    (source = .terminalBook → ∀ t, times.terminal = some t → t ≤ available) := by
  have held {received : ℤ} :
      marketEndUtcNs ≤ (if marketEndUtcNs < received then received
        else marketEndUtcNs + window.postEndNs) ∧
      received ≤ (if marketEndUtcNs < received then received
        else marketEndUtcNs + window.postEndNs) := by
    split <;> omega
  cases source with
  | marketResolution =>
    obtain ⟨received, first, rfl⟩ := Option.map_eq_some_iff.mp found
    refine ⟨le_max_left _ _, fun _ t at_ => ?_, by simp, by simp⟩
    obtain rfl := Option.some.inj (first.symm.trans at_)
    exact le_max_right _ _
  | gamma =>
    obtain rfl := Option.some.inj found
    exact ⟨held.1, by simp, fun _ => held.2, by simp⟩
  | terminalBook =>
    obtain ⟨received, last, rfl⟩ := Option.map_eq_some_iff.mp found
    refine ⟨held.1, by simp, by simp, fun _ t at_ => ?_⟩
    obtain rfl := Option.some.inj (last.symm.trans at_)
    exact held.2
  | referencePrice =>
    obtain rfl := Option.some.inj found
    exact ⟨by omega, by simp, by simp, by simp⟩
  | ambiguous => cases found

/-- The last quote of a settled token is there to be waited for. -/
theorem terminal_isSome {upBid downBid : Option ℤ} {upQuote downQuote : Option QuoteRow}
    {upToken downToken winner : String} (up : upBid = upQuote.bind QuoteRow.bestBidScaled)
    (down : downBid = downQuote.bind QuoteRow.bestBidScaled)
    (won : winnerFromTerminalBook upToken downToken upBid downBid = some winner) :
    (combined max (upQuote.map QuoteRow.receivedUtcNs)
      (downQuote.map QuoteRow.receivedUtcNs)).isSome := by
  subst up down
  rcases winnerFromTerminalBook_spec won with ⟨-, ⟨bid, shown, -⟩, -⟩ | ⟨-, ⟨bid, shown, -⟩, -⟩
  all_goals
    obtain ⟨quote, found, -⟩ := Option.bind_eq_some_iff.mp shown
    subst found
  · cases downQuote <;> rfl
  · cases upQuote <;> rfl

/-- What an episode takes from its listing and from the datasets. -/
structure MadeOf (datasets : IndexDatasets) (window : EpisodeWindow) (market : ListedMarket)
    (episode : IndexedEpisode) (winner : String) (times : EvidenceTimes) : Prop where
  condition : episode.conditionId = market.row.conditionId
  start : episode.startUtcNs = market.row.marketStartUtcNs
  finish : episode.endUtcNs = market.row.marketEndUtcNs
  reference : episode.reference = datasets.referencePrice market
  agreed : (datasets.recordedResolution episode.conditionId).conflict = false
  determines : Determines episode.upTokenId episode.downTokenId
    ((datasets.terminalBook window episode.upTokenId).bind QuoteRow.bestBidScaled)
    ((datasets.terminalBook window episode.downTokenId).bind QuoteRow.bestBidScaled)
    episode.reference (datasets.recordedResolution episode.conditionId)
    (givenText market.row.winningTokenId) winner episode.winnerSource
  authoritative : times.authoritative = (datasets.recordedResolution episode.conditionId).received
  gamma : times.gamma = market.row.gammaReceived
  terminal : times.terminal = combined max
    ((datasets.terminalBook window episode.upTokenId).map QuoteRow.receivedUtcNs)
    ((datasets.terminalBook window episode.downTokenId).map QuoteRow.receivedUtcNs)

namespace MadeOf

variable {episode : IndexedEpisode} {winner : String} {times : EvidenceTimes}
  (made : MadeOf datasets window market episode winner times)

include made

/-- A winner that is named by a resolution is named by every resolution of the condition. -/
theorem recorded (named : (datasets.recordedResolution episode.conditionId).winner = some winner) :
    ∃ row ∈ datasets.resolutionsOf episode.conditionId,
      (∀ other ∈ datasets.resolutionsOf episode.conditionId, other.winningTokenId = winner) ∧
      times.authoritative = some row.receivedUtcNs := by
  rcases @recordedResolution_cases datasets episode.conditionId with
    ⟨-, silent⟩ | ⟨row, member, every, found⟩ | conflict
  · rw [silent] at named
    cases named
  · rw [found] at named
    obtain rfl := Option.some.inj named
    exact ⟨row, member, every, made.authoritative.trans (congrArg _ found)⟩
  · rw [made.agreed] at conflict
    cases conflict

theorem silent (unnamed : (datasets.recordedResolution episode.conditionId).winner = none) :
    datasets.resolutionsOf episode.conditionId = [] := by
  rcases @recordedResolution_cases datasets episode.conditionId with
    ⟨empty, -⟩ | ⟨row, -, -, found⟩ | conflict
  · exact empty
  · rw [found] at unnamed
    cases unnamed
  · rw [made.agreed] at conflict
    cases conflict

/-- No recorded resolution names another winner. -/
theorem uncontradicted : ∀ row ∈ datasets.resolutionsOf episode.conditionId,
    row.winningTokenId = winner := by
  have determines := made.determines
  intro row member
  cases source : episode.winnerSource with
  | marketResolution =>
    rw [source] at determines
    obtain ⟨-, -, every, -⟩ := made.recorded determines
    exact every row member
  | gamma | terminalBook | referencePrice =>
    rw [source] at determines
    rw [made.silent determines.1] at member
    cases member
  | ambiguous =>
    rw [source] at determines
    exact determines.elim

/-- The evidence has been available from some instant on. -/
theorem available : ∃ available,
    resolutionAvailableTime window episode.winnerSource episode.endUtcNs times = some available := by
  have determines := made.determines
  cases source : episode.winnerSource with
  | marketResolution =>
    rw [source] at determines
    obtain ⟨row, -, -, first⟩ := made.recorded determines
    exact ⟨_, by rw [resolutionAvailableTime, first]; rfl⟩
  | gamma | referencePrice => exact ⟨_, rfl⟩
  | terminalBook =>
    rw [source] at determines
    obtain ⟨last, found⟩ := Option.isSome_iff_exists.mp
      (terminal_isSome rfl rfl determines.2.1)
    exact ⟨_, by rw [resolutionAvailableTime, made.terminal, found]; rfl⟩
  | ambiguous =>
    rw [source] at determines
    exact determines.elim

/-- The quotes of both tokens have been received. -/
theorem supports_terminal {available : ℤ}
    (after : ∀ t, times.terminal = some t → t ≤ available)
    (won : winnerFromTerminalBook episode.upTokenId episode.downTokenId
      ((datasets.terminalBook window episode.upTokenId).bind QuoteRow.bestBidScaled)
      ((datasets.terminalBook window episode.downTokenId).bind QuoteRow.bestBidScaled) =
        some winner) :
    (winner = episode.upTokenId ∧ Collapses datasets window episode.upTokenId available ∧
      LosesBids datasets window episode.downTokenId available) ∨
    (winner = episode.downTokenId ∧ Collapses datasets window episode.downTokenId available ∧
      LosesBids datasets window episode.upTokenId available) := by
  obtain ⟨last, found⟩ := Option.isSome_iff_exists.mp (terminal_isSome rfl rfl won)
  have received := combined_max_le found (after last (made.terminal.trans found))
  have quoted {token : String} {quote : QuoteRow}
      (le : ∀ t, (datasets.terminalBook window token).map QuoteRow.receivedUtcNs = some t →
        t ≤ available) (found : datasets.terminalBook window token = some quote) :
      quote.receivedUtcNs ≤ available := le _ (by rw [found]; rfl)
  have collapses {token : String}
      (le : ∀ t, (datasets.terminalBook window token).map QuoteRow.receivedUtcNs = some t →
        t ≤ available)
      (high : ∃ bid, (datasets.terminalBook window token).bind QuoteRow.bestBidScaled = some bid ∧
        settledBidScaled ≤ bid) : Collapses datasets window token available := by
    obtain ⟨bid, shown, high⟩ := high
    obtain ⟨quote, found, bids⟩ := Option.bind_eq_some_iff.mp shown
    exact ⟨quote, bid, found, quoted le found, bids, high⟩
  have loses {token : String}
      (le : ∀ t, (datasets.terminalBook window token).map QuoteRow.receivedUtcNs = some t →
        t ≤ available)
      (low : ∀ bid, (datasets.terminalBook window token).bind QuoteRow.bestBidScaled = some bid →
        bid ≤ settledAskScaled) : LosesBids datasets window token available := by
    intro quote found
    exact ⟨quoted le found, fun bid bids => low bid (by rw [found]; exact bids)⟩
  rcases winnerFromTerminalBook_spec won with ⟨same, high, low⟩ | ⟨same, high, low⟩
  · exact .inl ⟨same, collapses received.1 high, loses received.2 low⟩
  · exact .inr ⟨same, collapses received.2 high, loses received.1 low⟩

theorem supports (observed : 0 ≤ window.postEndNs) (listed : market.row ∈ datasets.markets)
    {available : ℤ}
    (found : resolutionAvailableTime window episode.winnerSource episode.endUtcNs times =
      some available) :
    Supports datasets window episode winner available episode.winnerSource := by
  have determines := made.determines
  obtain ⟨after, authoritative, gamma, terminal⟩ := resolutionAvailableTime_spec observed found
  cases source : episode.winnerSource with
  | marketResolution =>
    rw [source] at determines
    obtain ⟨row, member, -, first⟩ := made.recorded determines
    obtain ⟨present, same⟩ := List.mem_filter.mp member
    exact ⟨row, present, of_decide_eq_true same, authoritative source _ first⟩
  | gamma =>
    rw [source] at determines
    refine ⟨market.row, listed, made.condition.symm, ?_, made.gamma ▸ gamma source⟩
    exact (Option.filter_eq_some_iff.mp determines.2).1
  | terminalBook =>
    rw [source] at determines
    refine ⟨made.supports_terminal (terminal source) determines.2.1, fun price shown => ?_⟩
    exact (determines.2.2 _ (by rw [winnerFromReference, shown]; rfl)).symm
  | referencePrice =>
    rw [source] at determines
    obtain ⟨price, shown, same⟩ := Option.map_eq_some_iff.mp determines.2
    obtain ⟨opened, openAge, closed, closeAge⟩ :=
      referencePrice_spec (made.reference.symm.trans shown)
    rw [← made.start] at opened openAge
    rw [← made.finish] at closed closeAge
    exact ⟨price, shown, same.symm, opened, openAge, closed, closeAge, closed.trans after⟩
  | ambiguous =>
    rw [source] at determines
    exact determines.elim

end MadeOf

/-- The winner of an episode whose winner is determined. -/
theorem episodeOf_madeOf
    (determined : (datasets.episodeOf window requireFullWindow gaps market).winnerSource ≠
      .ambiguous) :
    ∃ winner times, MadeOf datasets window market
        (datasets.episodeOf window requireFullWindow gaps market) winner times ∧
      (winner = market.upTokenId ∨ winner = market.downTokenId) ∧
      (datasets.episodeOf window requireFullWindow gaps market).winnerTokenId = some winner ∧
      (datasets.episodeOf window requireFullWindow gaps market).winnerOutcome =
        some (if winner = market.upTokenId then "UP" else "DOWN") ∧
      (datasets.episodeOf window requireFullWindow gaps market).resolutionReceivedUtcNs =
        resolutionAvailableTime window
          (datasets.episodeOf window requireFullWindow gaps market).winnerSource
          market.row.marketEndUtcNs times := by
  obtain ⟨agreed, winner, own, won, determines⟩ := resolveWinner_determines determined
  refine ⟨winner, _, ⟨rfl, rfl, rfl, rfl, agreed, determines, rfl, rfl, rfl⟩, own, won, ?_, rfl⟩
  change Option.map _ (resolveWinner _ _ _ _ _ _ _).token = _
  rw [won]
  rfl

theorem bookTimes_of_coverage {token : String} {cover : TokenCoverage} {start finish : ℤ}
    (found : datasets.coverage token = some cover)
    (full : requireFullWindow → cover.first ≤ start ∧ finish ≤ cover.last) :
    datasets.bookTimes token ≠ [] ∧
      (requireFullWindow → (∃ time ∈ datasets.bookTimes token, time ≤ start) ∧
        ∃ time ∈ datasets.bookTimes token, finish ≤ time) := by
  obtain ⟨first, last⟩ := coverage_spec found
  exact ⟨List.ne_nil_of_mem first, fun required =>
    ⟨⟨_, first, (full required).1⟩, _, last, (full required).2⟩⟩

/-- Every eligible episode of an index is grounded in the datasets. -/
theorem build_grounded (observed : 0 ≤ window.postEndNs) :
    ∀ episode ∈ datasets.build window requireFullWindow startUtcNs endUtcNs, episode.eligible →
      Grounded datasets window requireFullWindow episode := by
  intro episode member eligible
  obtain ⟨market, listing, rfl⟩ := List.mem_map.mp (mem_sortByKey.mp member)
  obtain ⟨listed, -, -, -, -, -⟩ := mem_listings listing
  obtain ⟨sides, determined, blocking, gap, full⟩ :=
    exclusionReason_none (Option.isNone_iff_eq_none.mp eligible)
  obtain ⟨winner, times, made, own, won, outcome, received⟩ := episodeOf_madeOf determined
  refine ⟨?_, ?_, ?_, ?_, ?_⟩
  · obtain ⟨available, found⟩ := made.available
    refine ⟨winner, available, won, own, outcome, received.trans found, ?_, ?_⟩
    · exact (resolutionAvailableTime_spec observed found).1
    · exact made.supports observed listed found
  · intro row member same
    rw [won, made.uncontradicted row (List.mem_filter.mpr ⟨member, decide_eq_true same⟩)]
  · obtain ⟨up, upFound⟩ := Option.isSome_iff_exists.mp sides.1
    obtain ⟨down, downFound⟩ := Option.isSome_iff_exists.mp sides.2
    have within : requireFullWindow → max up.first down.first ≤ market.row.marketStartUtcNs ∧
        market.row.marketEndUtcNs ≤ min up.last down.last := fun required => by
      simpa [upFound, downFound, combined] using full required
    rintro token (rfl | rfl)
    · exact bookTimes_of_coverage upFound fun required =>
        ⟨(le_max_left _ _).trans (within required).1, (within required).2.trans (min_le_left _ _)⟩
    · exact bookTimes_of_coverage downFound fun required =>
        ⟨(le_max_right _ _).trans (within required).1, (within required).2.trans (min_le_right _ _)⟩
  · refine ⟨market, ⟨rfl, rfl, rfl⟩, rfl, rfl, fun row member error => ?_⟩
    by_contra replay
    have blocked : row ∈ ((datasets.qualityRows market).filter QualityRow.isError).filter
        fun row => !row.replayEligible :=
      List.mem_filter.mpr ⟨List.mem_filter.mpr ⟨member, error⟩, by simpa using replay⟩
    exact List.ne_nil_of_mem blocked (List.length_eq_zero_iff.mp blocking)
  · refine ⟨market.row.schedule, ⟨rfl, rfl, rfl⟩, fun interval recorded => ?_⟩
    have counted := @connectionGapCounts_eq datasets.connectionEvents market.row.schedule
      ((datasets.listings startUtcNs endUtcNs).map fun market => market.row.schedule)
      (by rw [List.map_map]; exact listings_distinct) (List.mem_map_of_mem listing)
    have none := counted.symm.trans gap
    exact Bool.eq_false_iff.mpr (List.countP_eq_zero.mp none interval recorded)

/-- A market whose losing side was last quoted at four cents, with a recorded resolution. -/
def settledDatasets : IndexDatasets where
  markets := [{
    conditionId := "0xc"
    marketSlug := "btc-updown-15m-0"
    marketStartUtcNs := 0
    marketEndUtcNs := 900
    start_le_end := by decide
    upTokenId := some "up"
    downTokenId := some "down"
    tickSizeScaled := 10000
    minimumOrderSizeScaled := 5000000
    winningTokenId := none
    discoveredUtcNs := -100
    resolvedUtcNs := none }]
  bookSnapshots := some [⟨"up", -5⟩, ⟨"down", -4⟩]
  bookUpdates := [⟨"up", 901⟩, ⟨"down", 902⟩]
  topOfBook := [⟨"0xc", "up", some 980000, 901⟩, ⟨"0xc", "down", some 40000, 902⟩]
  btcPrices := []
  marketResolutions := [⟨"0xc", "up", 950⟩, ⟨"0xc", "up", 970⟩]
  dataQualityEvents := []
  connectionEvents := []
  venueTerms := fun _ => ⟨none, none, none⟩

theorem build_grounded_settled :
    ∃ episode ∈ settledDatasets.build {} true none none,
      episode.winnerTokenId = some "up" ∧ episode.resolutionReceivedUtcNs = some 950 ∧
        Grounded settledDatasets {} true episode := by
  have grounded := @build_grounded settledDatasets {} true none none (by decide)
  have built : (settledDatasets.build {} true none none).map (fun episode =>
      (episode.eligible, episode.winnerTokenId, episode.resolutionReceivedUtcNs)) =
        [(true, some "up", some 950)] := by decide +kernel
  obtain ⟨episode, only⟩ := List.map_eq_singleton_iff.mp built
  have member : episode ∈ settledDatasets.build {} true none none := by rw [only.1]; simp
  obtain ⟨eligible, winner, received⟩ := Prod.mk.inj only.2 |>.imp_right Prod.mk.inj
  exact ⟨episode, member, winner, received, grounded episode member eligible⟩

end IndexDatasets

end PolymarketBt
