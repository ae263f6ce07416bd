import PolymarketBt.Proofs.TapeBuild

/-! # A tape never shows a wrong book as tradable

A lookup in the finished tape sees the state of the build after exactly the events received by then.
Where the simulator would trade, no span of the token was open in that state, so the row shows the
reconstructed book. A tape of depth zero is excluded: it keeps the levels as depth beyond, and its
quote columns are empty.
-/

namespace PolymarketBt

namespace TapeBuilder

variable {builder : TapeBuilder} {episode : Episode}

/-- A row the simulator may trade on shows exactly the book reconstructed from the events received
by then, and that book is valid. -/
theorem tradable_row_shows_reconstruction (levels : builder.depth ≠ some 0)
    {events : List BookEvent} {trades : List TradePrint} {tape : EpisodeTape}
    (ordered : events.Pairwise fun earlier later => earlier.receivedUtcNs ≤ later.receivedUtcNs)
    (built : builder.build episode events trades = .ok tape) {tokenIndex : TokenIndex}
    {timestampNs : ℤ} {row : TapeRow} {position : ℕ}
    (met : rowAt (tokenRows tape tokenIndex) timestampNs = some (row, position))
    (traded : tradable tape tokenIndex row timestampNs = true) :
    ∃ book, (BookReconstructor.init.absorbAll
        (events.filter fun event => event.receivedUtcNs ≤ timestampNs)).books
          (tape.tokenIdOf tokenIndex) = some book ∧
      book.valid = true ∧ ShowsBook builder.depth row book := by
  obtain ⟨final, scanned, finished⟩ := Except.bind_eq_ok.mp built
  obtain rfl := Except.pure_eq_ok.mp finished
  have split := scanned
  rw [received_split ordered timestampNs] at split
  obtain ⟨middle, first, second⟩ := scan_append split
  have tracks := Tracks.of_scan levels first
  have later : ∀ event ∈ events.filter (fun event => !decide (event.receivedUtcNs ≤ timestampNs)),
      timestampNs < event.receivedUtcNs := by
    intro event member
    simpa using (List.mem_filter.mp member).2
  obtain ⟨laterRows, rows, stamps⟩ := foldlM_rows second
  have laterStamps : ∀ row ∈ laterRows, timestampNs < row.receivedUtcNs := by
    intro row member
    obtain ⟨event, inLater, same⟩ := stamps row member
    exact same ▸ later event inLater
  have before : ∀ row ∈ middle.rows, row.receivedUtcNs ≤ timestampNs := by
    intro row member
    obtain ⟨event, inPast, same⟩ := List.mem_map.mp
      (tracks.stamps.subset (List.mem_map_of_mem member))
    rw [← same]
    simpa using (List.mem_filter.mp inPast).2
  have last : lastRow middle.rows tokenIndex = some row :=
    lastRow_of_rowAt ⟨_, _, final.rows, _, _⟩
      ((Tracks.of_scan levels scanned).ordered ordered) rows before laterStamps position met
  rw [tradable, Bool.and_eq_true, Bool.not_eq_true'] at traded
  obtain ⟨valid, certain⟩ := traded
  have settled : Settled middle (episode.tokenIdOf tokenIndex) := by
    intro span member same
    obtain ⟨unended, started⟩ := tracks.opened span member
    obtain ⟨event, inPast, start⟩ := List.mem_map.mp started
    have covers : span.covers (episode.tokenIdOf tokenIndex) timestampNs = true := by
      have received : event.receivedUtcNs ≤ timestampNs := by
        simpa using (List.mem_filter.mp inPast).2
      simp [UncertaintySpan.covers, same, unended, ← start, received]
    obtain ⟨other, exposed, covered⟩ :=
      exposed_foldlM second later ⟨span, List.mem_append_right _ member, covers⟩
    simp only [EpisodeTape.isUncertain, List.any_eq_false] at certain
    exact certain other exposed covered
  obtain ⟨inRows, index⟩ := mem_of_lastRow last
  have shown := tracks.current tokenIndex (index ▸ tracks.indexed row inRows) settled
  rw [Shown, last, tracks.reconstructor] at shown
  split at shown
  · cases shown
  · next book stored =>
    obtain ⟨_, same, validity, shows⟩ := shown
    obtain rfl := Option.some.inj same
    exact ⟨book, stored, validity ▸ valid, shows⟩

/-- One market of fifteen minutes. -/
def exampleEpisode : Episode where
  conditionId := "condition"
  marketSlug := "btc-15m"
  startUtcNs := 0
  endUtcNs := 900000000000
  upTokenId := "up"
  downTokenId := "down"
  tickSizeScaled := 10000
  minimumOrderSizeScaled := 0
  winnerTokenId := some "up"
  winnerOutcome := some "UP"
  eligible := true
  exclusionReason := none
  feeRate := none
  feeExponent := none
  takerOrderDelayMs := none

/-- One snapshot of its up token, with one level on each side. -/
def exampleSnapshot : BookSnapshot where
  sequence := 1
  source := "clob_rest"
  conditionId := "condition"
  tokenId := "up"
  outcome := "UP"
  receivedUtcNs := 10
  bookHash := none
  tickSizeScaled := 10000
  minimumOrderSizeScaled := 0
  bids := [⟨780000, 5000000⟩]
  asks := [⟨800000, 7000000⟩]

/-- The row a tape of the given depth holds for the snapshot. -/
def exampleRow (depth : Option ℕ) (bestBid bestAsk : ℤ) : TapeRow where
  receivedUtcNs := 10
  tokenIndex := .up
  eventKind := .snapshot
  eventSide := none
  eventPriceScaled := 0
  bookValid := true
  bestBidColumn := bestBid
  bestAskColumn := bestAsk
  bids := .store depth [(780000, 5000000)]
  asks := .store depth [(800000, 7000000)]

theorem tradable_row_shows_reconstruction_snapshot :
    ∃ book, (BookReconstructor.init.absorbAll [.snapshot exampleSnapshot]).books "up" = some book ∧
      book.valid = true ∧ ShowsBook none (exampleRow none 780000 800000) book := by
  have built : (TapeBuilder.mk none).build exampleEpisode [.snapshot exampleSnapshot] [] =
      .ok ⟨exampleEpisode, none, [exampleRow none 780000 800000], [], []⟩ := by decide +kernel
  have met : rowAt (tokenRows ⟨exampleEpisode, none, [exampleRow none 780000 800000], [], []⟩ .up) 20 =
      some (exampleRow none 780000 800000, 0) := by decide +kernel
  exact tradable_row_shows_reconstruction (by decide) (by simp) built met (by decide +kernel)

/-- A tape of no levels keeps the book but loses its quotes. -/
theorem zero_depth_hides_quotes :
    ¬ ∀ (builder : TapeBuilder) (episode : Episode) (events : List BookEvent)
      (trades : List TradePrint) (tape : EpisodeTape) (tokenIndex : TokenIndex) (timestampNs : ℤ)
      (row : TapeRow) (position : ℕ),
      events.Pairwise (fun earlier later => earlier.receivedUtcNs ≤ later.receivedUtcNs) →
      builder.build episode events trades = .ok tape →
      rowAt (tokenRows tape tokenIndex) timestampNs = some (row, position) →
      tradable tape tokenIndex row timestampNs = true →
      ∃ book, (BookReconstructor.init.absorbAll
          (events.filter fun event => event.receivedUtcNs ≤ timestampNs)).books
            (tape.tokenIdOf tokenIndex) = some book ∧
        book.valid = true ∧ ShowsBook builder.depth row book := by
  intro claim
  obtain ⟨book, stored, _, shows⟩ := claim ⟨some 0⟩ exampleEpisode [.snapshot exampleSnapshot] []
    ⟨exampleEpisode, some 0, [exampleRow (some 0) noQuote noQuote], [], []⟩ .up 20
    (exampleRow (some 0) noQuote noQuote) 0 (by simp) (by decide +kernel) (by decide +kernel)
    (by decide +kernel)
  have quoted : ((BookReconstructor.init.absorbAll [.snapshot exampleSnapshot]).books "up").map
      OrderBook.bestBid = some (some 780000) := by decide +kernel
  have lost : (exampleRow (some 0) noQuote noQuote).bestBidScaled = none := by decide
  change (BookReconstructor.init.absorbAll [.snapshot exampleSnapshot]).books "up" = some book
    at stored
  rw [stored, Option.map_some, ← shows.bestBid, lost] at quoted
  cases quoted

end TapeBuilder

end PolymarketBt
