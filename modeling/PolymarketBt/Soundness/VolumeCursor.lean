import PolymarketBt.Model.VolumeCursor
import PolymarketBt.Machine.Loop
import PolymarketBt.ToMathlib.ListSplits

/-! # The volume cursor sums each print once

The position of the cursor is the number of prints at or before its instant, and its volume is the
batch sum up to it. An advance adds the prints between two such counts, so ties, repeated calls and
the order of the intermediate calls do not show in what it returns.
-/

namespace PolymarketBt

open RaisingMethod

namespace TradeColumns

variable {Token : Type} {columns : TradeColumns Token} {tokenIndex : Token}

/-- The trades of the columns, one by one: instant, token and size. -/
def trades (columns : TradeColumns Token) : List (ℤ × Token × ℤ) :=
  columns.timestampsUtcNs.zip (columns.tokenIndices.zip columns.sizesScaled)

/-- The volume of one token between two instants, both included. -/
def batchVolume [DecidableEq Token] (columns : TradeColumns Token) (tokenIndex : Token) (startUtcNs endUtcNs : ℤ) : ℤ :=
  ((columns.trades.filter fun trade =>
    startUtcNs ≤ trade.1 ∧ trade.1 ≤ endUtcNs ∧ trade.2.1 = tokenIndex).map fun trade =>
      trade.2.2).sum

/-- Columns of one length. -/
def Aligned (columns : TradeColumns Token) : Prop :=
  columns.timestampsUtcNs.length = columns.tokenIndices.length ∧
    columns.tokenIndices.length = columns.sizesScaled.length

/-- What a cursor is opened on. -/
structure Sound (columns : TradeColumns Token) : Prop where
  aligned : columns.Aligned
  sorted : columns.timestampsUtcNs.Pairwise (· ≤ ·)

theorem Sound.stamps (sound : columns.Sound) :
    columns.trades.map Prod.fst = columns.timestampsUtcNs := by
  rw [trades, List.map_fst_zip]
  rw [List.length_zip, ← sound.aligned.2, min_self]
  exact sound.aligned.1.le

variable [DecidableEq Token]

/-- The sizes between two positions are the ones of the trades there. -/
theorem Aligned.sizesBetween_eq (aligned : columns.Aligned) (first last : ℕ) :
    columns.sizesBetween tokenIndex first last =
      (((columns.trades.take last).drop first).filter fun trade => trade.2.1 = tokenIndex).map
        fun trade => trade.2.2 := by
  have each (index : ℕ) : (if columns.tokenIndices[index]? = some tokenIndex then
      columns.sizesScaled[index]? else none) = (columns.trades[index]?).bind fun trade =>
        if trade.2.1 = tokenIndex then some trade.2.2 else none := by
    by_cases inside : index < columns.timestampsUtcNs.length
    · have tokens : index < columns.tokenIndices.length := aligned.1 ▸ inside
      have sizes : index < columns.sizesScaled.length := aligned.2 ▸ tokens
      simp [trades, inside, tokens, sizes]
    · have tokens : columns.tokenIndices.length ≤ index := aligned.1 ▸ not_lt.mp inside
      simp [trades, tokens]
  unfold sizesBetween
  simp only [each]
  rw [List.filterMap_range'_getElem?, List.drop_take, ← List.filterMap_eq_filter, List.map_filterMap]
  refine congrArg (fun pick => List.filterMap pick _) (funext fun trade => ?_)
  by_cases own : trade.2.1 = tokenIndex <;> simp [own]

omit [DecidableEq Token] in
theorem cursorFrom_eq_ok {startUtcNs : ℤ} {cursor : CausalVolumeCursor}
    (opened : columns.cursorFrom startUtcNs = .ok cursor) :
    columns.Sound ∧
      cursor = ⟨columns.timestampsUtcNs.bisectLeft startUtcNs, startUtcNs - 1, 0⟩ := by
  obtain ⟨_, aligned, opened⟩ := Except.bind_eq_ok.mp opened
  obtain ⟨_, sorted, opened⟩ := Except.bind_eq_ok.mp opened
  obtain ⟨_, _, opened⟩ := Except.bind_eq_ok.mp opened
  obtain rfl := Except.ok.inj opened
  have aligned : columns.Aligned := (require_eq_ok.mp aligned :)
  exact ⟨⟨aligned, List.isChain_iff_pairwise.mp (require_eq_ok.mp sorted)⟩, rfl⟩

/-! ## The invariant -/

/-- A cursor that has seen the prints from the start through its instant. -/
structure Seen (columns : TradeColumns Token) (tokenIndex : Token) (startUtcNs : ℤ)
    (cursor : CausalVolumeCursor) : Prop where
  started : startUtcNs - 1 ≤ cursor.lastUtcNs
  position : cursor.position = columns.timestampsUtcNs.bisectRight cursor.lastUtcNs
  volume : cursor.volumeScaled = columns.batchVolume tokenIndex startUtcNs cursor.lastUtcNs

theorem Sound.opens (sound : columns.Sound) (startUtcNs : ℤ) :
    columns.Seen tokenIndex startUtcNs
      ⟨columns.timestampsUtcNs.bisectLeft startUtcNs, startUtcNs - 1, 0⟩ := by
  refine ⟨le_rfl, ?_, ?_⟩
  · dsimp only
    rw [List.bisectLeft_eq_countP sound.sorted, List.bisectRight_eq_countP sound.sorted]
    simp only [Int.le_sub_one_iff]
  · have none : columns.trades.filter (fun trade => startUtcNs ≤ trade.1 ∧
        trade.1 ≤ startUtcNs - 1 ∧ trade.2.1 = tokenIndex) = [] := by
      rw [List.filter_eq_nil_iff]
      intro trade _ inside
      have inside := of_decide_eq_true inside
      omega
    rw [batchVolume, none]
    rfl

/-- The batch sum of an instant is the one of an earlier instant and the prints in between. -/
theorem Sound.batchVolume_add (sound : columns.Sound) {startUtcNs lastUtcNs nowUtcNs : ℤ}
    (started : startUtcNs - 1 ≤ lastUtcNs) (later : lastUtcNs ≤ nowUtcNs) :
    columns.batchVolume tokenIndex startUtcNs lastUtcNs +
        (columns.sizesBetween tokenIndex (columns.timestampsUtcNs.bisectRight lastUtcNs)
          (columns.timestampsUtcNs.bisectRight nowUtcNs)).sum =
      columns.batchVolume tokenIndex startUtcNs nowUtcNs := by
  have sorted : (columns.trades.map Prod.fst).Pairwise (· ≤ ·) := by
    rw [sound.stamps]
    exact sound.sorted
  have fresh := List.drop_take_bisectRight Prod.fst sorted later
  rw [sound.stamps] at fresh
  rw [sound.aligned.sizesBetween_eq, fresh]
  rw [List.filter_filter]
  refine List.sum_filter_add _ _ _ _ fun trade _ => ?_
  simp only [Bool.and_eq_true, decide_eq_true_eq]
  constructor
  · constructor
    · rintro (⟨start, early, own⟩ | ⟨own, late, now⟩)
      · exact ⟨start, early.trans later, own⟩
      · exact ⟨by omega, now, own⟩
    · rintro ⟨start, now, own⟩
      rcases le_or_gt trade.1 lastUtcNs with early | late
      · exact .inl ⟨start, early, own⟩
      · exact .inr ⟨own, late, now⟩
  · rintro ⟨⟨_, early, _⟩, _, late, _⟩
    exact absurd early (not_le.mpr late)

/-! ## One call and many -/

/-- A call that does not go back returns the batch sum; one that does raises and changes nothing. -/
theorem Seen.advance {startUtcNs : ℤ} {cursor : CausalVolumeCursor} (sound : columns.Sound)
    (seen : columns.Seen tokenIndex startUtcNs cursor) (nowUtcNs : ℤ) :
    (cursor.lastUtcNs ≤ nowUtcNs → ∃ after,
      (columns.advance tokenIndex nowUtcNs).perform cursor =
        (.ok (columns.batchVolume tokenIndex startUtcNs nowUtcNs), after) ∧
      columns.Seen tokenIndex startUtcNs after ∧ after.lastUtcNs = nowUtcNs) ∧
    (nowUtcNs < cursor.lastUtcNs → (columns.advance tokenIndex nowUtcNs).perform cursor =
      (.error (.valueError "causal volume cursor cannot move backwards"), cursor)) := by
  unfold TradeColumns.advance
  rw [perform_get_bind, perform_raising_bind]
  constructor
  · intro later
    have behind : columns.timestampsUtcNs.bisectRight cursor.lastUtcNs ≤
        columns.timestampsUtcNs.bisectRight nowUtcNs := by
      rw [List.bisectRight_eq_countP sound.sorted, List.bisectRight_eq_countP sound.sorted]
      refine List.countP_mono_left fun stamp _ early => ?_
      exact decide_eq_true ((of_decide_eq_true early).trans later)
    have last : columns.timestampsUtcNs.bisectRightFrom cursor.position nowUtcNs =
        columns.timestampsUtcNs.bisectRight nowUtcNs := by
      rw [seen.position, List.bisectRightFrom_eq_max sound.sorted,
        ← List.bisectRight_eq_countP sound.sorted, max_eq_right behind]
    have total := @Sound.batchVolume_add _ _ tokenIndex _ sound _ _ _ seen.started later
    rw [← seen.position, ← last, ← seen.volume] at total
    rw [require_ok later, ← total]
    exact ⟨⟨_, nowUtcNs, _⟩, rfl, ⟨seen.started.trans later, last, total⟩, rfl⟩
  · intro back
    rw [require, if_neg (not_le.mpr back)]

/-- Advancing through ordered instants keeps the invariant from call to call. -/
theorem Seen.advanceAll {startUtcNs : ℤ} {cursor : CausalVolumeCursor} (sound : columns.Sound)
    (seen : columns.Seen tokenIndex startUtcNs cursor) {instants : List ℤ}
    (ordered : (cursor.lastUtcNs :: instants).Pairwise (· ≤ ·)) :
    (columns.advanceAll tokenIndex instants cursor).1 =
        instants.map (fun nowUtcNs => .ok (columns.batchVolume tokenIndex startUtcNs nowUtcNs)) ∧
      ∀ nowUtcNs < (cursor.lastUtcNs :: instants).getLast (List.cons_ne_nil _ _),
        (columns.advance tokenIndex nowUtcNs).perform
            (columns.advanceAll tokenIndex instants cursor).2 =
          (.error (.valueError "causal volume cursor cannot move backwards"),
            (columns.advanceAll tokenIndex instants cursor).2) := by
  induction instants generalizing cursor with
  | nil => exact ⟨rfl, (seen.advance sound · |>.2)⟩
  | cons first later ih =>
    obtain ⟨ahead, rest⟩ := List.pairwise_cons.mp ordered
    obtain ⟨after, ran, seenAfter, stamped⟩ :=
      (seen.advance sound first).1 (ahead first List.mem_cons_self)
    have step := ih seenAfter (stamped ▸ rest)
    rw [stamped] at step
    simp only [TradeColumns.advanceAll, ran, List.map_cons, step.1, true_and]
    rw [List.getLast_cons (List.cons_ne_nil _ _)]
    exact step.2

/-- A cursor opened on a tape and advanced through instants that do not go back, the first no
earlier than one before the start, returns the batch sum of every instant; an advance before the last
of them raises and leaves the cursor as it is. -/
theorem advances_eq_batch {startUtcNs : ℤ} {cursor : CausalVolumeCursor}
    (opened : columns.cursorFrom startUtcNs = .ok cursor) {instants : List ℤ}
    (ordered : ((startUtcNs - 1) :: instants).Pairwise (· ≤ ·)) :
    (columns.advanceAll tokenIndex instants cursor).1 =
        instants.map (fun nowUtcNs => .ok (columns.batchVolume tokenIndex startUtcNs nowUtcNs)) ∧
      ∀ nowUtcNs < ((startUtcNs - 1) :: instants).getLast (List.cons_ne_nil _ _),
        (columns.advance tokenIndex nowUtcNs).perform
            (columns.advanceAll tokenIndex instants cursor).2 =
          (.error (.valueError "causal volume cursor cannot move backwards"),
            (columns.advanceAll tokenIndex instants cursor).2) := by
  obtain ⟨sound, rfl⟩ := cursorFrom_eq_ok opened
  exact (sound.opens startUtcNs).advanceAll sound ordered

/-- Two prints of one instant, one of another token and one before the start. -/
def crowdedColumns : TradeColumns ℕ :=
  ⟨[50, 100, 100, 100, 160, 160, 200], [0, 0, 1, 0, 0, 0, 0], [9, 1, 2, 4, 8, 16, 32]⟩

theorem advances_eq_batch_at_ties :
    (crowdedColumns.advanceAll 0 [99, 100, 100, 160, 300] ⟨1, 99, 0⟩).1 =
      [.ok 0, .ok 5, .ok 5, .ok 29, .ok 61] := by
  have opened : crowdedColumns.cursorFrom 100 = .ok ⟨1, 99, 0⟩ := by decide
  exact (advances_eq_batch opened (by decide)).1

end TradeColumns

/-! ## The cursor of a session -/

/-- The columns of the prints of a tape. -/
def columnsOf (trades : List TradePrint) : TradeColumns TokenIndex :=
  ⟨tradeStamps trades, trades.map TradePrint.tokenIndex, trades.map TradePrint.sizeScaled⟩

namespace CausalVolumeCursor

variable {trades : List TradePrint}

theorem columnsOf_aligned : (columnsOf trades).Aligned := by
  simp [TradeColumns.Aligned, columnsOf, tradeStamps]

theorem init_eq (startUtcNs : ℤ) :
    init trades startUtcNs = (columnsOf trades).cursorFrom startUtcNs := by
  have aligned := @columnsOf_aligned trades
  unfold TradeColumns.Aligned at aligned
  unfold TradeColumns.cursorFrom
  rw [require_ok aligned]
  simp only [init, columnsOf, List.forall_mem_map]
  rfl

theorem columnsOf_sizesBetween (tokenIndex : TokenIndex) (first last : ℕ) :
    (columnsOf trades).sizesBetween tokenIndex first last =
      (((trades.take last).drop first).filter fun trade => trade.tokenIndex = tokenIndex).map
        TradePrint.sizeScaled := by
  have rows : (columnsOf trades).trades =
      trades.map fun trade => (trade.receivedUtcNs, trade.tokenIndex, trade.sizeScaled) := by
    simp [TradeColumns.trades, columnsOf, tradeStamps, List.zip_map']
  rw [columnsOf_aligned.sizesBetween_eq, rows, ← List.map_take, ← List.map_drop, List.filter_map,
    List.map_map]
  rfl

/-- The cursor a session keeps is the one over the columns of its tape. -/
theorem advance_eq (tokenIndex : TokenIndex) (cursor : CausalVolumeCursor) (nowUtcNs : ℤ) :
    ((columnsOf trades).advance tokenIndex nowUtcNs).perform cursor =
      match cursor.advance trades tokenIndex nowUtcNs with
      | .ok after => (.ok after.volumeScaled, after)
      | .error raised => (.error raised, cursor) := by
  unfold TradeColumns.advance CausalVolumeCursor.advance
  rw [perform_get_bind, perform_raising_bind]
  by_cases later : cursor.lastUtcNs ≤ nowUtcNs
  · rw [require_ok later]
    simp only [columnsOf_sizesBetween]
    rfl
  · rw [require, if_neg later]
    rfl

end CausalVolumeCursor

end PolymarketBt
