import PolymarketBt.Model.FastSim.Send

/-! # Looking up the row an order meets

On rows in receipt order the binary search finds the last row at or before an instant. Every later
argument about a lookup uses that equation: two tapes with the same rows up to an instant answer
every lookup up to it alike.
-/

namespace PolymarketBt

/-- Rows stand in receipt order. -/
def EpisodeTape.Ordered (tape : EpisodeTape) : Prop :=
  tape.rows.Pairwise fun earlier later => earlier.receivedUtcNs ≤ later.receivedUtcNs

theorem tokenRows_map_fst (tape : EpisodeTape) (tokenIndex : TokenIndex) :
    (tokenRows tape tokenIndex).map Prod.fst =
      tape.rows.filter fun row => row.tokenIndex = tokenIndex := by
  have project : tape.rows = tape.rows.zipIdx.map Prod.fst := by simp
  conv_rhs => rw [project, List.filter_map]
  rfl

theorem stamps_sorted {tape : EpisodeTape} (ordered : tape.Ordered) (tokenIndex : TokenIndex) :
    (stamps (tokenRows tape tokenIndex)).Pairwise (· ≤ ·) := by
  have project : stamps (tokenRows tape tokenIndex) =
      ((tokenRows tape tokenIndex).map Prod.fst).map TapeRow.receivedUtcNs := by
    simp [stamps, List.map_map]
  rw [project, tokenRows_map_fst, List.pairwise_map]
  exact ordered.filter _

/-- Positions of a token's rows increase strictly. -/
theorem positions_sorted (tape : EpisodeTape) (tokenIndex : TokenIndex) :
    (tokenRows tape tokenIndex).Pairwise fun earlier later => earlier.2 < later.2 := by
  refine List.Pairwise.filter _ ?_
  rw [← List.pairwise_map (f := Prod.snd) (R := (· < ·))]
  simpa [List.range_eq_range'] using List.pairwise_lt_range' (s := 0) (n := tape.rows.length)

/-- The row met at an instant is the last one received by then. -/
theorem rowAt_eq_getLast? {rows : List (TapeRow × ℕ)} (sorted : (stamps rows).Pairwise (· ≤ ·))
    (timestampNs : ℤ) :
    rowAt rows timestampNs =
      (rows.filter fun entry => entry.1.receivedUtcNs ≤ timestampNs).getLast? := by
  rw [← List.take_bisectRight (fun entry : TapeRow × ℕ => entry.1.receivedUtcNs) sorted timestampNs,
    List.getLast?_take]
  change rowAt rows timestampNs =
    if (stamps rows).bisectRight timestampNs = 0 then none
    else rows[(stamps rows).bisectRight timestampNs - 1]?.or rows.getLast?
  have bound : (stamps rows).bisectRight timestampNs ≤ rows.length := by
    rw [List.bisectRight_eq_countP sorted]
    exact List.countP_le_length.trans (by simp [stamps])
  unfold rowAt
  cases found : (stamps rows).bisectRight timestampNs with
  | zero => rfl
  | succ position =>
    have inside : position < rows.length := by omega
    simp [List.getElem?_eq_getElem inside]

/-- The rows of a token after one position and before another. -/
def rowsBetween (rows : List (TapeRow × ℕ)) (after : ℤ) (before : ℕ) : List TapeRow :=
  (rows.filter fun entry => decide (after < (entry.2 : ℤ) ∧ entry.2 < before)).map Prod.fst

/-- Reconciling replays exactly the rows between the cursor and the row, none when it is behind. -/
theorem reconcileSelfImpact_consumed (rows : List (TapeRow × ℕ))
    (sorted : rows.Pairwise fun earlier later => earlier.2 < later.2) (tokenIndex : TokenIndex)
    (through : ℕ) (context : SimContext) :
    (reconcileSelfImpact rows tokenIndex through context).consumed =
      (rowsBetween rows (context.impactCursor tokenIndex) (through + 1)).foldl (replenish tokenIndex)
        context.consumed := by
  unfold reconcileSelfImpact rowsBetween
  split
  · next behind =>
    have none : rows.filter (fun entry => decide (context.impactCursor tokenIndex < (entry.2 : ℤ) ∧
        entry.2 < through + 1)) = [] := by
      rw [List.filter_eq_nil_iff]
      intro entry _
      simp only [decide_eq_true_eq, not_and]
      omega
    rw [none]
    rfl
  · next ahead =>
    have monotone : (rows.map fun entry => (entry.2 : ℤ)).Pairwise (· ≤ ·) := by
      rw [List.pairwise_map]
      exact sorted.imp fun before => by omega
    dsimp only
    rw [List.drop_take_bisectRight (fun entry : TapeRow × ℕ => (entry.2 : ℤ)) monotone (by omega)]
    simp only [Nat.cast_le, Nat.lt_succ_iff]

theorem reconcileSelfImpact_cursor (rows : List (TapeRow × ℕ)) (tokenIndex : TokenIndex)
    (through : ℕ) (context : SimContext) :
    (reconcileSelfImpact rows tokenIndex through context).impactCursor tokenIndex =
      max (context.impactCursor tokenIndex) through := by
  unfold reconcileSelfImpact
  split
  · next behind => exact (max_eq_left behind).symm
  · next ahead =>
    dsimp only
    rw [Function.update_self]
    exact (max_eq_right (by omega)).symm

@[simp] theorem reconcileSelfImpact_draw (rows : List (TapeRow × ℕ)) (tokenIndex : TokenIndex)
    (through : ℕ) (context : SimContext) :
    (reconcileSelfImpact rows tokenIndex through context).draw = context.draw := by
  unfold reconcileSelfImpact
  split <;> rfl

/-- Rows up to the end of a prefix of the tape are read off that prefix. -/
theorem rowsBetween_split {tape : EpisodeTape} {earlier later : List TapeRow}
    (split : tape.rows = earlier ++ later) (tokenIndex : TokenIndex) (after : ℤ) :
    rowsBetween (tokenRows tape tokenIndex) after earlier.length =
      ((earlier.zipIdx.filter fun entry => entry.1.tokenIndex = tokenIndex).filter
        fun entry => decide (after < (entry.2 : ℤ))).map Prod.fst := by
  unfold rowsBetween tokenRows
  rw [split, List.zipIdx_append, List.filter_append, List.filter_append, List.map_append]
  have beyond : ((later.zipIdx (0 + earlier.length)).filter
      fun entry => entry.1.tokenIndex = tokenIndex).filter
      (fun entry => decide (after < (entry.2 : ℤ) ∧ entry.2 < earlier.length)) = [] := by
    rw [List.filter_eq_nil_iff]
    intro entry member
    have position := List.le_snd_of_mem_zipIdx (List.mem_filter.mp member).1
    simp only [decide_eq_true_eq, not_and]
    omega
  rw [beyond, List.map_nil, List.append_nil]
  refine congrArg _ (List.filter_congr fun entry member => ?_)
  have position := List.snd_lt_of_mem_zipIdx (List.mem_filter.mp member).1
  simp only [decide_eq_decide, and_iff_left_iff_imp]
  omega

/-- One more row extends the rows of its own token, and of no other. -/
theorem rowsBetween_append {tape : EpisodeTape} {earlier later : List TapeRow} {row : TapeRow}
    (split : tape.rows = (earlier ++ [row]) ++ later) (tokenIndex : TokenIndex) {after : ℤ}
    (behind : after < earlier.length) :
    rowsBetween (tokenRows tape tokenIndex) after (earlier ++ [row]).length =
      rowsBetween (tokenRows tape tokenIndex) after earlier.length ++
        if row.tokenIndex = tokenIndex then [row] else [] := by
  rw [rowsBetween_split split, rowsBetween_split (split.trans (List.append_assoc _ _ _))]
  rw [List.zipIdx_append, List.filter_append, List.filter_append, List.map_append]
  by_cases own : row.tokenIndex = tokenIndex
  · simp [own, behind]
  · simp [own]

/-- No row of the token lies after the one met at an instant and before a later one. -/
theorem position_le_of_rowAt {tape : EpisodeTape} (ordered : tape.Ordered) {rows later : List TapeRow}
    {timestampNs : ℤ} (split : tape.rows = rows ++ later)
    (before : ∀ row ∈ rows, row.receivedUtcNs ≤ timestampNs) {tokenIndex : TokenIndex}
    {met entry : TapeRow × ℕ} (found : rowAt (tokenRows tape tokenIndex) timestampNs = some met)
    (member : entry ∈ tokenRows tape tokenIndex) (inside : entry.2 < rows.length) :
    entry.2 ≤ met.2 := by
  rw [rowAt_eq_getLast? (stamps_sorted ordered tokenIndex)] at found
  have received : entry.1.receivedUtcNs ≤ timestampNs := by
    have stored := List.mem_zipIdx' (List.mem_filter.mp member).1
    refine before _ ?_
    rw [stored.2]
    simp only [split, List.getElem_append_left inside]
    exact List.getElem_mem inside
  have visible : entry ∈ (tokenRows tape tokenIndex).filter
      fun entry => decide (entry.1.receivedUtcNs ≤ timestampNs) :=
    List.mem_filter.mpr ⟨member, by simpa using received⟩
  have sorted := (positions_sorted tape tokenIndex).filter
    fun entry => decide (entry.1.receivedUtcNs ≤ timestampNs)
  obtain ⟨front, whole⟩ := List.getLast?_eq_some_iff.mp found
  rw [whole] at visible sorted
  rcases List.mem_append.mp visible with earlier | last
  · exact ((List.pairwise_append.mp sorted).2.2 _ earlier _ (List.mem_singleton_self _)).le
  · rw [List.mem_singleton.mp last]

/-- The row met at an instant lies in the rows received by then. -/
theorem position_lt_of_rowAt {tape : EpisodeTape} (ordered : tape.Ordered) {rows later : List TapeRow}
    {timestampNs : ℤ} (split : tape.rows = rows ++ later)
    (after : ∀ row ∈ later, timestampNs < row.receivedUtcNs) {tokenIndex : TokenIndex}
    {met : TapeRow × ℕ} (found : rowAt (tokenRows tape tokenIndex) timestampNs = some met) :
    met.2 < rows.length := by
  rw [rowAt_eq_getLast? (stamps_sorted ordered tokenIndex)] at found
  have visible := List.mem_filter.mp (List.mem_of_getLast? found)
  have received : met.1.receivedUtcNs ≤ timestampNs := by simpa using visible.2
  obtain ⟨inside, stored⟩ := List.mem_zipIdx' (List.mem_filter.mp visible.1).1
  by_contra outside
  have late : met.1 ∈ later := by
    rw [stored]
    simp only [split, List.getElem_append_right (not_lt.mp outside)]
    exact List.getElem_mem _
  exact absurd received (not_le.mpr (after _ late))

end PolymarketBt
