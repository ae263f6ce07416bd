import PolymarketBt.Model.Portfolio

/-! # Accounting of the portfolio

The effect of a fill and of a settlement on the cost of all positions, and the invariant of a
portfolio without short positions: no position has negative shares, and one without shares has no
cost.
-/

namespace PolymarketBt

namespace Portfolio

variable {portfolio : Portfolio} {fill : SimulatedFill} {outcome tokenId : String}
  {position : Position}

/-- No token has two positions. -/
def Distinct (portfolio : Portfolio) : Prop := (portfolio.positions.map Prod.fst).Nodup

/-- The cost of all positions. -/
def totalCost (portfolio : Portfolio) : ℤ :=
  (portfolio.positions.map fun entry => entry.2.costBasisScaled).sum

theorem Distinct.setPosition (distinct : portfolio.Distinct) (tokenId : String)
    (position : Position) : (portfolio.setPosition tokenId position).Distinct :=
  KeyedList.nodup_assign distinct

@[simp] theorem inventory_setPosition :
    (portfolio.setPosition tokenId position).inventory tokenId = position.sharesScaled := by
  simp [inventory, setPosition, KeyedList.lookup_assign_self]

@[simp] theorem inventory_setPosition_of_ne {other : String} (apart : other ≠ tokenId) :
    (portfolio.setPosition tokenId position).inventory other = portfolio.inventory other := by
  simp [inventory, setPosition, KeyedList.lookup_assign_of_ne apart]

theorem sharesScaled_positionFor :
    (portfolio.positionFor fill outcome).sharesScaled = portfolio.inventory fill.tokenId := by
  unfold positionFor inventory
  cases portfolio.positions.lookup fill.tokenId <;> rfl

/-- A change of a token's position changes the total by the difference of the costs. -/
theorem totalCost_setPosition (distinct : portfolio.Distinct) (fill : SimulatedFill)
    (outcome : String) (changed : Position) :
    (portfolio.setPosition fill.tokenId changed).totalCost =
      portfolio.totalCost - (portfolio.positionFor fill outcome).costBasisScaled +
        changed.costBasisScaled := by
  have sum := @KeyedList.sum_assign _ _ _ _ _ fill.tokenId changed _
    (fun entry : String × Position => entry.2.costBasisScaled) distinct
  have old : ((portfolio.positions.lookup fill.tokenId).map fun old => old.costBasisScaled).getD 0 =
      (portfolio.positionFor fill outcome).costBasisScaled := by
    unfold positionFor
    cases portfolio.positions.lookup fill.tokenId <;> rfl
  simp only [old] at sum
  unfold totalCost setPosition
  dsimp only
  omega

/-! ## Fills -/

/-- A fill is refused, bought or sold. -/
theorem applyFill_cases (portfolio : Portfolio) (fill : SimulatedFill) (outcome : String) :
    (∃ error, portfolio.applyFill fill outcome =
      (portfolio.setPosition fill.tokenId (portfolio.positionFor fill outcome), .error error)) ∨
    (fill.side = .buy ∧ (portfolio.allowNegativeCash = true ∨
        fill.notionalScaled + fill.feeScaled ≤ portfolio.availableCashScaled) ∧
      portfolio.applyFill fill outcome =
        ((portfolio.buyFill fill (portfolio.positionFor fill outcome)).recordFill fill, .ok ())) ∨
    (fill.side = .sell ∧ (portfolio.allowShortPositions = true ∨
        fill.sizeScaled ≤ portfolio.inventory fill.tokenId) ∧
      portfolio.applyFill fill outcome =
        ((portfolio.sellFill fill (portfolio.positionFor fill outcome)).recordFill fill, .ok ())) := by
  unfold applyFill
  cases side : fill.side with
  | buy =>
    dsimp only
    split
    · exact .inl ⟨_, rfl⟩
    · next covered =>
      refine .inr (.inl ⟨rfl, ?_, rfl⟩)
      rw [Bool.not_eq_true', not_and_or, not_lt, Bool.not_eq_false] at covered
      exact covered
  | sell =>
    dsimp only
    split
    · exact .inl ⟨_, rfl⟩
    · next covered =>
      refine .inr (.inr ⟨rfl, ?_, rfl⟩)
      rw [Bool.not_eq_true', not_and_or, not_lt, Bool.not_eq_false,
        sharesScaled_positionFor] at covered
      exact covered

theorem applyFill_buy (side : fill.side = .buy)
    (covered : fill.notionalScaled + fill.feeScaled ≤ portfolio.availableCashScaled) :
    portfolio.applyFill fill outcome =
      ((portfolio.buyFill fill (portfolio.positionFor fill outcome)).recordFill fill, .ok ()) := by
  simp only [applyFill, side]
  exact if_neg fun short => absurd covered (not_le.mpr short.2)

theorem applyFill_sell (side : fill.side = .sell)
    (covered : fill.sizeScaled ≤ portfolio.inventory fill.tokenId) :
    portfolio.applyFill fill outcome =
      ((portfolio.sellFill fill (portfolio.positionFor fill outcome)).recordFill fill, .ok ()) := by
  simp only [applyFill, side, sharesScaled_positionFor]
  exact if_neg fun short => absurd covered (not_le.mpr short.2)

theorem totalCost_buyFill (distinct : portfolio.Distinct) :
    ((portfolio.buyFill fill (portfolio.positionFor fill outcome)).recordFill fill).totalCost =
      portfolio.totalCost + fill.notionalScaled := by
  have changed := totalCost_setPosition distinct fill outcome
    { portfolio.positionFor fill outcome with
      sharesScaled := (portfolio.positionFor fill outcome).sharesScaled + fill.sizeScaled
      costBasisScaled := (portfolio.positionFor fill outcome).costBasisScaled + fill.notionalScaled }
  change (portfolio.setPosition fill.tokenId _).totalCost = _
  rw [changed]
  dsimp only
  omega

theorem totalCost_sellFill (distinct : portfolio.Distinct) :
    ((portfolio.sellFill fill (portfolio.positionFor fill outcome)).recordFill fill).totalCost =
      portfolio.totalCost - removedCost fill (portfolio.positionFor fill outcome) := by
  have changed := totalCost_setPosition distinct fill outcome
    { portfolio.positionFor fill outcome with
      sharesScaled := (portfolio.positionFor fill outcome).sharesScaled - fill.sizeScaled
      costBasisScaled := (portfolio.positionFor fill outcome).costBasisScaled -
        removedCost fill (portfolio.positionFor fill outcome) }
  change (portfolio.setPosition fill.tokenId _).totalCost = _
  rw [changed]
  dsimp only
  omega

theorem totalCost_refused (distinct : portfolio.Distinct) :
    (portfolio.setPosition fill.tokenId (portfolio.positionFor fill outcome)).totalCost =
      portfolio.totalCost := by
  rw [totalCost_setPosition distinct fill outcome]
  omega

/-! ## Settlement -/

variable {conditionId winningTokenId : String} {timestampNs : ℤ}

theorem map_fst_settlePosition (entries : List (String × Position)) :
    (entries.map (settlePosition conditionId)).map Prod.fst = entries.map Prod.fst := by
  rw [List.map_map]
  refine List.map_congr_left fun entry _ => ?_
  unfold settlePosition
  simp only [Function.comp_apply]
  split <;> rfl

theorem Distinct.settleMarket (distinct : portfolio.Distinct) :
    (portfolio.settleMarket conditionId winningTokenId timestampNs).1.Distinct := by
  unfold Distinct Portfolio.settleMarket
  rw [map_fst_settlePosition]
  exact distinct

/-- A settlement writes off the cost of the positions it settles. -/
theorem totalCost_settleMarket :
    (portfolio.settleMarket conditionId winningTokenId timestampNs).1.totalCost =
      portfolio.totalCost - (portfolio.positions.map (settledCost conditionId)).sum := by
  unfold totalCost Portfolio.settleMarket
  dsimp only
  induction portfolio.positions with
  | nil => rfl
  | cons entry rest ih =>
    simp only [List.map_cons, List.sum_cons, ih]
    unfold settlePosition settledCost
    split
    · dsimp only
      omega
    · omega

/-! ## Positions without shorts -/

end Portfolio

/-- Shares are not negative, and a position without shares has no cost. -/
structure Position.Long (position : Position) : Prop where
  shares_nonneg : 0 ≤ position.sharesScaled
  cost_nonneg : 0 ≤ position.costBasisScaled
  empty : position.sharesScaled = 0 → position.costBasisScaled = 0

namespace Portfolio

variable {portfolio : Portfolio} {fill : SimulatedFill} {outcome tokenId : String}
  {position : Position}

/-- Every position is long. -/
def Long (portfolio : Portfolio) : Prop := ∀ entry ∈ portfolio.positions, entry.2.Long

theorem Long.setPosition (long : portfolio.Long) (changed : position.Long) :
    (portfolio.setPosition tokenId position).Long := by
  intro entry member
  rcases KeyedList.mem_assign member with rfl | ⟨old, -⟩
  · exact changed
  · exact long entry old

theorem Long.positionFor (long : portfolio.Long) : (portfolio.positionFor fill outcome).Long := by
  unfold Portfolio.positionFor
  cases found : portfolio.positions.lookup fill.tokenId with
  | none => exact ⟨le_rfl, le_rfl, fun _ => rfl⟩
  | some position =>
    obtain ⟨before, after, split, -⟩ := List.lookup_eq_some_iff.mp found
    exact long (fill.tokenId, position) (by rw [split]; simp)

theorem Long.buyFill (long : portfolio.Long) (size : 0 < fill.sizeScaled)
    (notional : 0 ≤ fill.notionalScaled) :
    ((portfolio.buyFill fill (portfolio.positionFor fill outcome)).recordFill fill).Long := by
  have held : (portfolio.positionFor fill outcome).Long := long.positionFor
  obtain ⟨shares, cost, -⟩ := held
  refine Long.setPosition long ⟨?_, ?_, fun none => ?_⟩
  · dsimp only
    omega
  · dsimp only
    omega
  · dsimp only at none
    omega

/-- A sale of all shares removes the whole cost, any other one at most that. -/
theorem removedCost_spec (long : position.Long) (size : 0 < fill.sizeScaled)
    (covered : fill.sizeScaled ≤ position.sharesScaled) :
    removedCost fill position ≤ position.costBasisScaled ∧
      (fill.sizeScaled = position.sharesScaled →
        removedCost fill position = position.costBasisScaled) := by
  have held : 0 < position.sharesScaled := by omega
  rw [removedCost, if_neg held.ne', Int.fdiv_eq_ediv_of_nonneg _ held.le]
  constructor
  · refine Int.ediv_le_of_le_mul held ?_
    exact mul_le_mul_of_nonneg_left covered long.cost_nonneg
  · intro all
    rw [all]
    exact Int.mul_ediv_cancel _ held.ne'

theorem Long.sellFill (long : portfolio.Long) (size : 0 < fill.sizeScaled)
    (covered : fill.sizeScaled ≤ portfolio.inventory fill.tokenId) :
    ((portfolio.sellFill fill (portfolio.positionFor fill outcome)).recordFill fill).Long := by
  have held : (portfolio.positionFor fill outcome).Long := long.positionFor
  have enough : fill.sizeScaled ≤ (portfolio.positionFor fill outcome).sharesScaled := by
    rw [sharesScaled_positionFor]
    exact covered
  obtain ⟨bounded, whole⟩ := removedCost_spec held size enough
  refine Long.setPosition long ⟨?_, ?_, fun none => ?_⟩
  · dsimp only
    omega
  · dsimp only
    omega
  · dsimp only at none
    have all := whole (by omega)
    dsimp only
    omega

theorem Long.settleMarket {conditionId winningTokenId : String} {timestampNs : ℤ}
    (long : portfolio.Long) :
    (portfolio.settleMarket conditionId winningTokenId timestampNs).1.Long := by
  intro entry member
  obtain ⟨old, known, rfl⟩ := List.mem_map.mp member
  unfold settlePosition
  split
  · exact ⟨le_rfl, le_rfl, fun _ => rfl⟩
  · exact long old known

end Portfolio

end PolymarketBt
