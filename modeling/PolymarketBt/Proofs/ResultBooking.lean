import PolymarketBt.Proofs.WalletAccount
import PolymarketBt.Soundness.EpisodeCashflow

/-! # Booking the result of a market

Booking schedules the sells and the payout and then debits the buys by their arrivals. The simulator
checked the buys in the order it decided them, so that they are paid by their arrivals too is a fact
about dated purchases. What can still fail is a sell whose fees exceed what it brings.
-/

namespace PolymarketBt

open DatedFlows StableSort

/-- No filled sell costs more in fees than it brings. -/
def EpisodeResult.SellsClear (result : EpisodeResult) : Prop :=
  ∀ order ∈ filledOf .sell result.orders, order.feesScaled ≤ order.notionalScaled

instance EpisodeResult.decidableSellsClear (result : EpisodeResult) : Decidable result.SellsClear :=
  inferInstanceAs (Decidable (∀ order ∈ filledOf .sell result.orders, order.feesScaled ≤ order.notionalScaled))

/-- The filled orders of a side, by arrival. -/
theorem EpisodeResult.filledOrders_side (result : EpisodeResult) (side : Side) :
    (result.filledOrders.filter fun order => order.side = side) =
      sortByKey SimulatedOrder.settlementKey (filledOf side result.orders) := by
  rw [EpisodeResult.filledOrders, sortByKey_filter, List.filter_filter, filledOf]
  exact congrArg _ (List.filter_congr fun order _ => by simp)

theorem settlementKey_mono {first second : SimulatedOrder}
    (before : first.settlementKey ≤ second.settlementKey) : first.arrivalUtcNs ≤ second.arrivalUtcNs :=
  Prod.Lex.monotone_fst _ _ before

namespace ReplayWallet

variable {wallet : ReplayWallet} {episode : ResolvedEpisode} {result : EpisodeResult} {opening : ℤ}
  {credits debits : List (ℤ × ℤ)}

namespace Account

/-- Sells that clear are scheduled one after the other. -/
theorem scheduleSells (account : Account opening credits debits wallet) (episode : ResolvedEpisode)
    (orders : List SimulatedOrder) (dated : ∀ order ∈ orders, 0 ≤ order.arrivalUtcNs)
    (clear : ∀ order ∈ orders, order.feesScaled ≤ order.notionalScaled) :
    ∃ after, orders.foldlM (scheduleSell episode) wallet = .ok after ∧
      Account opening (credits ++ orders.map SimulatedOrder.sale) debits after ∧
      after.now = wallet.now := by
  induction orders generalizing wallet credits with
  | nil => exact ⟨wallet, rfl, by simpa using account, rfl⟩
  | cons order rest ih =>
    obtain ⟨ownDated, restDated⟩ := List.forall_mem_cons.mp dated
    obtain ⟨ownClear, restClear⟩ := List.forall_mem_cons.mp clear
    have proceeds : ¬ order.notionalScaled - order.feesScaled < 0 := by omega
    have scheduled : scheduleSell episode wallet order = .ok (wallet.scheduleCredit
        ⟨order.arrivalUtcNs, order.notionalScaled - order.feesScaled, order.cashSource episode,
          ownDated, not_lt.mp proceeds⟩) := by
      simp only [scheduleSell, if_neg proceeds, PendingCredit.init, dif_neg (not_lt.mpr ownDated),
        dif_neg proceeds, Except.ok_bind]
      rfl
    obtain ⟨grown, now⟩ := account.scheduleCredit ⟨order.arrivalUtcNs,
      order.notionalScaled - order.feesScaled, order.cashSource episode, ownDated, not_lt.mp proceeds⟩
    obtain ⟨after, ran, booked, still⟩ := ih grown restDated restClear
    refine ⟨after, by rw [List.foldlM_cons, scheduled, Except.ok_bind, ran], ?_, still.trans now⟩
    rwa [List.append_assoc] at booked

theorem scheduleSettlement (account : Account opening credits debits wallet)
    (episode : ResolvedEpisode) (dated : result.settledSharesScaled ≠ 0 → 0 ≤ episode.endUtcNs)
    (payout : 0 ≤ result.settlementPayoutScaled) :
    ∃ after, wallet.scheduleSettlement episode result = .ok after ∧
      Account opening (credits ++ result.settlement episode) debits after ∧
      after.now = wallet.now := by
  unfold ReplayWallet.scheduleSettlement EpisodeResult.settlement
  by_cases nothing : result.settledSharesScaled = 0
  · rw [if_pos nothing, if_pos nothing, List.append_nil]
    exact ⟨wallet, rfl, account, rfl⟩
  rw [if_neg nothing, if_neg nothing]
  have available : 0 ≤ episode.payoutNs := (dated nothing).trans (le_max_left _ _)
  rw [PendingCredit.init, dif_neg (not_lt.mpr available), dif_neg (not_lt.mpr payout), Except.ok_bind]
  obtain ⟨grown, now⟩ := account.scheduleCredit ⟨episode.payoutNs, result.settlementPayoutScaled,
    s!"{episode.conditionId}:settlement", available, payout⟩
  exact ⟨_, rfl, grown, now⟩

/-- Buys in the order of their arrivals are debited when the flows pay for them. -/
theorem debitBuys (account : Account opening credits debits wallet) (episode : ResolvedEpisode)
    {orders : List SimulatedOrder} (forward : ∀ order ∈ orders, wallet.now ≤ order.arrivalUtcNs)
    (dated : orders.Pairwise fun first second => first.arrivalUtcNs ≤ second.arrivalUtcNs)
    (costs : ∀ order ∈ orders, 0 ≤ order.notionalScaled + order.feesScaled)
    (paid : Paid (fun instant => opening + totalBy instant credits - total debits)
      (orders.map SimulatedOrder.purchase)) :
    ∃ after, orders.foldlM (debitBuy episode) wallet = .ok after ∧
      Account opening credits (debits ++ orders.map SimulatedOrder.purchase) after ∧
      (after.now = wallet.now ∨ ∃ order ∈ orders, after.now = order.arrivalUtcNs) := by
  induction orders generalizing wallet debits with
  | nil => exact ⟨wallet, rfl, by simpa using account, .inl rfl⟩
  | cons order rest ih =>
    obtain ⟨ownForward, restForward⟩ := List.forall_mem_cons.mp forward
    obtain ⟨ownFirst, restDated⟩ := List.pairwise_cons.mp dated
    obtain ⟨ownCost, restCosts⟩ := List.forall_mem_cons.mp costs
    have afford := paid [] order.purchase _ rfl
    rw [total_nil, zero_add] at afford
    obtain ⟨next, debited, moved, now⟩ := account.debit ownForward ownCost
      (afford.trans_eq (account.cash _ ownForward).symm) (order.cashSource episode)
    have ran : debitBuy episode wallet order = .ok next := by simp only [debitBuy, debited]
    obtain ⟨after, rests, booked, stops⟩ := ih moved
      (fun other member => now ▸ ownFirst other member) restDated restCosts
      (paid.tail.mono fun purchase _ => by
        rw [total_append, total_singleton, ← sub_sub]
        exact le_rfl)
    refine ⟨after, by rw [List.foldlM_cons, ran, Except.ok_bind, rests], ?_, .inr ?_⟩
    · rwa [List.append_assoc] at booked
    · rcases stops with same | ⟨other, member, same⟩
      · exact ⟨order, List.mem_cons_self .., same.trans now⟩
      · exact ⟨other, List.mem_cons_of_mem _ member, same⟩

/-- A result the wallet can book is booked: its flows join the account. -/
theorem applyResult (account : Account opening credits debits wallet)
    (bookable : Bookable episode wallet.cashBy result) (since : 0 ≤ episode.startUtcNs)
    (forward : ∀ purchase ∈ result.purchases, wallet.now ≤ purchase.1) (clear : result.SellsClear) :
    ∃ after, wallet.applyResult episode result = .ok after ∧
      Account opening (credits ++ result.credits episode) (debits ++ result.purchases) after ∧
      after.totalEquityScaled = wallet.totalEquityScaled + result.netPnlScaled ∧
      (after.now = wallet.now ∨ ∃ purchase ∈ result.purchases, after.now = purchase.1) := by
  have sells := result.filledOrders_side .sell
  have buys := result.filledOrders_side .buy
  have soldPerm := sortByKey_perm SimulatedOrder.settlementKey (filledOf .sell result.orders)
  have boughtPerm := sortByKey_perm SimulatedOrder.settlementKey (filledOf .buy result.orders)
  have boughtFlows := boughtPerm.map SimulatedOrder.purchase
  have inPurchases : ∀ order ∈ sortByKey SimulatedOrder.settlementKey (filledOf .buy result.orders),
      order.purchase ∈ result.purchases :=
    fun order member => List.mem_map_of_mem (boughtPerm.mem_iff.mp member)
  obtain ⟨sold, soldRan, soldAccount, soldNow⟩ := account.scheduleSells episode
    (sortByKey SimulatedOrder.settlementKey (filledOf .sell result.orders))
    (fun order member => since.trans
      (bookable.sold order.sale (List.mem_map_of_mem (soldPerm.mem_iff.mp member))))
    fun order member => clear order (soldPerm.mem_iff.mp member)
  obtain ⟨settled, settledRan, settledAccount, settledNow⟩ := soldAccount.scheduleSettlement
    episode (fun held => since.trans (bookable.settles held)) bookable.payout
  have sameCredits : (credits ++ (sortByKey SimulatedOrder.settlementKey
      (filledOf .sell result.orders)).map SimulatedOrder.sale ++ result.settlement episode).Perm
        (credits ++ result.credits episode) := by
    rw [List.append_assoc]
    exact ((soldPerm.map _).append_right _).append_left _
  have settledAccount := settledAccount.perm sameCredits (.refl debits)
  have now := settledNow.trans soldNow
  -- The simulator saw less cash than there is once the credits are scheduled.
  have paid : Paid (fun instant => opening + totalBy instant (credits ++ result.credits episode) -
      total debits) result.purchases := by
    refine bookable.paid.mono fun purchase member => ?_
    rw [account.cash _ (forward purchase member), totalBy_append]
    have earned : 0 ≤ totalBy purchase.1 (result.credits episode) :=
      totalBy_nonneg fun flow inCredits =>
        settledAccount.gains flow (List.mem_append_right _ inCredits)
    omega
  have grows : Monotone fun instant => opening + totalBy instant (credits ++ result.credits episode) -
      total debits := by
    intro first second before
    have := totalBy_mono settledAccount.gains before
    dsimp only
    omega
  have dated := (sortByKey_inOrder SimulatedOrder.settlementKey (filledOf .buy result.orders)).imp
    settlementKey_mono
  obtain ⟨after, debited, booked, stops⟩ := settledAccount.debitBuys episode
    (fun order member => now ▸ forward _ (inPurchases order member)) dated
    (fun order member => (bookable.bought _ (inPurchases order member)).2.2)
    (paid.by_date (fun purchase member => (bookable.bought purchase member).2.2) grows boughtFlows
      (List.pairwise_map.mpr dated))
  have booked : Account opening (credits ++ result.credits episode) (debits ++ result.purchases) after :=
    booked.perm (.refl _) (boughtFlows.append_left debits)
  have equity : after.totalEquityScaled = wallet.totalEquityScaled + result.netPnlScaled := by
    rw [booked.equity, account.equity, bookable.net, total_append, total_append]
    ring
  have delta : ¬ after.totalEquityScaled - wallet.totalEquityScaled ≠ result.netPnlScaled := by omega
  refine ⟨after, ?_, booked, equity, ?_⟩
  · simp only [ReplayWallet.applyResult, sells, buys, soldRan, settledRan, debited, Except.ok_bind,
      if_neg delta]
    rfl
  · rcases stops with same | ⟨order, member, same⟩
    · exact .inl (same.trans now)
    · exact .inr ⟨order.purchase, inPurchases order member, same⟩

end Account

/-- A result is only booked when its sells clear. -/
theorem applyResult_clear {after : ReplayWallet}
    (ran : wallet.applyResult episode result = .ok after) : result.SellsClear := by
  obtain ⟨sold, soldRan, _⟩ := Except.bind_eq_ok.mp ran
  rw [result.filledOrders_side .sell] at soldRan
  have each := Except.foldlM_history
    (fun past _ => ∀ order ∈ past, order.feesScaled ≤ order.notionalScaled) (by simp)
    (fun past order state next _ earlier scheduled other member => by
      rcases List.mem_append.mp member with old | own
      · exact earlier other old
      · obtain rfl := List.mem_singleton.mp own
        by_contra above
        simp only [scheduleSell, if_pos (show other.notionalScaled - other.feesScaled < 0 by omega)]
          at scheduled
        cases scheduled) soldRan
  exact fun order member => each order ((sortByKey_perm _ _).mem_iff.mpr member)

end ReplayWallet

end PolymarketBt
