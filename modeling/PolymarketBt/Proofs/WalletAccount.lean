import PolymarketBt.Soundness.WalletLedger
import PolymarketBt.ToMathlib.DatedFlows

/-! # The wallet as a balance of dated cash flows

What a wallet can pay by an instant is the opening balance, plus the credits available by then, less
the debits so far. Each operation extends the credits or the debits, and no debit is paid from a
credit of a later instant.
-/

namespace PolymarketBt

open DatedFlows

namespace ReplayWallet

/-- The cash available by an instant, if no more is spent. -/
def cashBy (wallet : ReplayWallet) (instant : ℤ) : ℤ :=
  wallet.available +
    ((wallet.pending.items.filter (dueBy instant)).map fun item => item.credit.amountScaled).sum

/-- The wallet is what dated credits and debits leave of an opening balance. -/
structure Account (opening : ℤ) (credits debits : List (ℤ × ℤ)) (wallet : ReplayWallet) : Prop where
  cash : ∀ instant, wallet.now ≤ instant →
    wallet.cashBy instant = opening + totalBy instant credits - total debits
  equity : wallet.totalEquityScaled = opening + total credits - total debits
  past : ∀ debit ∈ debits, debit.1 ≤ wallet.now
  gains : ∀ credit ∈ credits, 0 ≤ credit.2
  covered : Covered opening credits debits
  solvent : 0 ≤ wallet.available
  logged : ∀ event ∈ wallet.events, 0 ≤ event.availableCashScaled

variable {wallet : ReplayWallet} {instant : ℤ}

/-! ## Cash -/

theorem peekAvailableAt_of_le (later : wallet.now ≤ instant) :
    wallet.peekAvailableAt instant = .ok (wallet.cashBy instant) := if_neg (not_lt.mpr later)

theorem sum_amounts_nonneg (items : List QueuedCredit) :
    0 ≤ (items.map fun item => item.credit.amountScaled).sum := by
  refine List.sum_nonneg fun amount member => ?_
  obtain ⟨item, _, rfl⟩ := List.mem_map.mp member
  exact item.credit.amount_nonneg

theorem available_le_cashBy (wallet : ReplayWallet) (instant : ℤ) :
    wallet.available ≤ wallet.cashBy instant :=
  le_add_of_nonneg_right (sum_amounts_nonneg _)

theorem cashBy_mono (wallet : ReplayWallet) : Monotone wallet.cashBy := by
  intro instant later forward
  have gains : ∀ flow ∈ wallet.pending.items.map fun item =>
      (item.credit.availableUtcNs, item.credit.amountScaled), 0 ≤ flow.2 := by
    intro flow member
    obtain ⟨item, _, rfl⟩ := List.mem_map.mp member
    exact item.credit.amount_nonneg
  have dues := totalBy_mono gains forward
  simp only [totalBy, total, List.filter_map, List.map_map] at dues
  exact add_le_add_right dues _

/-- Advancing changes nothing about the cash of later instants. -/
theorem cashBy_advanceTo {later : ℤ} (forward : wallet.now ≤ instant) (after : instant ≤ later) :
    (wallet.advanceTo instant).2.cashBy later = wallet.cashBy later := by
  have due : ∀ item ∈ wallet.pending.items, dueBy instant item = true → dueBy later item = true := by
    intro item _ early
    simp only [dueBy, decide_eq_true_eq] at early ⊢
    omega
  have split := (List.filter_append_perm (dueBy instant)
    (wallet.pending.items.filter (dueBy later))).map fun item => item.credit.amountScaled
  have amounts := split.sum_eq
  rw [List.map_append, List.sum_append, List.filter_filter, List.filter_filter] at amounts
  rw [advanceTo_eq forward]
  change wallet.available + _ + ((((wallet.pending.popDue (dueBy instant)).items).filter
    (dueBy later)).map _).sum = wallet.available + _
  rw [wallet.pending.popDue_eq_filter (dueBy_downward instant), List.filter_filter, add_assoc]
  congr 1
  refine Eq.trans ?_ amounts
  congr 2
  · refine congrArg _ (List.filter_congr fun item member => ?_)
    cases early : dueBy instant item with
    | false => simp
    | true => simp [due item member early]
  · exact congrArg _ (List.filter_congr fun item _ => Bool.and_comm ..)

theorem releaseEvents_logged {available : ℤ} (solvent : 0 ≤ available) (items : List QueuedCredit) :
    ∀ event ∈ releaseEvents available items, 0 ≤ event.availableCashScaled := by
  induction items generalizing available with
  | nil => simp [releaseEvents]
  | cons item rest ih =>
    have next : 0 ≤ available + item.credit.amountScaled :=
      add_nonneg solvent item.credit.amount_nonneg
    intro event member
    rcases List.mem_cons.mp member with rfl | later
    · exact next
    · exact ih next event later

/-! ## Operations -/

namespace Account

variable {opening : ℤ} {credits debits : List (ℤ × ℤ)}

/-- Only what the flows are matters, not their order. -/
theorem perm {earned spent : List (ℤ × ℤ)} (account : Account opening credits debits wallet)
    (sameCredits : credits.Perm earned) (sameDebits : debits.Perm spent) :
    Account opening earned spent wallet where
  cash instant later := by
    rw [account.cash instant later, totalBy_perm sameCredits, total_perm sameDebits]
  equity := by rw [account.equity, total_perm sameCredits, total_perm sameDebits]
  past debit member := account.past debit (sameDebits.mem_iff.mpr member)
  gains credit member := account.gains credit (sameCredits.mem_iff.mpr member)
  covered := account.covered.perm sameCredits sameDebits
  solvent := account.solvent
  logged := account.logged

theorem init {start : ℤ} (built : ReplayWallet.init opening start = .ok wallet) :
    Account opening [] [] wallet ∧ wallet.now = start := by
  unfold ReplayWallet.init at built
  split at built
  · cases built
  next solvent =>
  split at built
  · cases built
  cases built
  have nonneg := not_lt.mp solvent
  refine ⟨⟨?_, ?_, by simp, by simp, .nil nonneg, nonneg, by simp⟩, rfl⟩
  · simp [cashBy]
  · simp [totalEquityScaled, pendingCashScaled]

theorem advanceTo (account : Account opening credits debits wallet) (forward : wallet.now ≤ instant) :
    ∃ cash after, wallet.advanceTo instant = (.ok cash, after) ∧
      Account opening credits debits after ∧ after.now = instant ∧
      after.available = wallet.cashBy instant := by
  refine ⟨_, (wallet.advanceTo instant).2, by rw [advanceTo_eq forward], ?_, ?_, ?_⟩
  · refine ⟨fun later after => ?_, ?_, fun debit member => ?_, account.gains, account.covered, ?_, ?_⟩
    · have now : (wallet.advanceTo instant).2.now = instant := by rw [advanceTo_eq forward]
      rw [now] at after
      rw [cashBy_advanceTo forward after]
      exact account.cash later (forward.trans after)
    · rw [totalEquityScaled_advanceTo]
      exact account.equity
    · rw [advanceTo_eq forward]
      exact (account.past debit member).trans forward
    · rw [advanceTo_eq forward]
      exact account.solvent.trans (available_le_cashBy wallet instant)
    · rw [advanceTo_eq forward]
      intro event member
      rcases List.mem_append.mp member with old | fresh
      · exact account.logged event old
      · exact releaseEvents_logged account.solvent _ event fresh
  · rw [advanceTo_eq forward]
  · rw [advanceTo_eq forward]
    rfl

/-- A logged change of cash is a change of the cash of every instant. -/
theorem cashBy_post {timestamp amount : ℤ} {kind : WalletEventKind} {source : String} (later : ℤ) :
    (wallet.post timestamp kind amount source).cashBy later = wallet.cashBy later + amount := by
  simp only [cashBy, post_available, post_pending]
  ring

theorem totalEquityScaled_post {timestamp amount : ℤ} {kind : WalletEventKind} {source : String} :
    (wallet.post timestamp kind amount source).totalEquityScaled =
      wallet.totalEquityScaled + amount := by
  simp only [totalEquityScaled, pendingCashScaled, post_available, post_pending]
  ring

/-- The wallet with one more credit on the heap. -/
def queue (wallet : ReplayWallet) (credit : PendingCredit) : ReplayWallet :=
  { wallet with
    sequence := wallet.sequence + 1
    pending := wallet.pending.push ⟨wallet.sequence + 1, credit⟩ }

theorem queue_perm (credit : PendingCredit) :
    (queue wallet credit).pending.items.Perm (⟨wallet.sequence + 1, credit⟩ :: wallet.pending.items) :=
  wallet.pending.push_perm _

theorem cashBy_queue (credit : PendingCredit) (instant : ℤ) :
    (queue wallet credit).cashBy instant =
      wallet.cashBy instant + if credit.availableUtcNs ≤ instant then credit.amountScaled else 0 := by
  have amounts := (((@queue_perm wallet credit).filter (dueBy instant)).map
    fun item => item.credit.amountScaled).sum_eq
  change wallet.available + _ = wallet.available + _ + _
  rw [amounts, List.filter_cons]
  by_cases reached : credit.availableUtcNs ≤ instant
  · have due : dueBy instant ⟨wallet.sequence + 1, credit⟩ = true := decide_eq_true reached
    rw [if_pos due, if_pos reached, List.map_cons, List.sum_cons]
    ring
  · have pending : ¬ dueBy instant ⟨wallet.sequence + 1, credit⟩ = true := by simpa [dueBy] using reached
    rw [if_neg pending, if_neg reached, add_zero]

theorem totalEquityScaled_queue (credit : PendingCredit) :
    (queue wallet credit).totalEquityScaled = wallet.totalEquityScaled + credit.amountScaled := by
  have amounts := ((@queue_perm wallet credit).map
    fun item => item.credit.amountScaled).sum_eq
  change wallet.available + (List.map _ _).sum = wallet.available + (List.map _ _).sum + _
  rw [amounts, List.map_cons, List.sum_cons]
  ring

theorem logged_post {timestamp amount : ℤ} {kind : WalletEventKind} {source : String}
    (logged : ∀ event ∈ wallet.events, 0 ≤ event.availableCashScaled)
    (solvent : 0 ≤ wallet.available + amount) :
    ∀ event ∈ (wallet.post timestamp kind amount source).events, 0 ≤ event.availableCashScaled := by
  intro event member
  rcases List.mem_append.mp member with old | fresh
  · exact logged event old
  · rw [List.mem_singleton.mp fresh]
    exact solvent

/-- A scheduled credit counts from its availability. -/
theorem scheduleCredit (account : Account opening credits debits wallet) (credit : PendingCredit) :
    Account opening (credits ++ [(credit.availableUtcNs, credit.amountScaled)]) debits
        (wallet.scheduleCredit credit) ∧
      (wallet.scheduleCredit credit).now = wallet.now := by
  have gains : ∀ flow ∈ credits ++ [(credit.availableUtcNs, credit.amountScaled)], 0 ≤ flow.2 := by
    intro flow member
    rcases List.mem_append.mp member with old | fresh
    · exact account.gains flow old
    · rw [List.mem_singleton.mp fresh]
      exact credit.amount_nonneg
  have covered := account.covered.credit credit.availableUtcNs credit.amount_nonneg
  unfold ReplayWallet.scheduleCredit
  by_cases nothing : credit.amountScaled = 0
  · rw [if_pos nothing]
    refine ⟨⟨fun instant later => ?_, ?_, account.past, gains, covered, account.solvent,
      account.logged⟩, rfl⟩
    · rw [account.cash instant later, totalBy_append, totalBy_singleton, nothing, ite_self, add_zero]
    · rw [account.equity, total_append, total_singleton, nothing, add_zero]
  rw [if_neg nothing]
  by_cases due : credit.availableUtcNs ≤ wallet.now
  · rw [if_pos due]
    have solvent := add_nonneg account.solvent credit.amount_nonneg
    refine ⟨⟨fun instant later => ?_, ?_, account.past, gains, covered, solvent,
      logged_post account.logged solvent⟩, rfl⟩
    · rw [post_now] at later
      rw [cashBy_post, account.cash instant later, totalBy_append, totalBy_singleton,
        if_pos (due.trans later)]
      ring
    · rw [totalEquityScaled_post, account.equity, total_append, total_singleton]
      ring
  · rw [if_neg due]
    change Account opening _ debits (queue wallet credit) ∧ (queue wallet credit).now = wallet.now
    refine ⟨⟨fun instant later => ?_, ?_, account.past, gains, covered, account.solvent,
      account.logged⟩, rfl⟩
    · rw [cashBy_queue, account.cash instant later, totalBy_append, totalBy_singleton]
      ring
    · rw [totalEquityScaled_queue, account.equity, total_append, total_singleton]
      ring

/-- A debit the cash of its instant covers is booked. -/
theorem debit (account : Account opening credits debits wallet) (forward : wallet.now ≤ instant)
    {amount : ℤ} (nonneg : 0 ≤ amount) (paid : amount ≤ wallet.cashBy instant) (source : String) :
    ∃ after, wallet.debit instant amount source = (.ok (), after) ∧
      Account opening credits (debits ++ [(instant, amount)]) after ∧ after.now = instant := by
  obtain ⟨cash, reached, advanced, moved, now, available⟩ := account.advanceTo forward
  have spendable : amount ≤ reached.available := by rwa [available]
  refine ⟨reached.post instant .debit (-amount) source, ?_, ?_, now⟩
  · rw [ReplayWallet.debit, if_neg (not_lt.mpr nonneg), advanced]
    exact if_neg (not_lt.mpr spendable)
  have solvent : 0 ≤ reached.available + -amount := by omega
  have covers : total debits + amount ≤ opening + totalBy instant credits := by
    have known := account.cash instant forward
    omega
  refine ⟨fun later after => ?_, ?_, ?_, moved.gains, ?_, solvent, logged_post moved.logged solvent⟩
  · rw [post_now] at after
    rw [cashBy_post, moved.cash later after, total_append, total_singleton]
    ring
  · rw [totalEquityScaled_post, moved.equity, total_append, total_singleton]
    ring
  · intro debit member
    rw [post_now, now]
    rcases List.mem_append.mp member with old | fresh
    · exact (account.past debit old).trans forward
    · rw [List.mem_singleton.mp fresh]
  · exact moved.covered.debit (fun debit member => (account.past debit member).trans forward)
      moved.gains covers

end Account

end ReplayWallet

end PolymarketBt
