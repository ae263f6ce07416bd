import PolymarketBt.Model.Wallet

/-! # The account of the replay wallet

Cash is the starting balance plus the logged amounts. A scheduled credit is on the heap until the
wallet's time reaches its availability and in the log from then on, whatever calls were made and
whichever of them raised.
-/

namespace PolymarketBt

/-- A credit accepted by the wallet, with the wallet's time at that moment. -/
structure ScheduledCredit where
  scheduledNs : ℤ
  credit : PendingCredit

namespace ScheduledCredit

/-- The availability of the credit, or the wallet's time if it was scheduled already due. -/
def releaseNs (scheduled : ScheduledCredit) : ℤ :=
  if scheduled.credit.availableUtcNs ≤ scheduled.scheduledNs then scheduled.scheduledNs
  else scheduled.credit.availableUtcNs

/-- The instant, the amount and the source of the release. -/
def release (scheduled : ScheduledCredit) : ℤ × ℤ × String :=
  (scheduled.releaseNs, scheduled.credit.amountScaled, scheduled.credit.source)

/-- The credit is available at an instant. -/
def reached (now : ℤ) (scheduled : ScheduledCredit) : Bool := scheduled.credit.availableUtcNs ≤ now

end ScheduledCredit

open ScheduledCredit

namespace ReplayWallet

/-- The releases of the log, in order. -/
def releases (events : List WalletEvent) : List (ℤ × ℤ × String) :=
  (events.filter fun event => event.kind = .creditReleased).map fun event =>
    (event.timestampUtcNs, event.amountScaled, event.source)

/-- The credits of non-zero amount that a call schedules. -/
def scheduledBy (wallet : ReplayWallet) : WalletCall → List ScheduledCredit
  | .scheduleCredit credit => if credit.amountScaled = 0 then [] else [⟨wallet.now, credit⟩]
  | _ => []

def scheduledByAll (wallet : ReplayWallet) : List WalletCall → List ScheduledCredit
  | [] => []
  | call :: rest => wallet.scheduledBy call ++ (wallet.after call).scheduledByAll rest

/-- Cash and log agree, and the log's instants do not decrease. -/
structure Balanced (startingCash : ℤ) (wallet : ReplayWallet) : Prop where
  solvent : 0 ≤ wallet.available
  stamped : ∀ event ∈ wallet.events, event.timestampUtcNs ≤ wallet.now
  ordered : wallet.events.Pairwise fun first second => first.timestampUtcNs ≤ second.timestampUtcNs
  balanced : startingCash + (wallet.events.map WalletEvent.amountScaled).sum = wallet.available

/-- The scheduled credits are pending until they are due and released from then on. -/
structure Tracked (scheduled : List ScheduledCredit) (wallet : ReplayWallet) : Prop where
  future : ∀ item ∈ wallet.pending.items, wallet.now < item.credit.availableUtcNs
  placed : ∀ item ∈ scheduled, item.scheduledNs ≤ wallet.now
  waiting : (wallet.pending.items.map QueuedCredit.credit).Perm
    ((scheduled.filter fun item => !reached wallet.now item).map ScheduledCredit.credit)
  released : (releases wallet.events).Perm
    ((scheduled.filter (reached wallet.now)).map ScheduledCredit.release)

variable {wallet : ReplayWallet}

/-! ## Releasing -/

@[simp] theorem post_now {timestamp amount : ℤ} {kind : WalletEventKind} {source : String} :
    (wallet.post timestamp kind amount source).now = wallet.now := rfl

@[simp] theorem post_pending {timestamp amount : ℤ} {kind : WalletEventKind} {source : String} :
    (wallet.post timestamp kind amount source).pending = wallet.pending := rfl

@[simp] theorem post_available {timestamp amount : ℤ} {kind : WalletEventKind} {source : String} :
    (wallet.post timestamp kind amount source).available = wallet.available + amount := rfl

/-- The log entries of credits released one after the other from a balance. -/
def releaseEvents (available : ℤ) : List QueuedCredit → List WalletEvent
  | [] => []
  | item :: rest =>
    ⟨item.credit.availableUtcNs, .creditReleased, item.credit.amountScaled,
      available + item.credit.amountScaled, item.credit.source⟩ ::
      releaseEvents (available + item.credit.amountScaled) rest

theorem foldl_release (items : List QueuedCredit) :
    items.foldl release wallet =
      { wallet with
        available := wallet.available + (items.map fun item => item.credit.amountScaled).sum
        events := wallet.events ++ releaseEvents wallet.available items } := by
  induction items generalizing wallet with
  | nil => simp [releaseEvents]
  | cons item rest ih =>
    rw [List.foldl_cons, ih]
    simp [release, post, releaseEvents, add_assoc]

theorem releaseEvents_map (available : ℤ) (items : List QueuedCredit) :
    (releaseEvents available items).map (fun event => (event.timestampUtcNs, event.kind)) =
        items.map (fun item => (item.credit.availableUtcNs, WalletEventKind.creditReleased)) ∧
      (releaseEvents available items).map WalletEvent.amountScaled =
        items.map (fun item => item.credit.amountScaled) ∧
      releases (releaseEvents available items) = items.map (fun item =>
        (item.credit.availableUtcNs, item.credit.amountScaled, item.credit.source)) := by
  induction items generalizing available with
  | nil => exact ⟨rfl, rfl, rfl⟩
  | cons item rest ih =>
    obtain ⟨stamps, amounts, released⟩ := ih (available + item.credit.amountScaled)
    simp only [releases] at released
    exact ⟨by simp [releaseEvents, stamps], by simp [releaseEvents, amounts],
      by simp [releaseEvents, releases, released]⟩

theorem dueBy_downward (timestamp : ℤ) (first second : QueuedCredit)
    (earlier : QueuedCredit.key first ≤ QueuedCredit.key second) (due : dueBy timestamp second) :
    dueBy timestamp first := by
  have first_le : first.credit.availableUtcNs ≤ second.credit.availableUtcNs :=
    (Prod.Lex.le_iff.mp earlier).elim le_of_lt fun same => same.1.le
  simp only [dueBy, decide_eq_true_eq] at due ⊢
  omega

/-- The credits that an advance releases, in the order of their release. -/
def dueItems (wallet : ReplayWallet) (timestamp : ℤ) : List QueuedCredit :=
  wallet.pending.items.filter (dueBy timestamp)

theorem advanceTo_eq {timestamp : ℤ} (forward : wallet.now ≤ timestamp) :
    wallet.advanceTo timestamp =
      (.ok (wallet.available + ((wallet.dueItems timestamp).map
          fun item => item.credit.amountScaled).sum),
        { wallet with
          available := wallet.available + ((wallet.dueItems timestamp).map
            fun item => item.credit.amountScaled).sum
          now := timestamp
          pending := wallet.pending.popDue (dueBy timestamp)
          events := wallet.events ++ releaseEvents wallet.available (wallet.dueItems timestamp) }) := by
  simp only [advanceTo, if_neg (not_lt.mpr forward), releaseDue, foldl_release,
    wallet.pending.due_eq_filter (dueBy_downward timestamp), dueItems]

theorem advanceTo_behind {timestamp : ℤ} (behind : timestamp < wallet.now) :
    wallet.advanceTo timestamp =
      (.error (.valueError "wallet time cannot move backwards"), wallet) := if_pos behind

theorem releases_append (earlier later : List WalletEvent) :
    releases (earlier ++ later) = releases earlier ++ releases later := by simp [releases]

theorem releaseEvents_stamped {timestamp : ℤ}
    (future : ∀ item ∈ wallet.pending.items, wallet.now < item.credit.availableUtcNs) :
    ∀ event ∈ releaseEvents wallet.available (wallet.dueItems timestamp),
      wallet.now ≤ event.timestampUtcNs ∧ event.timestampUtcNs ≤ timestamp := by
  intro event member
  have stamp := List.mem_map_of_mem (f := fun event => (event.timestampUtcNs, event.kind)) member
  rw [(releaseEvents_map _ _).1, List.mem_map] at stamp
  obtain ⟨item, due, same⟩ := stamp
  obtain ⟨pending, reached⟩ := List.mem_filter.mp due
  have later := future item pending
  simp only [dueBy, decide_eq_true_eq] at reached
  simp only [Prod.mk.injEq] at same
  omega

/-! ## Cash and log -/

namespace Balanced

variable {startingCash : ℤ}

theorem advance {timestamp : ℤ} (account : Balanced startingCash wallet)
    (future : ∀ item ∈ wallet.pending.items, wallet.now < item.credit.availableUtcNs)
    (forward : wallet.now ≤ timestamp) :
    Balanced startingCash (wallet.advanceTo timestamp).2 := by
  obtain ⟨stamps, amounts, -⟩ := releaseEvents_map wallet.available (wallet.dueItems timestamp)
  have stamped : ∀ event ∈ releaseEvents wallet.available (wallet.dueItems timestamp),
      wallet.now ≤ event.timestampUtcNs ∧ event.timestampUtcNs ≤ timestamp :=
    releaseEvents_stamped future
  rw [advanceTo_eq forward]
  refine ⟨?_, ?_, ?_, ?_⟩
  · -- Credits are not negative.
    have nonneg : 0 ≤ ((wallet.dueItems timestamp).map fun item => item.credit.amountScaled).sum :=
      List.sum_nonneg fun amount member => by
        obtain ⟨item, _, rfl⟩ := List.mem_map.mp member
        exact item.credit.amount_nonneg
    exact add_nonneg account.solvent nonneg
  · intro event member
    rcases List.mem_append.mp member with old | fresh
    · exact (account.stamped event old).trans forward
    · exact (stamped event fresh).2
  · refine List.pairwise_append.mpr ⟨account.ordered, ?_, fun first old second fresh =>
      (account.stamped first old).trans (stamped second fresh).1⟩
    have inOrder := wallet.pending.due_inOrder (dueBy timestamp)
    rw [wallet.pending.due_eq_filter (dueBy_downward timestamp)] at inOrder
    have sorted : ((wallet.dueItems timestamp).map fun item =>
        (item.credit.availableUtcNs, WalletEventKind.creditReleased)).Pairwise
        fun first second => first.1 ≤ second.1 :=
      List.pairwise_map.mpr (inOrder.imp fun earlier =>
        (Prod.Lex.le_iff.mp earlier).elim le_of_lt fun same => same.1.le)
    rw [← stamps, List.pairwise_map] at sorted
    exact sorted
  · have balanced := account.balanced
    simp only [List.map_append, List.sum_append, amounts]
    omega

/-- A change of cash that is logged at the wallet's time. -/
theorem post {amount : ℤ} {kind : WalletEventKind} {source : String}
    (account : Balanced startingCash wallet) (solvent : 0 ≤ wallet.available + amount) :
    Balanced startingCash (wallet.post wallet.now kind amount source) := by
  refine ⟨solvent, ?_, ?_, ?_⟩
  · intro event member
    rcases List.mem_append.mp member with old | fresh
    · exact account.stamped event old
    · rw [List.mem_singleton.mp fresh]
      exact le_rfl
  · refine List.pairwise_append.mpr ⟨account.ordered, List.pairwise_singleton _ _, ?_⟩
    intro first old second fresh
    rw [List.mem_singleton.mp fresh]
    exact account.stamped first old
  · have balanced := account.balanced
    simp only [ReplayWallet.post, List.map_append, List.map_cons, List.map_nil, List.sum_append,
      List.sum_singleton]
    omega

end Balanced

/-! ## Scheduled credits -/

namespace Tracked

variable {scheduled : List ScheduledCredit}

/-- The pending credits that satisfy a condition are the scheduled ones that do and are not due. -/
theorem waiting_filter (tracked : Tracked scheduled wallet) (condition : PendingCredit → Bool) :
    ((wallet.pending.items.filter fun item => condition item.credit).map
        QueuedCredit.credit).Perm
      ((scheduled.filter fun item => condition item.credit && !reached wallet.now item).map
        ScheduledCredit.credit) := by
  have filtered := tracked.waiting.filter condition
  rw [List.filter_map, List.filter_map, List.filter_filter] at filtered
  exact filtered

/-- The credits released up to an instant are those of before and those that become due. -/
theorem filter_reached_perm {earlier later : ℤ} (forward : earlier ≤ later) :
    (scheduled.filter (reached earlier) ++
        scheduled.filter fun item => !reached earlier item && reached later item).Perm
      (scheduled.filter (reached later)) := by
  have split := List.filter_append_perm (reached earlier) (scheduled.filter (reached later))
  simp only [List.filter_filter] at split
  have early : ∀ item ∈ scheduled, (reached earlier item && reached later item) =
      reached earlier item := by
    intro item _
    by_cases reachedEarlier : item.credit.availableUtcNs ≤ earlier
    · simp [reached, reachedEarlier, reachedEarlier.trans forward]
    · simp [reached, reachedEarlier]
  rw [List.filter_congr early] at split
  exact split

/-- A credit that becomes due is released at its own availability. -/
theorem dueItems_perm {timestamp : ℤ} (tracked : Tracked scheduled wallet) :
    ((wallet.dueItems timestamp).map fun item =>
        (item.credit.availableUtcNs, item.credit.amountScaled, item.credit.source)).Perm
      ((scheduled.filter fun item => !reached wallet.now item && reached timestamp item).map
        ScheduledCredit.release) := by
  have due := (tracked.waiting_filter fun credit => decide (credit.availableUtcNs ≤ timestamp)).map
    fun credit => (credit.availableUtcNs, credit.amountScaled, credit.source)
  rw [List.map_map, List.map_map] at due
  refine due.trans (.of_eq ?_)
  rw [List.filter_congr fun item _ => Bool.and_comm _ _]
  refine List.map_congr_left fun item member => ?_
  obtain ⟨known, selected⟩ := List.mem_filter.mp member
  have placed := tracked.placed item known
  simp only [reached, Bool.and_eq_true, Bool.not_eq_true', decide_eq_false_iff_not] at selected
  have pending : ¬ item.credit.availableUtcNs ≤ item.scheduledNs := by omega
  simp only [Function.comp_apply, ScheduledCredit.release, releaseNs, if_neg pending]

theorem advance {timestamp : ℤ} (tracked : Tracked scheduled wallet)
    (forward : wallet.now ≤ timestamp) : Tracked scheduled (wallet.advanceTo timestamp).2 := by
  rw [advanceTo_eq forward]
  refine ⟨?_, ?_, ?_, ?_⟩
  · intro item member
    simp only [wallet.pending.popDue_eq_filter (dueBy_downward timestamp), List.mem_filter, dueBy,
      Bool.not_eq_true', decide_eq_false_iff_not, not_le] at member
    exact member.2
  · exact fun item member => (tracked.placed item member).trans forward
  · change ((wallet.pending.popDue (dueBy timestamp)).items.map _).Perm _
    rw [wallet.pending.popDue_eq_filter (dueBy_downward timestamp)]
    refine (tracked.waiting_filter fun credit => !decide (credit.availableUtcNs ≤ timestamp)).trans
      (.of_eq ?_)
    congr 1
    refine List.filter_congr fun item _ => ?_
    by_cases reachedNow : item.credit.availableUtcNs ≤ wallet.now
    · simp [reached, reachedNow, reachedNow.trans forward]
    · simp [reached, reachedNow]
  · change (releases (wallet.events ++ _)).Perm _
    rw [releases_append, (releaseEvents_map _ _).2.2]
    refine (tracked.released.append tracked.dueItems_perm).trans ?_
    rw [← List.map_append]
    exact (filter_reached_perm forward).map _

/-- Debits and credits are not releases. -/
theorem post {timestamp amount : ℤ} {kind : WalletEventKind} {source : String}
    (tracked : Tracked scheduled wallet) (posted : kind ≠ .creditReleased) :
    Tracked scheduled (wallet.post timestamp kind amount source) := by
  refine ⟨tracked.future, tracked.placed, tracked.waiting, ?_⟩
  change (releases (wallet.events ++ _)).Perm _
  rw [releases_append]
  simpa [releases, posted] using tracked.released

/-- A credit scheduled when it is already due is released at the wallet's time. -/
theorem schedule_due {credit : PendingCredit} (tracked : Tracked scheduled wallet)
    (due : credit.availableUtcNs ≤ wallet.now) :
    Tracked (scheduled ++ [⟨wallet.now, credit⟩])
      (wallet.post wallet.now .creditReleased credit.amountScaled credit.source) := by
  refine ⟨tracked.future, ?_, ?_, ?_⟩
  · intro item member
    rcases List.mem_append.mp member with old | fresh
    · exact tracked.placed item old
    · rw [List.mem_singleton.mp fresh]
      exact le_rfl
  · have none : [(⟨wallet.now, credit⟩ : ScheduledCredit)].filter
        (fun item => !reached wallet.now item) = [] := by simp [reached, due]
    change (wallet.pending.items.map _).Perm
      (((scheduled ++ _).filter fun item => !reached wallet.now item).map _)
    rw [List.filter_append, none, List.append_nil]
    exact tracked.waiting
  · change (releases (wallet.events ++ _)).Perm _
    rw [releases_append, List.filter_append, List.map_append]
    refine tracked.released.append (.of_eq ?_)
    simp [releases, reached, due, ScheduledCredit.release, releaseNs]

theorem schedule_pending {credit : PendingCredit} (tracked : Tracked scheduled wallet)
    (later : ¬ credit.availableUtcNs ≤ wallet.now) :
    Tracked (scheduled ++ [⟨wallet.now, credit⟩])
      { wallet with
        sequence := wallet.sequence + 1
        pending := wallet.pending.push ⟨wallet.sequence + 1, credit⟩ } := by
  refine ⟨?_, ?_, ?_, ?_⟩
  · intro item member
    rcases wallet.pending.mem_push.mp member with rfl | old
    · exact not_le.mp later
    · exact tracked.future item old
  · intro item member
    rcases List.mem_append.mp member with old | fresh
    · exact tracked.placed item old
    · rw [List.mem_singleton.mp fresh]
  · refine ((wallet.pending.push_perm _).map _).trans ?_
    rw [List.map_cons, List.filter_append, List.map_append]
    refine (tracked.waiting.cons credit).trans ?_
    simpa [reached, later] using (List.perm_append_singleton credit _).symm
  · simpa [reached, later] using tracked.released

end Tracked

/-! ## Calls -/

/-- The account of a wallet with a starting balance and the credits scheduled so far. -/
structure Ledger (startingCash : ℤ) (scheduled : List ScheduledCredit) (wallet : ReplayWallet) :
    Prop extends Balanced startingCash wallet, Tracked scheduled wallet

namespace Ledger

variable {startingCash : ℤ} {scheduled : List ScheduledCredit}

theorem init {startUtcNs : ℤ} (built : ReplayWallet.init startingCash startUtcNs = .ok wallet) :
    Ledger startingCash [] wallet := by
  unfold ReplayWallet.init at built
  split at built
  · cases built
  · next solvent =>
    split at built
    · cases built
    · cases built
      exact ⟨⟨not_lt.mp solvent, by simp, List.Pairwise.nil, by simp⟩, ⟨by simp, by simp, by simp,
        by simp [releases]⟩⟩

theorem advanceTo (ledger : Ledger startingCash scheduled wallet) (timestamp : ℤ) :
    Ledger startingCash scheduled (wallet.advanceTo timestamp).2 := by
  by_cases behind : timestamp < wallet.now
  · rw [advanceTo_behind behind]
    exact ledger
  · have forward := not_lt.mp behind
    exact ⟨ledger.toBalanced.advance ledger.future forward, ledger.toTracked.advance forward⟩

/-- What an advance that returns leaves behind. -/
theorem advanceTo_ok {timestamp cash : ℤ} {after : ReplayWallet}
    (ledger : Ledger startingCash scheduled wallet)
    (advanced : wallet.advanceTo timestamp = (.ok cash, after)) :
    Ledger startingCash scheduled after ∧ after.now = timestamp := by
  have kept := ledger.advanceTo timestamp
  rw [advanced] at kept
  refine ⟨kept, ?_⟩
  by_cases behind : timestamp < wallet.now
  · rw [advanceTo_behind behind] at advanced
    cases advanced
  · rw [advanceTo_eq (not_lt.mp behind)] at advanced
    cases advanced
    rfl

theorem post {amount : ℤ} {kind : WalletEventKind} {source : String}
    (ledger : Ledger startingCash scheduled wallet) (solvent : 0 ≤ wallet.available + amount)
    (posted : kind ≠ .creditReleased) :
    Ledger startingCash scheduled (wallet.post wallet.now kind amount source) :=
  ⟨ledger.toBalanced.post solvent, ledger.toTracked.post posted⟩

theorem debit {timestamp amount : ℤ} {source : String}
    (ledger : Ledger startingCash scheduled wallet) :
    Ledger startingCash scheduled (wallet.debit timestamp amount source).2 := by
  unfold ReplayWallet.debit
  split
  · exact ledger
  cases advanced : wallet.advanceTo timestamp with
  | mk result after =>
    cases result with
    | error e =>
      have kept := ledger.advanceTo timestamp
      rw [advanced] at kept
      exact kept
    | ok cash =>
      obtain ⟨kept, rfl⟩ := ledger.advanceTo_ok advanced
      dsimp only
      split
      · exact kept
      · exact kept.post (by omega) (by decide)

theorem credit {timestamp amount : ℤ} {source : String}
    (ledger : Ledger startingCash scheduled wallet) :
    Ledger startingCash scheduled (wallet.credit timestamp amount source).2 := by
  unfold ReplayWallet.credit
  split
  · exact ledger
  · next nonneg =>
    cases advanced : wallet.advanceTo timestamp with
    | mk result after =>
      cases result with
      | error e =>
        have kept := ledger.advanceTo timestamp
        rw [advanced] at kept
        exact kept
      | ok cash =>
        obtain ⟨kept, rfl⟩ := ledger.advanceTo_ok advanced
        exact kept.post (add_nonneg kept.solvent (not_lt.mp nonneg)) (by decide)

theorem scheduleCredit {credit : PendingCredit} (ledger : Ledger startingCash scheduled wallet) :
    Ledger startingCash (scheduled ++ wallet.scheduledBy (.scheduleCredit credit))
      (wallet.scheduleCredit credit) := by
  unfold ReplayWallet.scheduleCredit scheduledBy
  by_cases nothing : credit.amountScaled = 0
  · simpa only [if_pos nothing, List.append_nil] using ledger
  simp only [if_neg nothing]
  split
  · next due =>
    have solvent := add_nonneg ledger.solvent credit.amount_nonneg
    exact ⟨ledger.toBalanced.post solvent, ledger.toTracked.schedule_due due⟩
  · next later =>
    obtain ⟨⟨solvent, stamped, ordered, balanced⟩, tracked⟩ := ledger
    exact ⟨⟨solvent, stamped, ordered, balanced⟩, tracked.schedule_pending later⟩

theorem releaseAll (ledger : Ledger startingCash scheduled wallet) :
    Ledger startingCash scheduled wallet.releaseAll.2 := by
  unfold ReplayWallet.releaseAll
  split
  · exact ledger
  · next latest _ =>
    have kept := ledger.advanceTo latest
    split
    · next advanced =>
      rw [advanced] at kept
      exact kept
    · next advanced =>
      rw [advanced] at kept
      exact kept

theorem nothing (ledger : Ledger startingCash scheduled wallet) :
    Ledger startingCash (scheduled ++ []) wallet := by rwa [List.append_nil]

/-- Every call keeps the account, whether it returns or raises. -/
theorem after (ledger : Ledger startingCash scheduled wallet) (call : WalletCall) :
    Ledger startingCash (scheduled ++ wallet.scheduledBy call) (wallet.after call) := by
  cases call with
  | advanceTo timestamp => exact (ledger.advanceTo timestamp).nothing
  | debit timestamp amount source => exact ledger.debit.nothing
  | credit timestamp amount source => exact ledger.credit.nothing
  | scheduleCredit credit => exact ledger.scheduleCredit
  | peekAvailableAt timestamp => exact ledger.nothing
  | releaseAll => exact ledger.releaseAll.nothing

theorem afterAll (ledger : Ledger startingCash scheduled wallet) (calls : List WalletCall) :
    Ledger startingCash (scheduled ++ wallet.scheduledByAll calls) (wallet.afterAll calls) := by
  induction calls generalizing wallet scheduled with
  | nil => exact ledger.nothing
  | cons call rest ih =>
    rw [scheduledByAll, ← List.append_assoc]
    exact ih (ledger.after call)

end Ledger

/-! ## Equity -/

/-- Released credits leave the pending cash by what they add to the available cash. -/
theorem totalEquityScaled_advanceTo (timestamp : ℤ) :
    (wallet.advanceTo timestamp).2.totalEquityScaled = wallet.totalEquityScaled := by
  by_cases behind : timestamp < wallet.now
  · rw [advanceTo_behind behind]
  · rw [advanceTo_eq (not_lt.mp behind)]
    have split := congrArg
      (fun items => (items.map fun item => item.credit.amountScaled).sum)
      (wallet.pending.due_append_popDue (dueBy timestamp))
    rw [wallet.pending.due_eq_filter (dueBy_downward timestamp), List.map_append,
      List.sum_append] at split
    simp only [totalEquityScaled, pendingCashScaled, dueItems, ← split, add_assoc]

theorem totalEquityScaled_debit_error {timestamp amount : ℤ} {source : String} {error : PyError}
    {after : ReplayWallet} (failed : wallet.debit timestamp amount source = (.error error, after)) :
    after.totalEquityScaled = wallet.totalEquityScaled := by
  unfold ReplayWallet.debit at failed
  split at failed
  · cases failed
    rfl
  have kept : (wallet.advanceTo timestamp).2.totalEquityScaled = wallet.totalEquityScaled :=
    totalEquityScaled_advanceTo timestamp
  split at failed
  · next advanced =>
    cases failed
    rw [advanced] at kept
    exact kept
  · next advanced =>
    split at failed
    · cases failed
      rw [advanced] at kept
      exact kept
    · cases failed

theorem peekAvailableAt_eq_ok_iff {timestamp cash : ℤ} :
    wallet.peekAvailableAt timestamp = .ok cash ↔ (wallet.advanceTo timestamp).1 = .ok cash := by
  by_cases behind : timestamp < wallet.now
  · rw [advanceTo_behind behind, peekAvailableAt, if_pos behind]
    simp
  · rw [advanceTo_eq (not_lt.mp behind), peekAvailableAt, if_neg behind]
    rfl

end ReplayWallet

open ReplayWallet

/-- After any calls, whichever of them raised, cash is not negative and accounted for by the log,
each scheduled credit is pending before its availability and released once from then on, a peek
shows what an advance returns, and neither an advance nor a failed debit changes the equity. -/
theorem replayWallet_ledger {startingCash startUtcNs : ℤ} {initial : ReplayWallet}
    (built : ReplayWallet.init startingCash startUtcNs = .ok initial) (calls : List WalletCall) :
    let wallet := initial.afterAll calls
    let scheduled := initial.scheduledByAll calls
    0 ≤ wallet.available ∧
    (∀ item ∈ wallet.pending.items, wallet.now < item.credit.availableUtcNs) ∧
    (∀ timestamp, wallet.after (.peekAvailableAt timestamp) = wallet ∧ ∀ cash,
      wallet.peekAvailableAt timestamp = .ok cash ↔ (wallet.advanceTo timestamp).1 = .ok cash) ∧
    (∀ timestamp, (wallet.advanceTo timestamp).2.totalEquityScaled = wallet.totalEquityScaled) ∧
    (∀ timestamp amount source error after,
      wallet.debit timestamp amount source = (.error error, after) →
      after.totalEquityScaled = wallet.totalEquityScaled) ∧
    (releases wallet.events).Perm
      ((scheduled.filter fun item => item.credit.availableUtcNs ≤ wallet.now).map fun item =>
        (if item.credit.availableUtcNs ≤ item.scheduledNs then item.scheduledNs
          else item.credit.availableUtcNs, item.credit.amountScaled, item.credit.source)) ∧
    (wallet.pending.items.map QueuedCredit.credit).Perm
      ((scheduled.filter fun item => wallet.now < item.credit.availableUtcNs).map
        ScheduledCredit.credit) ∧
    (wallet.events.Pairwise fun first second => first.timestampUtcNs ≤ second.timestampUtcNs) ∧
    startingCash + (wallet.events.map WalletEvent.amountScaled).sum = wallet.available := by
  have ledger := (Ledger.init built).afterAll calls
  rw [List.nil_append] at ledger
  refine ⟨ledger.solvent, ledger.future, fun timestamp => ⟨rfl, fun _ => peekAvailableAt_eq_ok_iff⟩,
    totalEquityScaled_advanceTo, fun _ _ _ _ _ => totalEquityScaled_debit_error, ledger.released,
    ?_, ledger.ordered, ledger.balanced⟩
  have unreached : (fun item : ScheduledCredit => !reached (initial.afterAll calls).now item) =
      fun item => decide ((initial.afterAll calls).now < item.credit.availableUtcNs) := by
    funext item
    simp only [reached, ← decide_not, not_le]
  exact unreached ▸ ledger.waiting

/-- Two credits out of order, an overspent debit that raises, a credit scheduled late. -/
theorem replayWallet_ledger_calls :
    0 ≤ ((⟨100, 0, .empty, 0, []⟩ : ReplayWallet).afterAll
      [.scheduleCredit ⟨20, 2, "second", by decide, by decide⟩,
        .scheduleCredit ⟨10, 1, "first", by decide, by decide⟩, .debit 15 500 "entry",
        .scheduleCredit ⟨5, 7, "late", by decide, by decide⟩, .releaseAll]).available :=
  (replayWallet_ledger (show ReplayWallet.init 100 0 = .ok ⟨100, 0, .empty, 0, []⟩ from rfl) _).1

end PolymarketBt
