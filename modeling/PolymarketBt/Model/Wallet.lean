import PolymarketBt.Model.Failure
import PolymarketBt.ToMathlib.SortedQueue
import Mathlib.Data.Prod.Lex

/-! # Collateral ledger for account-level replay

Sale proceeds and settlements become spendable at a later instant. The wallet keeps them on a heap
of pending credits and releases those that are due whenever its time moves. A method that raises
returns the wallet it leaves behind, because the caller goes on with it.
-/

namespace PolymarketBt

@[ext] structure PendingCredit where
  availableUtcNs : ℤ
  amountScaled : ℤ
  source : String
  available_nonneg : 0 ≤ availableUtcNs
  amount_nonneg : 0 ≤ amountScaled
deriving Repr

instance : DecidableEq PendingCredit := fun _ _ => decidable_of_iff _ PendingCredit.ext_iff.symm

def PendingCredit.init (availableUtcNs amountScaled : ℤ) (source : String) :
    Except PyError PendingCredit :=
  if available : availableUtcNs < 0 then
    .error (.valueError "credit timestamp must be non-negative")
  else if amount : amountScaled < 0 then
    .error (.valueError "credit amount must be non-negative")
  else
    .ok ⟨availableUtcNs, amountScaled, source, not_lt.mp available, not_lt.mp amount⟩

inductive WalletEventKind where
  | creditReleased
  | debit
  | credit
deriving DecidableEq, Repr

structure WalletEvent where
  timestampUtcNs : ℤ
  kind : WalletEventKind
  amountScaled : ℤ
  availableCashScaled : ℤ
  source : String
deriving DecidableEq, Repr

/-- A credit on the heap, with the number of its push. -/
structure QueuedCredit where
  sequence : ℕ
  credit : PendingCredit
deriving DecidableEq, Repr

/-- Credits leave the heap by availability and then in the order they were pushed. -/
def QueuedCredit.key (item : QueuedCredit) : ℤ ×ₗ ℕ :=
  toLex (item.credit.availableUtcNs, item.sequence)

structure ReplayWallet where
  available : ℤ
  now : ℤ
  pending : SortedQueue QueuedCredit.key
  sequence : ℕ
  events : List WalletEvent

namespace ReplayWallet

def init (startingCashScaled startUtcNs : ℤ) : Except PyError ReplayWallet :=
  if startingCashScaled < 0 then .error (.valueError "starting cash must be non-negative")
  else if startUtcNs < 0 then .error (.valueError "start timestamp must be non-negative")
  else .ok ⟨startingCashScaled, startUtcNs, .empty, 0, []⟩

variable (wallet : ReplayWallet)

def pendingCashScaled : ℤ :=
  (wallet.pending.items.map fun item => item.credit.amountScaled).sum

def totalEquityScaled : ℤ := wallet.available + wallet.pendingCashScaled

/-- The credit is available by an instant. -/
def dueBy (timestampUtcNs : ℤ) (item : QueuedCredit) : Bool :=
  item.credit.availableUtcNs ≤ timestampUtcNs

def peekAvailableAt (timestampUtcNs : ℤ) : Except PyError ℤ :=
  if timestampUtcNs < wallet.now then
    .error (.valueError s!"cannot query cash at {timestampUtcNs} behind wallet time {wallet.now}")
  else
    .ok (wallet.available + ((wallet.pending.items.filter (dueBy timestampUtcNs)).map
      fun item => item.credit.amountScaled).sum)

/-- Change the available cash by an amount and log it. -/
def post (timestampUtcNs : ℤ) (kind : WalletEventKind) (amountScaled : ℤ) (source : String) :
    ReplayWallet :=
  { wallet with
    available := wallet.available + amountScaled
    events := wallet.events ++ [⟨timestampUtcNs, kind, amountScaled,
      wallet.available + amountScaled, source⟩] }

def release (item : QueuedCredit) : ReplayWallet :=
  wallet.post item.credit.availableUtcNs .creditReleased item.credit.amountScaled item.credit.source

/-- Pop and release every credit that is due. -/
def releaseDue (timestampUtcNs : ℤ) : ReplayWallet :=
  (wallet.pending.due (dueBy timestampUtcNs)).foldl release
    { wallet with pending := wallet.pending.popDue (dueBy timestampUtcNs) }

def advanceTo (timestampUtcNs : ℤ) : Except PyError ℤ × ReplayWallet :=
  if timestampUtcNs < wallet.now then
    (.error (.valueError "wallet time cannot move backwards"), wallet)
  else
    let wallet := { wallet.releaseDue timestampUtcNs with now := timestampUtcNs }
    (.ok wallet.available, wallet)

def debit (timestampUtcNs amountScaled : ℤ) (source : String) : Except PyError Unit × ReplayWallet :=
  if amountScaled < 0 then
    (.error (.valueError "debit amount must be non-negative"), wallet)
  else
    match wallet.advanceTo timestampUtcNs with
    | (.error e, wallet) => (.error e, wallet)
    | (.ok _, wallet) =>
      if wallet.available < amountScaled then
        (.error (.insufficientReplayCash
          s!"required {amountScaled}, available {wallet.available} at {timestampUtcNs}"), wallet)
      else
        (.ok (), wallet.post timestampUtcNs .debit (-amountScaled) source)

def credit (timestampUtcNs amountScaled : ℤ) (source : String) : Except PyError Unit × ReplayWallet :=
  if amountScaled < 0 then
    (.error (.valueError "credit amount must be non-negative"), wallet)
  else
    match wallet.advanceTo timestampUtcNs with
    | (.error e, wallet) => (.error e, wallet)
    | (.ok _, wallet) => (.ok (), wallet.post timestampUtcNs .credit amountScaled source)

def scheduleCredit (credit : PendingCredit) : ReplayWallet :=
  if credit.amountScaled = 0 then wallet
  else if credit.availableUtcNs ≤ wallet.now then
    wallet.post wallet.now .creditReleased credit.amountScaled credit.source
  else
    { wallet with
      sequence := wallet.sequence + 1
      pending := wallet.pending.push ⟨wallet.sequence + 1, credit⟩ }

/-- The latest availability of a pending credit. -/
def latestPending : Option ℤ :=
  (wallet.pending.items.map fun item => item.credit.availableUtcNs).max?

def releaseAll : Except PyError ℤ × ReplayWallet :=
  match wallet.latestPending with
  | none => (.ok wallet.available, wallet)
  | some latest =>
    match wallet.advanceTo latest with
    | (.error e, wallet) => (.error e, wallet)
    | (.ok _, wallet) => (.ok wallet.available, wallet)

end ReplayWallet

/-! ## Calls -/

inductive WalletCall where
  | advanceTo (timestampUtcNs : ℤ)
  | debit (timestampUtcNs amountScaled : ℤ) (source : String)
  | credit (timestampUtcNs amountScaled : ℤ) (source : String)
  | scheduleCredit (credit : PendingCredit)
  | peekAvailableAt (timestampUtcNs : ℤ)
  | releaseAll
deriving DecidableEq, Repr

namespace ReplayWallet

/-- The wallet that a call leaves behind, whether it returns or raises. -/
def after (wallet : ReplayWallet) : WalletCall → ReplayWallet
  | .advanceTo timestampUtcNs => (wallet.advanceTo timestampUtcNs).2
  | .debit timestampUtcNs amountScaled source => (wallet.debit timestampUtcNs amountScaled source).2
  | .credit timestampUtcNs amountScaled source => (wallet.credit timestampUtcNs amountScaled source).2
  | .scheduleCredit credit => wallet.scheduleCredit credit
  | .peekAvailableAt _ => wallet
  | .releaseAll => wallet.releaseAll.2

def afterAll (wallet : ReplayWallet) (calls : List WalletCall) : ReplayWallet :=
  calls.foldl after wallet

end ReplayWallet

end PolymarketBt
