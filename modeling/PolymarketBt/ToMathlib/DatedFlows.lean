import Mathlib.Algebra.BigOperators.Group.Multiset.Basic
import Mathlib.Algebra.Order.BigOperators.Group.Multiset
import Mathlib.Tactic.Linarith

/-! # Amounts with dates

Credits and debits come with the instants from which they count. Debits are covered when at every
instant those that count by then are within the opening balance and the credits that count by then.
Debits that were each affordable in the order they were decided are affordable in the order of their
dates, because the last one decided among any of them paid for all of them.
-/

namespace DatedFlows

variable {τ M : Type*} [AddCommGroup M] {flows other : List (τ × M)}

/-- The sum of the amounts. -/
def total (flows : List (τ × M)) : M := (flows.map Prod.snd).sum

@[simp] theorem total_nil : total ([] : List (τ × M)) = 0 := rfl

@[simp] theorem total_append : total (flows ++ other) = total flows + total other := by
  simp [total]

@[simp] theorem total_singleton (flow : τ × M) : total [flow] = flow.2 := by simp [total]

theorem total_perm (same : flows.Perm other) : total flows = total other :=
  (same.map Prod.snd).sum_eq

theorem total_nonneg [LinearOrder M] [IsOrderedAddMonoid M] (gains : ∀ flow ∈ flows, 0 ≤ flow.2) :
    0 ≤ total flows := by
  refine List.sum_nonneg fun amount member => ?_
  obtain ⟨flow, inFlows, rfl⟩ := List.mem_map.mp member
  exact gains flow inFlows

variable [LinearOrder τ] {instant later : τ}

/-- The sum of the amounts that count by an instant. -/
def totalBy (instant : τ) (flows : List (τ × M)) : M := total (flows.filter fun flow => flow.1 ≤ instant)

@[simp] theorem totalBy_nil : totalBy instant ([] : List (τ × M)) = 0 := rfl

@[simp] theorem totalBy_append :
    totalBy instant (flows ++ other) = totalBy instant flows + totalBy instant other := by
  simp [totalBy]

theorem totalBy_singleton (flow : τ × M) :
    totalBy instant [flow] = if flow.1 ≤ instant then flow.2 else 0 := by
  by_cases due : flow.1 ≤ instant <;> simp [totalBy, due]

theorem totalBy_perm (same : flows.Perm other) : totalBy instant flows = totalBy instant other :=
  total_perm (same.filter _)

theorem totalBy_of_le (past : ∀ flow ∈ flows, flow.1 ≤ instant) : totalBy instant flows = total flows := by
  rw [totalBy, List.filter_eq_self.mpr fun flow member => decide_eq_true (past flow member)]

variable [LinearOrder M]

/-- By every instant the debits are within the opening balance and the credits. -/
def Covered (opening : M) (credits debits : List (τ × M)) : Prop :=
  ∀ instant, totalBy instant debits ≤ opening + totalBy instant credits

theorem Covered.nil {opening : M} (nonneg : 0 ≤ opening) : Covered opening ([] : List (τ × M)) [] :=
  fun _ => by simpa using nonneg

theorem Covered.perm {opening : M} {credits debits earned spent : List (τ × M)}
    (covered : Covered opening credits debits) (sameCredits : credits.Perm earned)
    (sameDebits : debits.Perm spent) : Covered opening earned spent := fun instant => by
  rw [← totalBy_perm sameCredits, ← totalBy_perm sameDebits]
  exact covered instant

variable [IsOrderedAddMonoid M]

theorem totalBy_nonneg (gains : ∀ flow ∈ flows, 0 ≤ flow.2) : 0 ≤ totalBy instant flows :=
  total_nonneg fun flow member => gains flow (List.mem_of_mem_filter member)

theorem totalBy_mono (gains : ∀ flow ∈ flows, 0 ≤ flow.2) (forward : instant ≤ later) :
    totalBy instant flows ≤ totalBy later flows := by
  induction flows with
  | nil => simp
  | cons flow rest ih =>
    have rest := ih fun other member => gains other (List.mem_cons_of_mem _ member)
    have gain := gains flow (List.mem_cons_self ..)
    rw [← List.singleton_append, totalBy_append, totalBy_append, totalBy_singleton, totalBy_singleton]
    refine add_le_add ?_ rest
    by_cases due : flow.1 ≤ instant
    · simp [due, due.trans forward]
    · simp only [if_neg due]
      split
      · exact gain
      · exact le_rfl

/-! ## Cover -/

namespace Covered

variable {opening amount : M} {credits debits : List (τ × M)}

theorem credit (covered : Covered opening credits debits) (instant : τ) (gain : 0 ≤ amount) :
    Covered opening (credits ++ [(instant, amount)]) debits := by
  intro when
  have earned : 0 ≤ totalBy when [(instant, amount)] :=
    totalBy_nonneg fun flow member => by rwa [List.mem_singleton.mp member]
  rw [totalBy_append, ← add_assoc]
  exact (covered when).trans (le_add_of_nonneg_right earned)

/-- A debit after all others is covered when all of them are by its date. -/
theorem debit (covered : Covered opening credits debits) (past : ∀ flow ∈ debits, flow.1 ≤ instant)
    (gains : ∀ flow ∈ credits, 0 ≤ flow.2)
    (paid : total debits + amount ≤ opening + totalBy instant credits) :
    Covered opening credits (debits ++ [(instant, amount)]) := by
  intro when
  rw [totalBy_append, totalBy_singleton]
  by_cases due : instant ≤ when
  · rw [if_pos due, totalBy_of_le fun flow member => (past flow member).trans due]
    exact paid.trans (add_le_add_right (totalBy_mono gains due) _)
  · rw [if_neg due, add_zero]
    exact covered when

end Covered

/-! ## Purchases -/

/-- Each purchase, with those decided before it, is within the cash there is at its date. -/
def Paid (cash : τ → M) (purchases : List (τ × M)) : Prop :=
  ∀ past purchase future, purchases = past ++ purchase :: future →
    total past + purchase.2 ≤ cash purchase.1

variable {cash : τ → M} {purchases : List (τ × M)}

omit [LinearOrder τ] [IsOrderedAddMonoid M] in
theorem Paid.mono {more : τ → M} (paid : Paid cash purchases)
    (grows : ∀ purchase ∈ purchases, cash purchase.1 ≤ more purchase.1) : Paid more purchases :=
  fun past purchase future split => (paid past purchase future split).trans
    (grows purchase (by simp [split]))

omit [LinearOrder τ] in
/-- The purchases after the first are paid from what it leaves. -/
theorem Paid.tail {first : τ × M} {rest : List (τ × M)} (paid : Paid cash (first :: rest)) :
    Paid (fun instant => cash instant - first.2) rest := by
  intro past purchase future split
  have all := paid (first :: past) purchase future (by rw [split, List.cons_append])
  rw [← List.singleton_append, total_append, total_singleton, add_assoc] at all
  exact le_sub_iff_add_le'.mpr all

/-- Of any of the purchases, one pays for all of them at its date. -/
theorem Paid.exists_payer (paid : Paid cash purchases) (costs : ∀ purchase ∈ purchases, 0 ≤ purchase.2)
    {chosen : Multiset (τ × M)} (among : chosen ≤ ↑purchases) (any : chosen ≠ 0) :
    ∃ payer ∈ chosen, (chosen.map Prod.snd).sum ≤ cash payer.1 := by
  classical
  -- The payer is the one decided last.
  induction purchases using List.reverseRecOn generalizing chosen with
  | nil => exact absurd (Multiset.le_zero.mp among) any
  | append_singleton past last ih =>
    have earlier : Paid cash past := fun first purchase future split =>
      paid first purchase (future ++ [last]) (by rw [split]; simp)
    have costsPast := fun purchase member => costs purchase (List.mem_append_left _ member)
    have among' : chosen ≤ last ::ₘ (past : Multiset (τ × M)) := by
      rw [← Multiset.coe_add, Multiset.coe_singleton] at among
      rwa [← Multiset.singleton_add, Multiset.add_comm]
    by_cases chosenLast : last ∈ chosen
    · refine ⟨last, chosenLast, ?_⟩
      obtain ⟨rest, rfl⟩ := Multiset.exists_cons_of_mem chosenLast
      have restAmong : rest ≤ (past : Multiset (τ × M)) := (Multiset.cons_le_cons_iff last).mp among'
      obtain ⟨left, same⟩ := Multiset.le_iff_exists_add.mp restAmong
      have split : total past = (rest.map Prod.snd).sum + (left.map Prod.snd).sum := by
        rw [← Multiset.sum_add, ← Multiset.map_add, ← same]
        rfl
      have leftNonneg : 0 ≤ (left.map Prod.snd).sum := by
        refine Multiset.sum_nonneg fun amount member => ?_
        obtain ⟨purchase, inLeft, rfl⟩ := Multiset.mem_map.mp member
        refine costsPast purchase (Multiset.mem_coe.mp ?_)
        rw [same]
        exact Multiset.mem_add.mpr (.inr inLeft)
      have own := paid past last [] rfl
      rw [split] at own
      rw [Multiset.map_cons, Multiset.sum_cons, add_comm]
      exact (add_le_add_left (le_add_of_nonneg_right leftNonneg) _).trans own
    · exact ih earlier costsPast ((Multiset.le_cons_of_notMem chosenLast).mp among') any

/-- Purchases settled by their dates are paid in that order too, from cash that does not shrink. -/
theorem Paid.by_date (paid : Paid cash purchases) (costs : ∀ purchase ∈ purchases, 0 ≤ purchase.2)
    (grows : Monotone cash) {settled : List (τ × M)} (same : settled.Perm purchases)
    (dated : settled.Pairwise fun first second => first.1 ≤ second.1) : Paid cash settled := by
  intro past purchase future split
  subst split
  have among : ((past ++ [purchase] : List (τ × M)) : Multiset (τ × M)) ≤ ↑purchases := by
    rw [← Multiset.coe_eq_coe.mpr same, Multiset.coe_le, List.append_cons past purchase future]
    exact (List.sublist_append_left ..).subperm
  obtain ⟨payer, member, pays⟩ := paid.exists_payer costs among (by simp)
  have before : payer.1 ≤ purchase.1 := by
    rcases List.mem_append.mp (Multiset.mem_coe.mp member) with early | own
    · exact (List.pairwise_append.mp dated).2.2 payer early purchase (List.mem_cons_self ..)
    · rw [List.mem_singleton.mp own]
  have spent : total past + purchase.2 =
      (Multiset.map Prod.snd ((past ++ [purchase] : List (τ × M)) : Multiset (τ × M))).sum := by
    rw [← total_singleton purchase, ← total_append]
    rfl
  rw [spent]
  exact pays.trans (grows before)

end DatedFlows
