import Mathlib.Data.List.Nodup
import Mathlib.Data.List.Perm.Subperm
import Mathlib.Order.Bounds.Basic

/-! # Matchings in a relation made of complete classes

When every two items that share a partner share all their partners, a matching that leaves no related
pair unmatched on both sides has as many pairs as any other. So a greedy choice of pairs loses
nothing as long as its pairs are of this relation alone.
-/

namespace ClassMatching

variable {α β : Type*} {related : α → β → Prop} {pairs others : List (α × β)}

/-- Two left items with a common partner have the same partners. -/
def Difunctional (related : α → β → Prop) : Prop :=
  ∀ ⦃first second left right⦄, related first left → related second left → related second right →
    related first right

/-- Related pairs that use no item twice. -/
structure IsMatching (related : α → β → Prop) (pairs : List (α × β)) : Prop where
  related : ∀ pair ∈ pairs, related pair.1 pair.2
  left : (pairs.map Prod.fst).Nodup
  right : (pairs.map Prod.snd).Nodup

/-- No related pair has both of its items unmatched. -/
def Saturated (related : α → β → Prop) (pairs : List (α × β)) : Prop :=
  ∀ first second, related first second →
    first ∈ pairs.map Prod.fst ∨ second ∈ pairs.map Prod.snd

theorem IsMatching.left_inj (matching : IsMatching related pairs) {first second : α × β}
    (inFirst : first ∈ pairs) (inSecond : second ∈ pairs) (same : first.1 = second.1) :
    first = second :=
  List.inj_on_of_nodup_map matching.left inFirst inSecond same

theorem IsMatching.right_inj (matching : IsMatching related pairs) {first second : α × β}
    (inFirst : first ∈ pairs) (inSecond : second ∈ pairs) (same : first.2 = second.2) :
    first = second :=
  List.inj_on_of_nodup_map matching.right inFirst inSecond same

/-- The class of a right item still has a left item without a partner. -/
def Starved (related : α → β → Prop) (pairs : List (α × β)) (second : β) : Prop :=
  ∃ first, related first second ∧ first ∉ pairs.map Prod.fst

/-- The saturated matching has a pair that shares an item with the given one: the right item where
its class is starved, and the left item elsewhere. -/
theorem Saturated.partner (saturated : Saturated related pairs) {pair : α × β}
    (fits : related pair.1 pair.2) :
    ∃ chosen ∈ pairs, (Starved related pairs pair.2 ∧ chosen.2 = pair.2) ∨
      (¬ Starved related pairs pair.2 ∧ chosen.1 = pair.1) := by
  by_cases starved : Starved related pairs pair.2
  · obtain ⟨first, own, free⟩ := starved
    obtain ⟨chosen, member, same⟩ :=
      List.mem_map.mp ((saturated first pair.2 own).resolve_left free)
    exact ⟨chosen, member, .inl ⟨⟨first, own, free⟩, same⟩⟩
  · have covered : pair.1 ∈ pairs.map Prod.fst := by
      by_contra free
      exact starved ⟨pair.1, fits, free⟩
    obtain ⟨chosen, member, same⟩ := List.mem_map.mp covered
    exact ⟨chosen, member, .inr ⟨starved, same⟩⟩

/-- No matching is longer than a saturated one. -/
theorem IsMatching.length_le (classes : Difunctional related) (matching : IsMatching related pairs)
    (saturated : Saturated related pairs) (other : IsMatching related others) :
    others.length ≤ pairs.length := by
  choose partner inside shares using
    fun (pair : α × β) (fits : related pair.1 pair.2) => saturated.partner fits
  classical
  let chosen : α × β → α × β := fun pair =>
    if fits : related pair.1 pair.2 then partner pair fits else pair
  have chosen_of : ∀ pair (fits : related pair.1 pair.2), chosen pair = partner pair fits :=
    fun pair fits => dif_pos fits
  have injective : ∀ first ∈ others, ∀ second ∈ others, chosen first = chosen second →
      first = second := by
    intro first inFirst second inSecond same
    have fitsFirst := other.related first inFirst
    have fitsSecond := other.related second inSecond
    rw [chosen_of first fitsFirst, chosen_of second fitsSecond] at same
    have inPairs := matching.related _ (inside first fitsFirst)
    rcases shares first fitsFirst with ⟨starved, right⟩ | ⟨fed, left⟩ <;>
    rcases shares second fitsSecond with ⟨starved', right'⟩ | ⟨fed', left'⟩
    · exact other.right_inj inFirst inSecond (by rw [← right, ← right', same])
    · -- the shared pair joins the two classes, so a starved left item of one starves the other
      rw [← same] at left'
      rw [right, left'] at inPairs
      obtain ⟨hungry, own, free⟩ := starved
      exact absurd ⟨hungry, classes own inPairs fitsSecond, free⟩ fed'
    · rw [left, same, right'] at inPairs
      obtain ⟨hungry, own, free⟩ := starved'
      exact absurd ⟨hungry, classes own inPairs fitsFirst, free⟩ fed
    · exact other.left_inj inFirst inSecond (by rw [← left, ← left', same])
  have nodup : (others.map chosen).Nodup :=
    List.Nodup.map_on injective (List.Nodup.of_map _ other.left)
  have within : others.map chosen ⊆ pairs := by
    intro pair member
    obtain ⟨original, inOthers, rfl⟩ := List.mem_map.mp member
    rw [chosen_of original (other.related original inOthers)]
    exact inside _ _
  simpa using (nodup.subperm within).length_le

/-- The lengths of the matchings. -/
def sizes (related : α → β → Prop) : Set ℕ :=
  {size | ∃ pairs, IsMatching related pairs ∧ pairs.length = size}

/-- A matching is a longest one exactly when it is saturated. -/
theorem IsMatching.isGreatest_iff (classes : Difunctional related)
    (matching : IsMatching related pairs) :
    IsGreatest (sizes related) pairs.length ↔ Saturated related pairs := by
  constructor
  · rintro ⟨_, longest⟩ first second fits
    by_contra free
    rw [not_or] at free
    have longer : IsMatching related ((first, second) :: pairs) := by
      refine ⟨?_, ?_, ?_⟩
      · intro pair member
        rcases List.mem_cons.mp member with rfl | old
        · exact fits
        · exact matching.related pair old
      · exact List.nodup_cons.mpr ⟨free.1, matching.left⟩
      · exact List.nodup_cons.mpr ⟨free.2, matching.right⟩
    have := longest ⟨_, longer, rfl⟩
    rw [List.length_cons] at this
    omega
  · intro saturated
    refine ⟨⟨pairs, matching, rfl⟩, ?_⟩
    rintro size ⟨others, other, rfl⟩
    exact matching.length_le classes saturated other

/-- Renaming the left items one to one keeps the lengths of the matchings. -/
theorem sizes_subset_of_injective {γ : Type*} {renamed : γ → β → Prop} {rename : α → γ}
    (injective : Function.Injective rename)
    (keeps : ∀ first second, related first second → renamed (rename first) second) :
    sizes related ⊆ sizes renamed := by
  rintro size ⟨pairs, matching, rfl⟩
  refine ⟨pairs.map fun pair => (rename pair.1, pair.2), ⟨?_, ?_, ?_⟩, List.length_map _⟩
  · intro pair member
    obtain ⟨original, inPairs, rfl⟩ := List.mem_map.mp member
    exact keeps _ _ (matching.related original inPairs)
  · rw [List.map_map]
    have := matching.left.map injective
    rwa [List.map_map] at this
  · rw [List.map_map]
    exact matching.right

/-- A permutation of a list renames its places one to one. -/
theorem exists_rename_of_perm {items reordered : List α} (perm : items.Perm reordered) :
    ∃ rename : ℕ → ℕ, Function.Injective rename ∧
      ∀ place item, items[place]? = some item → reordered[rename place]? = some item := by
  induction perm with
  | nil => exact ⟨id, Function.injective_id, fun place item found => found⟩
  | @cons head items reordered _ ih =>
    obtain ⟨rename, injective, keeps⟩ := ih
    refine ⟨fun | 0 => 0 | place + 1 => rename place + 1, ?_, ?_⟩
    · rintro (_ | first) (_ | second) same
      · rfl
      · exact absurd same (Nat.succ_ne_zero _).symm
      · exact absurd same (Nat.succ_ne_zero _)
      · exact congrArg (· + 1) (injective (Nat.succ.inj same))
    · rintro (_ | place) item found
      · exact found
      · exact keeps place item found
  | swap first second items =>
    refine ⟨fun | 0 => 1 | 1 => 0 | place + 2 => place + 2, ?_, ?_⟩
    · rintro (_ | _ | first) (_ | _ | second) same <;> simp_all
    · rintro (_ | _ | place) item found <;> exact found
  | trans _ _ first second =>
    obtain ⟨rename, injective, keeps⟩ := first
    obtain ⟨again, injectiveAgain, keepsAgain⟩ := second
    exact ⟨again ∘ rename, injectiveAgain.comp injective,
      fun place item found => keepsAgain _ item (keeps place item found)⟩

end ClassMatching
