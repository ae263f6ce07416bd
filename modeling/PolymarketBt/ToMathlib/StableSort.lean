import Mathlib.Data.List.Sort
import Mathlib.Data.List.SplitBy

/-! # Stable sorting by a key

Sorting by a key keeps the order of items with equal keys, so it changes nothing on a list whose
keys do not decrease, and commutes with filters. A list in order falls into groups of one key, each
with a greater key than the last.
-/

namespace StableSort

variable {α β κ : Type*} [LinearOrder κ] {key : α → κ}

/-- Sort by a key, keeping the order of equal keys. -/
def sortByKey (key : α → κ) (items : List α) : List α :=
  items.insertionSort fun first second => key first ≤ key second

/-- The keys of the list do not decrease. -/
def InOrder (key : α → κ) (items : List α) : Prop :=
  items.Pairwise fun first second => key first ≤ key second

instance total_key : Std.Total fun first second : α => key first ≤ key second := ⟨fun _ _ => le_total _ _⟩

instance isTrans_key : IsTrans α fun first second => key first ≤ key second := ⟨fun _ _ _ => le_trans⟩

theorem sortByKey_cons (item : α) (rest : List α) :
    sortByKey key (item :: rest) =
      (sortByKey key rest).orderedInsert (fun first second => key first ≤ key second) item := rfl

theorem sortByKey_inOrder (key : α → κ) (items : List α) : InOrder key (sortByKey key items) :=
  List.pairwise_insertionSort _ items

theorem sortByKey_perm (key : α → κ) (items : List α) : (sortByKey key items).Perm items :=
  List.perm_insertionSort _ items

@[simp] theorem mem_sortByKey {item : α} {items : List α} :
    item ∈ sortByKey key items ↔ item ∈ items :=
  (sortByKey_perm key items).mem_iff

theorem InOrder.sortByKey_eq {items : List α} (inOrder : InOrder key items) :
    sortByKey key items = items :=
  List.Pairwise.insertionSort_eq inOrder

theorem sortByKey_eq_self_iff {items : List α} : sortByKey key items = items ↔ InOrder key items :=
  ⟨fun same => same ▸ sortByKey_inOrder key items, InOrder.sortByKey_eq⟩

theorem sortByKey_map (f : α → β) (key : β → κ) (items : List α) :
    sortByKey key (items.map f) = (sortByKey (fun item => key (f item)) items).map f :=
  (List.map_insertionSort _ _ f items fun _ _ _ _ => Iff.rfl).symm

private theorem filter_orderedInsert (keep : α → Bool) (item : α) (sorted : List α)
    (inOrder : InOrder key sorted) :
    (sorted.orderedInsert (fun first second => key first ≤ key second) item).filter keep =
      if keep item then
        (sorted.filter keep).orderedInsert (fun first second => key first ≤ key second) item
      else sorted.filter keep := by
  induction sorted with
  | nil => by_cases kept : keep item <;> simp [kept]
  | cons head rest ih =>
    obtain ⟨least, later⟩ := List.pairwise_cons.mp inOrder
    rw [List.orderedInsert_cons]
    by_cases first : key item ≤ key head
    · rw [if_pos first, List.filter_cons]
      by_cases kept : keep item
      · -- the item goes before everything that is kept
        simp only [kept, ↓reduceIte]
        have before : ∀ other ∈ (head :: rest).filter keep, key item ≤ key other := by
          intro other member
          rcases List.mem_cons.mp (List.mem_of_mem_filter member) with rfl | inRest
          · exact first
          · exact first.trans (least other inRest)
        generalize (head :: rest).filter keep = keptItems at before
        cases keptItems with
        | nil => rfl
        | cons other tail => rw [List.orderedInsert_cons, if_pos (before other List.mem_cons_self)]
      · simp [kept]
    · rw [if_neg first, List.filter_cons, ih later]
      by_cases kept : keep head <;> by_cases own : keep item <;> simp [kept, own, first]

/-- A filter does not disturb a stable sort. -/
theorem sortByKey_filter (key : α → κ) (keep : α → Bool) (items : List α) :
    (sortByKey key items).filter keep = sortByKey key (items.filter keep) := by
  induction items with
  | nil => rfl
  | cons item rest ih =>
    rw [sortByKey_cons, filter_orderedInsert keep item _ (sortByKey_inOrder key rest), ih,
      List.filter_cons]
    split
    · rfl
    · rfl

/-- Lists in order with the same items of every key, in the same order, are equal. -/
theorem InOrder.ext {first second : List α} (firstInOrder : InOrder key first)
    (secondInOrder : InOrder key second)
    (same : ∀ k, first.filter (key · = k) = second.filter (key · = k)) : first = second := by
  induction first generalizing second with
  | nil =>
    cases second with
    | nil => rfl
    | cons item rest =>
      have absent := same (key item)
      simp at absent
  | cons item rest ih =>
    obtain ⟨least, later⟩ := List.pairwise_cons.mp firstInOrder
    cases second with
    | nil =>
      have absent := same (key item)
      simp at absent
    | cons other others =>
      obtain ⟨otherLeast, otherLater⟩ := List.pairwise_cons.mp secondInOrder
      -- each head is in the other list, so neither key is below the other
      have lists := same (key item)
      have otherLists := same (key other)
      have member : item ∈ (other :: others).filter (key · = key item) := by
        rw [← lists]
        simp
      have otherMember : other ∈ (item :: rest).filter (key · = key other) := by
        rw [otherLists]
        simp
      have keys : key item = key other := by
        refine le_antisymm ?_ ?_
        · rcases List.mem_cons.mp (List.mem_of_mem_filter otherMember) with rfl | inRest
          · exact le_rfl
          · exact least other inRest
        · rcases List.mem_cons.mp (List.mem_of_mem_filter member) with rfl | inRest
          · exact le_rfl
          · exact otherLeast item inRest
      obtain rfl : item = other := by
        simp only [List.filter_cons, keys, decide_true, ↓reduceIte, List.cons.injEq] at lists
        exact lists.1
      refine congrArg _ (ih later otherLater fun k => ?_)
      have parts := same k
      simp only [List.filter_cons] at parts
      split at parts
      · exact (List.cons.inj parts).2
      · exact parts

/-- A stable sort depends only on the items of every key, in their order. -/
theorem sortByKey_congr {first second : List α}
    (same : ∀ k, first.filter (key · = k) = second.filter (key · = k)) :
    sortByKey key first = sortByKey key second := by
  refine (sortByKey_inOrder key first).ext (sortByKey_inOrder key second) fun k => ?_
  have constant (items : List α) : InOrder key (items.filter (key · = k)) :=
    List.pairwise_of_forall_mem_list fun earlier own later other => by
      have left := of_decide_eq_true (List.mem_filter.mp own).2
      have right := of_decide_eq_true (List.mem_filter.mp other).2
      rw [left, right]
  rw [sortByKey_filter, sortByKey_filter, (constant first).sortByKey_eq,
    (constant second).sortByKey_eq, same]

/-- Sorting by distinct keys in the dual order reverses the list. -/
theorem sortByKey_toDual {items : List α} (distinct : (items.map key).Nodup) :
    sortByKey (fun item => OrderDual.toDual (key item)) items = (sortByKey key items).reverse := by
  have backwards : InOrder (fun item => OrderDual.toDual (key item)) (sortByKey key items).reverse :=
    List.pairwise_reverse.mpr (sortByKey_inOrder key items)
  refine List.Perm.eq_of_pairwise ?_ (sortByKey_inOrder _ items) backwards
    ((sortByKey_perm _ items).trans ((sortByKey_perm key items).symm.trans
      (List.reverse_perm _).symm))
  intro first second inFirst inSecond below above
  refine List.inj_on_of_nodup_map distinct (mem_sortByKey.mp inFirst) ?_ (le_antisymm above below)
  exact mem_sortByKey.mp (List.mem_reverse.mp inSecond)

/-! ## Groups of one key -/

/-- Nonempty groups, each of one key that is less than the keys of the groups after it. -/
inductive Grouped (key : α → κ) : List (List α) → Prop
  | nil : Grouped key []
  | cons {k : κ} {first : α} {others : List α} {groups : List (List α)} (own : key first = k)
      (same : ∀ item ∈ others, key item = k) (later : ∀ item ∈ groups.flatten, k < key item)
      (rest : Grouped key groups) : Grouped key ((first :: others) :: groups)

private theorem grouped_of_chains {alike : α → α → Bool} {groups : List (List α)}
    (agrees : ∀ first ∈ groups.flatten, ∀ second ∈ groups.flatten,
      alike first second ↔ key first = key second)
    (nonempty : [] ∉ groups) (inside : ∀ group ∈ groups, group.IsChain fun x y => alike x y)
    (between : groups.IsChain fun a b => ∃ ha hb, alike (a.getLast ha) (b.head hb) = false)
    (inOrder : InOrder key groups.flatten) : Grouped key groups := by
  induction groups with
  | nil => exact .nil
  | cons group groups ih =>
    rw [List.mem_cons, not_or] at nonempty
    cases group with
    | nil => exact absurd rfl nonempty.1
    | cons first others =>
      rw [List.flatten_cons] at agrees inOrder
      obtain ⟨_, laterInOrder, across⟩ := List.pairwise_append.mp inOrder
      have chained : (first :: others).IsChain fun x y => key x = key y := by
        refine (inside _ List.mem_cons_self).imp_of_mem_imp fun x y inX inY related => ?_
        exact (agrees x (List.mem_append_left _ inX) y (List.mem_append_left _ inY)).mp related
      have pairs : (first :: others).Pairwise fun x y => key x = key y := by
        have : IsTrans α fun x y => key x = key y := ⟨fun _ _ _ => Eq.trans⟩
        exact List.isChain_iff_pairwise.mp chained
      have same : ∀ item ∈ others, key item = key first := fun item member =>
        ((List.pairwise_cons.mp pairs).1 item member).symm
      refine .cons rfl same ?_ (ih (fun x inX y inY => agrees x (List.mem_append_right _ inX) y
        (List.mem_append_right _ inY)) nonempty.2
        (fun other member => inside other (List.mem_cons_of_mem _ member)) between.tail laterInOrder)
      intro item member
      cases groups with
      | nil => cases member
      | cons next groups =>
        obtain ⟨_, hasHead, unlike⟩ := (List.isChain_cons.mp between).1 next rfl
        have lastIn : (first :: others).getLast (by simp) ∈ first :: others := List.getLast_mem _
        have headIn : next.head hasHead ∈ (next :: groups).flatten := by
          rw [List.flatten_cons]
          exact List.mem_append_left _ (List.head_mem hasHead)
        have lastKey : key ((first :: others).getLast (by simp)) = key first := by
          rcases List.mem_cons.mp lastIn with own | other
          · rw [own]
          · exact same _ other
        have apart : key first ≠ key (next.head hasHead) := by
          intro equal
          have related := (agrees _ (List.mem_append_left _ lastIn) _
            (List.mem_append_right _ headIn)).mpr (lastKey.trans equal)
          rw [unlike] at related
          cases related
        have before : key first < key (next.head hasHead) :=
          lt_of_le_of_ne (across first List.mem_cons_self _ headIn) apart
        refine before.trans_le ?_
        rw [List.flatten_cons] at member laterInOrder
        cases next with
        | nil => exact absurd rfl hasHead
        | cons head tail =>
          rcases List.mem_cons.mp member with rfl | inRest
          · exact le_rfl
          · exact (List.pairwise_cons.mp laterInOrder).1 item inRest

/-- A list in order is split into its groups wherever neighbours differ. -/
theorem InOrder.grouped_splitBy {alike : α → α → Bool} {items : List α} (inOrder : InOrder key items)
    (agrees : ∀ first ∈ items, ∀ second ∈ items, alike first second ↔ key first = key second) :
    Grouped key (items.splitBy alike) := by
  have joined := List.flatten_splitBy alike items
  exact grouped_of_chains (by rwa [joined]) (List.nil_notMem_splitBy alike items)
    (fun _ member => List.isChain_of_mem_splitBy member) (List.isChain_getLast_head_splitBy alike items)
    (by rwa [joined])

end StableSort
