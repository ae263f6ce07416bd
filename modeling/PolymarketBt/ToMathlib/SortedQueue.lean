import PolymarketBt.ToMathlib.StableSort

/-! # Priority queues as sorted lists

A queue lists its items in the order in which it pops them. Popping while the key allows it removes
exactly the items that a condition holding of every smaller key selects.
-/

universe u v

open StableSort (InOrder)

/-- The items of a priority queue in the order in which they are popped. -/
structure SortedQueue {α : Type u} {κ : Type v} [LinearOrder κ] (key : α → κ) where
  items : List α
  inOrder : InOrder key items

namespace SortedQueue

variable {α : Type u} {κ : Type v} [LinearOrder κ] {key : α → κ} (queue : SortedQueue key)

def empty : SortedQueue key := ⟨[], List.Pairwise.nil⟩

def push (item : α) : SortedQueue key where
  items := queue.items.orderedInsert (fun first second => key first ≤ key second) item
  inOrder := List.Pairwise.orderedInsert item queue.items queue.inOrder

/-- The items popped while a condition on the first one holds. -/
def due (condition : α → Bool) : List α := queue.items.takeWhile condition

/-- What is left then. -/
def popDue (condition : α → Bool) : SortedQueue key where
  items := queue.items.dropWhile condition
  inOrder := queue.inOrder.sublist (List.dropWhile_sublist condition)

@[simp] theorem items_empty : (empty : SortedQueue key).items = [] := rfl

theorem push_perm (item : α) : (queue.push item).items.Perm (item :: queue.items) :=
  List.perm_orderedInsert _ item queue.items

@[simp] theorem mem_push {item other : α} :
    other ∈ (queue.push item).items ↔ other = item ∨ other ∈ queue.items := by
  rw [(queue.push_perm item).mem_iff, List.mem_cons]

theorem due_append_popDue (condition : α → Bool) :
    queue.due condition ++ (queue.popDue condition).items = queue.items :=
  List.takeWhile_append_dropWhile

theorem due_inOrder (condition : α → Bool) : InOrder key (queue.due condition) :=
  queue.inOrder.sublist (List.takeWhile_sublist condition)

section Downward

variable {condition : α → Bool}
  (downward : ∀ first second, key first ≤ key second → condition second → condition first)

include downward

private theorem takeWhile_dropWhile_eq_filter {items : List α} (inOrder : InOrder key items) :
    items.takeWhile condition = items.filter condition ∧
      items.dropWhile condition = items.filter fun item => !condition item := by
  induction items with
  | nil => exact ⟨rfl, rfl⟩
  | cons first rest ih =>
    obtain ⟨least, restInOrder⟩ := List.pairwise_cons.mp inOrder
    by_cases selected : condition first = true
    · simp [selected, ih restInOrder]
    · -- No later item is selected when the first is not.
      have none : ∀ item ∈ rest, condition item = false := fun item member =>
        Bool.eq_false_iff.mpr fun later => selected (downward _ _ (least item member) later)
      simp only [selected, List.takeWhile_cons, List.dropWhile_cons, List.filter_cons]
      constructor
      · simpa using none
      · simp only [Bool.not_false, reduceIte, Bool.false_eq_true]
        rw [List.filter_eq_self.mpr fun item member => by simp [none item member]]

/-- The items popped are the selected ones. -/
theorem due_eq_filter : queue.due condition = queue.items.filter condition :=
  (takeWhile_dropWhile_eq_filter downward queue.inOrder).1

theorem popDue_eq_filter :
    (queue.popDue condition).items = queue.items.filter fun item => !condition item :=
  (takeWhile_dropWhile_eq_filter downward queue.inOrder).2

end Downward

end SortedQueue
