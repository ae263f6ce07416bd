import Mathlib.Algebra.BigOperators.Group.List.Basic
import Mathlib.Data.List.Induction
import Mathlib.Data.List.Nodup
import Mathlib.Data.List.Perm.Subperm
import PolymarketBt.ToMathlib.ListSplits

/-! # Lists with distinct keys

A list whose items have distinct keys is a finite map. Replacing or removing the item of one key
changes a sum over the list by that item alone.
-/

namespace KeyedList

variable {α κ M : Type*} [DecidableEq κ] [AddCommMonoid M] {key : α → κ} {k : κ} {item : α}
  {items : List α}

/-- Replace the item of one key. -/
def replace (key : α → κ) (k : κ) (change : α → α) (items : List α) : List α :=
  items.map fun item => if key item = k then change item else item

/-- Remove the item of one key. -/
def without (key : α → κ) (k : κ) (items : List α) : List α := items.filter fun item => key item ≠ k

/-- Give a key its value in an insertion-ordered map: a new key goes last. -/
def assign {V : Type*} (k : κ) (value : V) (entries : List (κ × V)) : List (κ × V) :=
  if (entries.lookup k).isSome then
    entries.map fun entry => if entry.1 = k then (k, value) else entry
  else entries ++ [(k, value)]

theorem map_key_replace {change : α → α} (keeps : ∀ item, key item = k → key (change item) = k) :
    (replace key k change items).map key = items.map key := by
  unfold replace
  rw [List.map_map]
  refine List.map_congr_left fun item _ => ?_
  by_cases own : key item = k
  · simp [own, keeps item own]
  · simp [own]

theorem map_key_without : (without key k items).map key = (items.map key).filter (· ≠ k) := by
  unfold without
  rw [List.filter_map]
  rfl

theorem find_spec (found : items.find? (fun item => key item = k) = some item) :
    item ∈ items ∧ key item = k :=
  ⟨List.mem_of_find?_eq_some found, by simpa using List.find?_some found⟩

/-- A key of the list has an item. -/
theorem exists_find (member : k ∈ items.map key) :
    ∃ item, items.find? (fun item => key item = k) = some item := by
  obtain ⟨item, own, same⟩ := List.mem_map.mp member
  exact Option.isSome_iff_exists.mp (List.find?_isSome.mpr ⟨item, own, by simpa using same⟩)

private theorem without_of_notMem (absent : k ∉ items.map key) : without key k items = items := by
  refine List.filter_eq_self.mpr fun item member => ?_
  simp only [ne_eq, decide_not, Bool.not_eq_eq_eq_not, Bool.not_true, decide_eq_false_iff_not]
  exact fun same => absent (List.mem_map.mpr ⟨item, member, same⟩)

private theorem replace_of_notMem {change : α → α} (absent : k ∉ items.map key) :
    replace key k change items = items := by
  unfold replace
  conv_rhs => rw [← List.map_id items]
  refine List.map_congr_left fun item member => ?_
  rw [if_neg fun same => absent (List.mem_map.mpr ⟨item, member, same⟩)]
  rfl

/-- A sum over the list is the item of one key and the sum over the rest. -/
theorem sum_without (f : α → M) (distinct : (items.map key).Nodup)
    (found : items.find? (fun item => key item = k) = some item) :
    (items.map f).sum = f item + ((without key k items).map f).sum := by
  induction items with
  | nil => cases found
  | cons head rest ih =>
    rw [List.map_cons, List.nodup_cons] at distinct
    rw [List.find?_cons] at found
    by_cases own : key head = k
    · simp only [own, decide_true, Option.some.injEq] at found
      subst found
      have others := without_of_notMem (own ▸ distinct.1)
      have kept : without key k (head :: rest) = without key k rest := by simp [without, own]
      rw [kept, others, List.map_cons, List.sum_cons]
    · simp only [own, decide_false] at found
      have kept : without key k (head :: rest) = head :: without key k rest := by
        simp [without, own]
      rw [kept, List.map_cons, List.map_cons, List.sum_cons, List.sum_cons, ih distinct.2 found]
      exact add_left_comm _ _ _

/-- Replacing an item by one with more adds the difference to the sum. -/
theorem sum_replace (f : α → M) {change : α → α} {more : M} (distinct : (items.map key).Nodup)
    (found : items.find? (fun item => key item = k) = some item)
    (grows : f (change item) = f item + more) :
    ((replace key k change items).map f).sum = (items.map f).sum + more := by
  induction items with
  | nil => cases found
  | cons head rest ih =>
    rw [List.map_cons, List.nodup_cons] at distinct
    rw [List.find?_cons] at found
    by_cases own : key head = k
    · simp only [own, decide_true, Option.some.injEq] at found
      subst found
      have others : replace key k change rest = rest := replace_of_notMem (own ▸ distinct.1)
      have changed : replace key k change (head :: rest) = change head :: replace key k change rest := by
        simp [replace, own]
      rw [changed, others, List.map_cons, List.map_cons, List.sum_cons, List.sum_cons, grows]
      exact add_right_comm _ _ _
    · simp only [own, decide_false] at found
      have kept : replace key k change (head :: rest) = head :: replace key k change rest := by
        simp [replace, own]
      rw [kept, List.map_cons, List.map_cons, List.sum_cons, List.sum_cons, ih distinct.2 found,
        add_assoc]

/-! ## The items of one key -/

theorem filter_eq_singleton (distinct : (items.map key).Nodup)
    (found : items.find? (fun item => key item = k) = some item) :
    items.filter (fun item => key item = k) = [item] := by
  induction items with
  | nil => cases found
  | cons head rest ih =>
    rw [List.map_cons, List.nodup_cons] at distinct
    rw [List.find?_cons] at found
    by_cases own : key head = k
    · simp only [own, decide_true, Option.some.injEq] at found
      subst found
      have others : rest.filter (fun item => key item = k) = [] := by
        refine List.filter_eq_nil_iff.mpr fun other member => ?_
        simp only [decide_eq_true_eq]
        exact fun same => distinct.1 (own.trans same.symm ▸ List.mem_map_of_mem member)
      rw [List.filter_cons_of_pos (by simpa using own), others]
    · simp only [own, decide_false] at found
      rw [List.filter_cons_of_neg (by simpa using own), ih distinct.2 found]

theorem filter_without_self : (without key k items).filter (fun item => key item = k) = [] := by
  unfold without
  rw [List.filter_filter]
  exact List.filter_eq_nil_iff.mpr (by simp)

theorem filter_without_of_ne {other : κ} (distinct : other ≠ k) :
    (without key k items).filter (fun item => key item = other) =
      items.filter fun item => key item = other := by
  unfold without
  rw [List.filter_filter]
  refine List.filter_congr fun item _ => ?_
  by_cases own : key item = other
  · simp [own, distinct]
  · simp [own]

theorem filter_replace_self {change : α → α} (keeps : ∀ item, key item = k → key (change item) = k) :
    (replace key k change items).filter (fun item => key item = k) =
      (items.filter fun item => key item = k).map change := by
  unfold replace
  induction items with
  | nil => rfl
  | cons head rest ih =>
    by_cases own : key head = k
    · simpa [own, keeps head own] using ih
    · simpa [own] using ih

theorem filter_replace_of_ne {change : α → α} {other : κ}
    (keeps : ∀ item, key item = k → key (change item) = k) (distinct : other ≠ k) :
    (replace key k change items).filter (fun item => key item = other) =
      items.filter fun item => key item = other := by
  unfold replace
  induction items with
  | nil => rfl
  | cons head rest ih =>
    by_cases own : key head = k
    · have apart : k ≠ other := distinct.symm
      simpa [own, keeps head own, apart] using ih
    · rw [List.map_cons, if_neg own, List.filter_cons, List.filter_cons, ih]

/-! ## Insertion-ordered maps -/

section Assign

variable {V : Type*} {k other : κ} {value : V} {entries : List (κ × V)}

theorem assign_cons_self (old : V) :
    assign k value ((k, old) :: entries) =
      (k, value) :: entries.map fun entry => if entry.1 = k then (k, value) else entry := by
  simp [assign]

theorem assign_cons_of_ne {entry : κ × V} (apart : entry.1 ≠ k) :
    assign k value (entry :: entries) = entry :: assign k value entries := by
  have same : (entry :: entries).lookup k = entries.lookup k := by
    rw [List.lookup_cons, beq_eq_false_iff_ne.mpr apart.symm]
  unfold assign
  rw [same]
  split
  · simp [apart]
  · rfl

theorem map_assigned_of_notMem (absent : k ∉ entries.map Prod.fst) :
    (entries.map fun entry => if entry.1 = k then (k, value) else entry) = entries := by
  conv_rhs => rw [← List.map_id entries]
  refine List.map_congr_left fun entry member => if_neg fun same => absent ?_
  exact same ▸ List.mem_map_of_mem member

theorem lookup_assign_self : (assign k value entries).lookup k = some value := by
  induction entries with
  | nil => simp [assign]
  | cons entry rest ih =>
    obtain ⟨key, old⟩ := entry
    by_cases own : key = k
    · subst own
      rw [assign_cons_self, List.lookup_cons_self]
    · rw [assign_cons_of_ne own, List.lookup_cons, beq_eq_false_iff_ne.mpr (Ne.symm own)]
      exact ih

private theorem lookup_assigned_of_ne (apart : other ≠ k) :
    (entries.map fun entry => if entry.1 = k then (k, value) else entry).lookup other =
      entries.lookup other := by
  induction entries with
  | nil => rfl
  | cons entry rest ih =>
    obtain ⟨key, old⟩ := entry
    rw [List.map_cons]
    by_cases own : key = k
    · rw [if_pos own, List.lookup_cons, List.lookup_cons, own, beq_eq_false_iff_ne.mpr apart]
      exact ih
    · rw [if_neg own, List.lookup_cons, List.lookup_cons, ih]

theorem lookup_assign_of_ne (apart : other ≠ k) :
    (assign k value entries).lookup other = entries.lookup other := by
  unfold assign
  split
  · exact lookup_assigned_of_ne apart
  · next absent =>
    rw [List.lookup_append, List.lookup_cons, beq_eq_false_iff_ne.mpr apart]
    exact Option.or_none

theorem lookup_replace_self (change : V → V) :
    (replace Prod.fst k (fun entry => (entry.1, change entry.2)) entries).lookup k =
      (entries.lookup k).map change := by
  unfold replace
  induction entries with
  | nil => rfl
  | cons entry rest ih =>
    obtain ⟨key, old⟩ := entry
    rw [List.map_cons]
    by_cases own : key = k
    · subst own
      rw [if_pos rfl, List.lookup_cons_self, List.lookup_cons_self, Option.map_some]
    · rw [if_neg own, List.lookup_cons, List.lookup_cons, beq_eq_false_iff_ne.mpr (Ne.symm own)]
      exact ih

theorem lookup_replace_of_ne (apart : other ≠ k) (change : V → V) :
    (replace Prod.fst k (fun entry => (entry.1, change entry.2)) entries).lookup other =
      entries.lookup other := by
  unfold replace
  induction entries with
  | nil => rfl
  | cons entry rest ih =>
    obtain ⟨key, old⟩ := entry
    rw [List.map_cons]
    by_cases own : key = k
    · rw [if_pos own, List.lookup_cons, List.lookup_cons, own, beq_eq_false_iff_ne.mpr apart]
      exact ih
    · rw [if_neg own, List.lookup_cons, List.lookup_cons, ih]

/-- An entry of the map is the assigned one or an old one of another key. -/
theorem mem_assign {entry : κ × V} (member : entry ∈ assign k value entries) :
    entry = (k, value) ∨ entry ∈ entries ∧ entry.1 ≠ k := by
  induction entries with
  | nil => exact .inl (by simpa [assign] using member)
  | cons head rest ih =>
    by_cases own : head.1 = k
    · obtain ⟨key, old⟩ := head
      obtain rfl : key = k := own
      rw [assign_cons_self] at member
      rcases List.mem_cons.mp member with same | member
      · exact .inl same
      · obtain ⟨entry, inRest, rfl⟩ := List.mem_map.mp member
        split
        · exact .inl rfl
        · next apart => exact .inr ⟨List.mem_cons_of_mem _ inRest, apart⟩
    · rw [assign_cons_of_ne own] at member
      rcases List.mem_cons.mp member with rfl | member
      · exact .inr ⟨List.mem_cons_self, own⟩
      · exact (ih member).imp_right fun kept => ⟨List.mem_cons_of_mem _ kept.1, kept.2⟩

theorem nodup_assign (distinct : (entries.map Prod.fst).Nodup) :
    ((assign k value entries).map Prod.fst).Nodup := by
  induction entries with
  | nil => simp [assign]
  | cons head rest ih =>
    obtain ⟨unique, distinctRest⟩ := List.nodup_cons.mp distinct
    by_cases own : head.1 = k
    · obtain ⟨key, old⟩ := head
      obtain rfl : key = k := own
      rw [assign_cons_self, map_assigned_of_notMem unique]
      exact distinct
    · rw [assign_cons_of_ne own, List.map_cons, List.nodup_cons]
      refine ⟨fun member => ?_, ih distinctRest⟩
      obtain ⟨entry, member, same⟩ := List.mem_map.mp member
      rcases mem_assign member with rfl | ⟨inRest, -⟩
      · exact own same.symm
      · exact unique (same ▸ List.mem_map_of_mem inRest)

/-- Assigning changes a sum over the entries by the entry of the key. -/
theorem sum_assign (f : κ × V → M) (distinct : (entries.map Prod.fst).Nodup) :
    ((assign k value entries).map f).sum + ((entries.lookup k).map fun old => f (k, old)).getD 0 =
      (entries.map f).sum + f (k, value) := by
  induction entries with
  | nil => simp [assign]
  | cons head rest ih =>
    obtain ⟨unique, distinctRest⟩ := List.nodup_cons.mp distinct
    by_cases own : head.1 = k
    · obtain ⟨key, old⟩ := head
      obtain rfl : key = k := own
      rw [assign_cons_self, map_assigned_of_notMem unique, List.lookup_cons_self]
      simp only [List.map_cons, List.sum_cons, Option.map_some, Option.getD_some]
      rw [add_comm, add_assoc, add_comm (f (key, value))]
    · rw [assign_cons_of_ne own, List.lookup_cons, beq_eq_false_iff_ne.mpr (Ne.symm own)]
      simp only [List.map_cons, List.sum_cons, add_assoc]
      rw [← ih distinctRest]

/-- Moving the entry of a key to the end keeps the entries. -/
theorem move_perm (distinct : (entries.map Prod.fst).Nodup) (found : entries.lookup k = some value) :
    (without Prod.fst k entries ++ [(k, value)]).Perm entries := by
  obtain ⟨before, after, rfl, -⟩ := List.lookup_eq_some_iff.mp found
  rw [List.map_append, List.map_cons, List.nodup_middle, List.nodup_cons, List.mem_append,
    not_or] at distinct
  have kept : without Prod.fst k (before ++ (k, value) :: after) = before ++ after := by
    have front : without Prod.fst k before = before := without_of_notMem distinct.1.1
    have back : without Prod.fst k after = after := without_of_notMem distinct.1.2
    unfold without at front back ⊢
    rw [List.filter_append, front, List.filter_cons_of_neg (by simp), back]
  rw [kept, List.append_assoc]
  exact (List.perm_append_singleton _ _).append_left before

theorem lookup_of_mem (distinct : (entries.map Prod.fst).Nodup) (member : (k, value) ∈ entries) :
    entries.lookup k = some value := by
  obtain ⟨before, after, rfl⟩ := List.append_of_mem member
  rw [List.map_append, List.map_cons, List.nodup_middle, List.nodup_cons, List.mem_append,
    not_or] at distinct
  refine List.lookup_eq_some_iff.mpr ⟨before, after, rfl, fun entry inBefore => ?_⟩
  rw [bne_iff_ne]
  exact fun same => distinct.1.1 (List.mem_map.mpr ⟨entry, inBefore, same.symm⟩)

/-! ### Maps of lists -/

/-- Add a value to the list of its key. -/
def collect (k : κ) (value : V) (groups : List (κ × List V)) : List (κ × List V) :=
  assign k ((groups.lookup k).getD [] ++ [value]) groups

theorem lookup_collect (k other : κ) (value : V) (groups : List (κ × List V)) :
    ((collect k value groups).lookup other).getD [] =
      (groups.lookup other).getD [] ++ if other = k then [value] else [] := by
  unfold collect
  by_cases own : other = k
  · rw [own, lookup_assign_self, if_pos rfl, Option.getD_some]
  · rw [lookup_assign_of_ne own, if_neg own, List.append_nil]

theorem nodup_collect {groups : List (κ × List V)} (distinct : (groups.map Prod.fst).Nodup) :
    ((collect k value groups).map Prod.fst).Nodup :=
  nodup_assign distinct

/-- Values collected one by one lie in the list of their key, in their order. -/
theorem lookup_foldl_collect (items : List (κ × V)) (groups : List (κ × List V)) (other : κ) :
    ((items.foldl (fun groups item => collect item.1 item.2 groups) groups).lookup other).getD [] =
      (groups.lookup other).getD [] ++ (items.filter fun item => item.1 = other).map Prod.snd := by
  induction items generalizing groups with
  | nil => simp
  | cons item rest ih =>
    rw [List.foldl_cons, ih, lookup_collect, List.append_assoc]
    by_cases own : item.1 = other
    · simp [own]
    · rw [if_neg (Ne.symm own), List.filter_cons_of_neg (by simpa using own), List.nil_append]

theorem nodup_foldl_collect (items : List (κ × V)) {groups : List (κ × List V)}
    (distinct : (groups.map Prod.fst).Nodup) :
    ((items.foldl (fun groups item => collect item.1 item.2 groups) groups).map Prod.fst).Nodup := by
  induction items generalizing groups with
  | nil => exact distinct
  | cons item rest ih => exact ih (nodup_collect distinct)

/-- What every group of a map satisfies is what the list of every key does. -/
theorem forall_group_iff {groups : List (κ × List V)} {holds : κ → List V → Prop}
    (distinct : (groups.map Prod.fst).Nodup) (empty : ∀ key, holds key []) :
    (∀ group ∈ groups, holds group.1 group.2) ↔
      ∀ key, holds key ((groups.lookup key).getD []) := by
  constructor
  · intro each key
    cases found : groups.lookup key with
    | none => exact empty key
    | some values =>
      obtain ⟨before, after, rfl, -⟩ := List.lookup_eq_some_iff.mp found
      exact each (key, values) (by simp)
  · intro each group member
    have own := each group.1
    rwa [lookup_of_mem distinct member] at own

theorem exists_group_iff {groups : List (κ × List V)} {holds : κ → List V → Prop}
    (distinct : (groups.map Prod.fst).Nodup) (empty : ∀ key, ¬holds key []) :
    (∃ group ∈ groups, holds group.1 group.2) ↔
      ∃ key, holds key ((groups.lookup key).getD []) := by
  have none := @forall_group_iff _ _ _ groups (fun key values => ¬holds key values) distinct empty
  rw [← not_iff_not]
  push Not
  exact none

/-! ### Filling a map item by item -/

section Fill

variable {value : α → V}

/-- Give every item's key its value, in turn. -/
def fill (key : α → κ) (value : α → V) (items : List α) : List (κ × V) :=
  items.foldl (fun entries item => assign (key item) (value item) entries) []

theorem fill_concat : fill key value (items ++ [item]) =
    assign (key item) (value item) (fill key value items) := by
  unfold fill
  rw [List.foldl_append]
  rfl

theorem nodup_fill : ((fill key value items).map Prod.fst).Nodup := by
  induction items using List.reverseRecOn with
  | nil => exact List.nodup_nil
  | append_singleton front last ih =>
    rw [fill_concat]
    exact nodup_assign ih

theorem mem_assign_keys {v : V} : other ∈ (assign k v entries).map Prod.fst ↔
    other = k ∨ other ∈ entries.map Prod.fst := by
  induction entries with
  | nil => simp [assign]
  | cons head rest ih =>
    by_cases own : head.1 = k
    · obtain ⟨key, old⟩ := head
      obtain rfl : key = k := own
      have keys : (rest.map fun entry => if entry.1 = key then (key, v) else entry).map Prod.fst =
          rest.map Prod.fst := by
        rw [List.map_map]
        refine List.map_congr_left fun entry _ => ?_
        by_cases same : entry.1 = key <;> simp [same]
      rw [assign_cons_self, List.map_cons, keys]
      simp
    · rw [assign_cons_of_ne own, List.map_cons, List.mem_cons, ih, List.map_cons, List.mem_cons]
      exact or_left_comm

theorem mem_fill_keys : k ∈ (fill key value items).map Prod.fst ↔ k ∈ items.map key := by
  induction items using List.reverseRecOn with
  | nil => exact Iff.rfl
  | append_singleton front last ih =>
    rw [fill_concat, mem_assign_keys, ih, List.map_append, List.mem_append, List.map_singleton,
      List.mem_singleton]
    exact or_comm

/-- Every entry comes from an item. -/
theorem mem_fill {entry : κ × V} (member : entry ∈ fill key value items) :
    ∃ item ∈ items, entry = (key item, value item) := by
  induction items using List.reverseRecOn with
  | nil => cases member
  | append_singleton front last ih =>
    rw [fill_concat] at member
    rcases mem_assign member with rfl | ⟨old, _⟩
    · exact ⟨last, by simp, rfl⟩
    · obtain ⟨item, inFront, same⟩ := ih old
      exact ⟨item, List.mem_append_left _ inFront, same⟩

/-- Items of distinct keys are kept one by one. -/
theorem fill_of_nodup (distinct : (items.map key).Nodup) :
    fill key value items = items.map fun item => (key item, value item) := by
  induction items using List.reverseRecOn with
  | nil => rfl
  | append_singleton front last ih =>
    rw [List.map_append, List.map_singleton] at distinct
    obtain ⟨distinctFront, -, apart⟩ := List.nodup_append.mp distinct
    have fresh : (fill key value front).lookup (key last) = none := by
      rw [List.lookup_eq_none_iff]
      intro entry member
      rw [bne_iff_ne]
      have inFront := mem_fill_keys.mp (List.mem_map_of_mem member)
      exact (apart entry.1 inFront (key last) List.mem_cons_self).symm
    rw [fill_concat, assign, fresh, ih distinctFront, List.map_append]
    rfl

/-- A map has as many entries as there were items exactly when their keys are distinct. -/
theorem length_fill_iff : (fill key value items).length = items.length ↔ (items.map key).Nodup := by
  constructor
  · intro same
    have distinct : ((fill key value items).map Prod.fst).Nodup := nodup_fill
    have within := distinct.subperm fun k member => mem_fill_keys.mp member
    have perm := within.perm_of_length_le (by simp [same])
    exact perm.nodup_iff.mp distinct
  · intro distinct
    rw [fill_of_nodup distinct, List.length_map]

end Fill

end Assign

/-! ## The first item of every key -/

section Firsts

/-- The items whose key no earlier item has. -/
def firsts (key : α → κ) (items : List α) : List α :=
  items.foldl (fun kept item =>
    if kept.any fun other => key other = key item then kept else kept ++ [item]) []

theorem firsts_concat :
    firsts key (items ++ [item]) =
      if (firsts key items).any fun other => key other = key item then firsts key items
      else firsts key items ++ [item] := by
  unfold firsts
  rw [List.foldl_append]
  rfl

/-- Every key of the list keeps an item. -/
theorem exists_mem_firsts (member : item ∈ items) : ∃ first ∈ firsts key items, key first = key item := by
  induction items using List.reverseRecOn with
  | nil => cases member
  | append_singleton earlier last ih =>
    rw [firsts_concat]
    rcases List.mem_append.mp member with before | here
    · obtain ⟨first, kept, same⟩ := ih before
      refine ⟨first, ?_, same⟩
      split
      · exact kept
      · exact List.mem_append_left _ kept
    · obtain rfl := List.mem_singleton.mp here
      split
      · next taken => simpa using taken
      · exact ⟨item, List.mem_append_right _ (List.mem_singleton_self _), rfl⟩

theorem any_firsts_iff :
    ((firsts key items).any fun other => key other = k) ↔ ∃ other ∈ items, key other = k := by
  simp only [List.any_eq_true, decide_eq_true_eq]
  constructor
  · rintro ⟨first, kept, same⟩
    refine ⟨first, ?_, same⟩
    clear same
    induction items using List.reverseRecOn with
    | nil => exact kept
    | append_singleton earlier last ih =>
      rw [firsts_concat] at kept
      split at kept
      · exact List.mem_append_left _ (ih kept)
      · rcases List.mem_append.mp kept with before | here
        · exact List.mem_append_left _ (ih before)
        · exact List.mem_append_right _ here
  · rintro ⟨other, member, rfl⟩
    exact exists_mem_firsts member

/-- An item is kept where no item before it has its key. -/
theorem mem_firsts_iff :
    item ∈ firsts key items ↔
      ∃ earlier later, items = earlier ++ item :: later ∧ ∀ other ∈ earlier, key other ≠ key item := by
  induction items using List.reverseRecOn with
  | nil => simp [firsts]
  | append_singleton before last ih =>
    have kept : item ∈ firsts key (before ++ [last]) ↔ item ∈ firsts key before ∨
        item = last ∧ ∀ other ∈ before, key other ≠ key item := by
      rw [firsts_concat]
      by_cases taken : (firsts key before).any fun other => key other = key last
      · rw [if_pos taken]
        obtain ⟨other, member, same⟩ := any_firsts_iff.mp taken
        refine ⟨.inl, fun either => either.elim id ?_⟩
        rintro ⟨rfl, fresh⟩
        exact absurd same (fresh other member)
      · rw [if_neg taken, List.mem_append, List.mem_singleton]
        refine or_congr_right ⟨?_, And.left⟩
        rintro rfl
        exact ⟨rfl, fun other member same => taken (any_firsts_iff.mpr ⟨other, member, same⟩)⟩
    rw [kept, ih]
    constructor
    · rintro (⟨earlier, later, rfl, fresh⟩ | ⟨rfl, fresh⟩)
      · exact ⟨earlier, later ++ [last], by simp, fresh⟩
      · exact ⟨before, [], rfl, fresh⟩
    · rintro ⟨earlier, later, split, fresh⟩
      rcases List.concat_eq_append_cons_iff.mp split with ⟨rfl, rfl, rfl⟩ | ⟨front, rfl, rfl⟩
      · exact .inr ⟨rfl, fresh⟩
      · exact .inl ⟨earlier, front, rfl, fresh⟩

theorem mem_of_mem_firsts (kept : item ∈ firsts key items) : item ∈ items := by
  obtain ⟨earlier, later, rfl, -⟩ := mem_firsts_iff.mp kept
  simp

theorem nodup_firsts : ((firsts key items).map key).Nodup := by
  induction items using List.reverseRecOn with
  | nil => exact List.nodup_nil
  | append_singleton earlier last ih =>
    rw [firsts_concat]
    split
    · exact ih
    · next fresh =>
      rw [List.map_append, List.map_singleton, List.nodup_append]
      refine ⟨ih, List.nodup_singleton _, ?_⟩
      rintro k member _ single rfl
      obtain ⟨other, kept, rfl⟩ := List.mem_map.mp member
      refine fresh (List.any_eq_true.mpr ⟨other, kept, decide_eq_true ?_⟩)
      exact List.mem_singleton.mp single

/-- Grouping by the keys of a list keeps every occurrence. -/
theorem groups_perm {keys : List κ} (covers : ∀ item ∈ items, key item ∈ keys) :
    ((firsts id keys).flatMap fun k => items.filter fun item => key item = k).Perm items := by
  refine List.flatMap_filter_perm (by simpa using @nodup_firsts _ _ _ id keys) fun item member => ?_
  obtain ⟨first, kept, same⟩ : ∃ first ∈ firsts id keys, id first = id (key item) :=
    exists_mem_firsts (covers item member)
  rwa [← show first = key item from same]

/-- Two items that are kept have different keys. -/
theorem firsts_key_inj {other : α} (kept : item ∈ firsts key items) (also : other ∈ firsts key items)
    (same : key item = key other) : item = other := by
  obtain ⟨earlier, later, split, fresh⟩ := mem_firsts_iff.mp kept
  obtain ⟨before, after, again, new⟩ := mem_firsts_iff.mp also
  rw [split] at again
  rcases List.append_eq_append_iff.mp again with ⟨middle, rfl, tail⟩ | ⟨middle, rfl, tail⟩
  · cases middle with
    | nil => exact (List.cons.inj tail).1
    | cons first rest =>
      obtain rfl := (List.cons.inj tail).1
      exact absurd same (new item (by simp))
  · cases middle with
    | nil => exact (List.cons.inj tail).1.symm
    | cons first rest =>
      obtain rfl := (List.cons.inj tail).1
      exact absurd same.symm (fresh other (by simp))

variable {ι : Type*} {groups : List ι} {f : ι → List α}

/-- A key that no other group has is first where it is first in its group. -/
theorem mem_firsts_of_group {group : ι} (distinct : groups.Nodup)
    (apart : ∀ first ∈ groups, ∀ second ∈ groups, ∀ item ∈ f first, ∀ other ∈ f second,
      key item = key other → first = second)
    (inGroups : group ∈ groups) (kept : item ∈ firsts key (f group)) :
    item ∈ firsts key (groups.flatMap f) := by
  obtain ⟨before, after, rfl⟩ := List.append_of_mem inGroups
  obtain ⟨earlier, later, split, fresh⟩ := mem_firsts_iff.mp kept
  refine mem_firsts_iff.mpr ⟨before.flatMap f ++ earlier, later ++ after.flatMap f, ?_, ?_⟩
  · simp [split]
  · intro other member shared
    rcases List.mem_append.mp member with elsewhere | here
    · obtain ⟨foreign, inBefore, own⟩ := List.mem_flatMap.mp elsewhere
      obtain rfl := apart foreign (by simp [inBefore]) group (by simp) other own item
        (mem_of_mem_firsts kept) shared
      exact absurd rfl ((List.nodup_append.mp distinct).2.2 foreign inBefore foreign (by simp))
    · exact fresh other here shared

/-- Where no two groups share a key, the first items are those of the groups. -/
theorem mem_firsts_flatMap (distinct : groups.Nodup)
    (apart : ∀ first ∈ groups, ∀ second ∈ groups, ∀ item ∈ f first, ∀ other ∈ f second,
      key item = key other → first = second) :
    item ∈ firsts key (groups.flatMap f) ↔ ∃ group ∈ groups, item ∈ firsts key (f group) := by
  constructor
  · intro kept
    obtain ⟨group, inGroups, inGroup⟩ := List.mem_flatMap.mp (mem_of_mem_firsts kept)
    have keyed : ∃ first ∈ firsts key (f group), key first = key item := exists_mem_firsts inGroup
    obtain ⟨first, keptFirst, same⟩ := keyed
    have also := mem_firsts_of_group distinct apart inGroups keptFirst
    exact ⟨group, inGroups, firsts_key_inj also kept same ▸ keptFirst⟩
  · rintro ⟨group, inGroups, kept⟩
    exact mem_firsts_of_group distinct apart inGroups kept

end Firsts

end KeyedList
