import PolymarketBt.ToMathlib.KeyedList

/-! # Files of groups

Every batch of items is split into groups of one key, each group is kept as a file, and the files of
all batches are read in any order. No item is lost, and items that lie in one group of one batch are
read in their order.
-/

namespace GroupedFiles

open KeyedList

variable {α κ : Type*} [DecidableEq κ] {key : α → κ} {items : List α} {keep : α → Bool}

/-- The items of every key, in their order. -/
def groups (key : α → κ) (items : List α) : List (List α) :=
  (items.foldl (fun groups item => collect (key item) item groups) []).map Prod.snd

/-- The groups are the items of some distinct keys, all keys among them. -/
theorem groups_spec (key : α → κ) (items : List α) : ∃ keys : List κ, keys.Nodup ∧
    (∀ item ∈ items, key item ∈ keys) ∧
    groups key items = keys.map fun k => items.filter fun item => key item = k := by
  let entries := items.foldl (fun groups item => collect (key item) item groups) []
  have paired : entries =
      (items.map fun item => (key item, item)).foldl (fun groups item =>
        collect item.1 item.2 groups) [] := by
    rw [List.foldl_map]
  have distinct : (entries.map Prod.fst).Nodup := by
    rw [paired]
    exact nodup_foldl_collect _ List.nodup_nil
  have own : ∀ k, (entries.lookup k).getD [] = items.filter fun item => key item = k := by
    intro k
    rw [paired, lookup_foldl_collect, List.lookup_nil, Option.getD_none, List.nil_append,
      List.filter_map, List.map_map]
    exact List.map_id _
  refine ⟨entries.map Prod.fst, distinct, fun item member => ?_, ?_⟩
  · have kept : item ∈ (entries.lookup (key item)).getD [] := by
      rw [own]
      exact List.mem_filter.mpr ⟨member, decide_eq_true rfl⟩
    cases found : entries.lookup (key item) with
    | none =>
      rw [found] at kept
      cases kept
    | some group =>
      obtain ⟨before, after, split, -⟩ := List.lookup_eq_some_iff.mp found
      rw [split]
      simp
  · rw [groups, List.map_map]
    refine List.map_congr_left fun entry member => ?_
    rw [Function.comp, ← own, lookup_of_mem distinct member]
    rfl

theorem groups_flatten_perm : (groups key items).flatten.Perm items := by
  obtain ⟨keys, distinct, covers, same⟩ := groups_spec key items
  rw [same, ← List.flatMap_def]
  exact List.flatMap_filter_perm distinct covers

/-- At most one of the two lists has an item. -/
def Apart (first second : List α) : Prop := first = [] ∨ second = []

/-- Lists of which at most one has items are joined to the same list in any order. -/
theorem flatten_eq_of_perm {lists others : List (List α)} (perm : lists.Perm others)
    (apart : lists.Pairwise Apart) : lists.flatten = others.flatten := by
  induction perm with
  | nil => rfl
  | cons list perm ih => rw [List.flatten_cons, List.flatten_cons, ih (List.pairwise_cons.mp apart).2]
  | swap first second rest =>
    rcases (List.pairwise_cons.mp apart).1 first (by simp) with rfl | rfl <;> simp
  | trans first second ihFirst ihSecond =>
    rw [ihFirst apart]
    exact ihSecond (first.pairwise apart fun none => Or.symm none)

variable {k : κ}

private theorem filter_of_ne (alike : ∀ item ∈ items, keep item → key item = k) {other : κ}
    (apart : other ≠ k) : (items.filter fun item => key item = other).filter keep = [] := by
  refine List.filter_eq_nil_iff.mpr fun item member kept => apart ?_
  obtain ⟨listed, own⟩ := List.mem_filter.mp member
  exact (of_decide_eq_true own).symm.trans (alike item listed kept)

/-- Items of one key lie in one group. -/
theorem groups_apart (alike : ∀ item ∈ items, keep item → key item = k) :
    ((groups key items).map (·.filter keep)).Pairwise Apart := by
  obtain ⟨keys, distinct, -, same⟩ := groups_spec key items
  rw [same, List.map_map]
  refine List.pairwise_map.mpr (distinct.imp fun {first second} ne => ?_)
  by_cases own : first = k
  · exact .inr (filter_of_ne alike fun also => ne (own.trans also.symm))
  · exact .inl (filter_of_ne alike own)

theorem groups_filter (alike : ∀ item ∈ items, keep item → key item = k) :
    (groups key items).flatten.filter keep = items.filter keep := by
  obtain ⟨keys, distinct, covers, same⟩ := groups_spec key items
  have joined : (groups key items).flatten.filter keep =
      keys.flatMap fun other => (items.filter fun item => key item = other).filter keep := by
    rw [List.filter_flatten, same, List.map_map, List.flatMap_def]
    rfl
  rw [joined]
  by_cases listed : k ∈ keys
  · obtain ⟨before, after, rfl⟩ := List.append_of_mem listed
    have others := List.nodup_append.mp distinct
    have none (part : List κ) (absent : k ∉ part) :
        (part.flatMap fun other => (items.filter fun item => key item = other).filter keep) = [] :=
      List.flatMap_eq_nil_iff.mpr fun other member =>
        filter_of_ne alike fun same => absent (same ▸ member)
    have all : (items.filter fun item => key item = k).filter keep = items.filter keep := by
      rw [List.filter_filter]
      refine List.filter_congr fun item member => ?_
      cases kept : keep item with
      | false => rfl
      | true => simpa using alike item member kept
    rw [List.flatMap_append, List.flatMap_cons, all,
      none before fun member => others.2.2 k member k (List.mem_cons_self ..) rfl,
      none after (List.nodup_cons.mp others.2.1).1, List.nil_append, List.append_nil]
  · have empty : items.filter keep = [] :=
      List.filter_eq_nil_iff.mpr fun item member kept =>
        listed (alike item member kept ▸ covers item member)
    rw [empty]
    refine List.flatMap_eq_nil_iff.mpr fun other member => filter_of_ne alike fun same => ?_
    exact listed (same ▸ member)

/-- Items of one key that lie in one batch are read in their order, whatever the order of files. -/
theorem filter_files {batches files : List (List α)} (perm : files.Perm (batches.flatMap (groups key)))
    (alike : ∀ batch ∈ batches, ∀ item ∈ batch, keep item → key item = k)
    (apart : (batches.map (·.filter keep)).Pairwise Apart) :
    files.flatten.filter keep = batches.flatten.filter keep := by
  have all : (batches.flatMap (groups key)).flatten.filter keep = batches.flatten.filter keep := by
    clear perm apart
    induction batches with
    | nil => rfl
    | cons batch rest ih =>
      rw [List.flatMap_cons, List.flatten_append, List.filter_append, List.flatten_cons,
        List.filter_append, groups_filter (alike batch (List.mem_cons_self ..)),
        ih fun other member => alike other (List.mem_cons_of_mem _ member)]
  rw [← all, List.filter_flatten, List.filter_flatten]
  refine (flatten_eq_of_perm (perm.symm.map _) ?_).symm
  rw [List.map_flatMap, List.pairwise_flatMap]
  refine ⟨fun batch member => groups_apart (alike batch member), ?_⟩
  refine (List.pairwise_map.mp apart).imp_of_mem fun {first second} inFirst inSecond apart => ?_
  intro own member other also
  obtain ⟨group, listed, rfl⟩ := List.mem_map.mp member
  obtain ⟨later, present, rfl⟩ := List.mem_map.mp also
  have part (batch group : List α) (listed : group ∈ groups key batch)
      (none : batch.filter keep = []) : group.filter keep = [] := by
    refine List.filter_eq_nil_iff.mpr fun item member kept => ?_
    have here : item ∈ batch :=
      groups_flatten_perm.mem_iff.mp (List.mem_flatten.mpr ⟨group, listed, member⟩)
    exact List.filter_eq_nil_iff.mp none item here kept
  exact apart.imp (part first group listed) (part second later present)

end GroupedFiles
