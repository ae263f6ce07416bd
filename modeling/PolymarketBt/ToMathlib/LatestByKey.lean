import Mathlib.Data.List.MinMax
import Mathlib.Tactic.Order
import PolymarketBt.ToMathlib.KeyedList
import PolymarketBt.ToMathlib.StableSort

/-! # The last greatest item of every key

Items are folded into a map that keeps one item for each key: an item replaces the one of its key
unless that one ranks above it. What the map keeps for a key is the last of the greatest items with
that key, so a map that was cut and resumed is the map of the whole list, and where no two different
items of a key rank alike it depends only on which items there are.
-/

namespace LatestByKey

open KeyedList StableSort

variable {α κ ρ : Type*} [LinearOrder κ] [LinearOrder ρ] {key : α → κ} {rank : α → ρ}

/-! ## The last of the greatest items -/

/-- The last of the items that none ranks above. -/
def top (rank : α → ρ) (items : List α) : Option α := items.reverse.argmax rank

/-- The later of two kept items unless the earlier ranks above it. -/
def join (rank : α → ρ) : Option α → Option α → Option α
  | none, later => later
  | earlier, none => earlier
  | some earlier, some later => if rank earlier ≤ rank later then some later else some earlier

@[simp] theorem top_nil : top rank ([] : List α) = none := rfl

@[simp] theorem join_none (kept : Option α) : join rank kept none = kept := by cases kept <;> rfl

@[simp] theorem none_join (kept : Option α) : join rank none kept = kept := by cases kept <;> rfl

@[simp] theorem join_self (kept : Option α) : join rank kept kept = kept := by
  cases kept <;> simp [join]

theorem join_assoc (first second third : Option α) :
    join rank (join rank first second) third = join rank first (join rank second third) := by
  cases first with
  | none => simp
  | some first =>
    cases second with
    | none => simp
    | some second =>
      cases third with
      | none => simp
      | some third =>
        simp only [join]
        split_ifs with low high <;> simp only [] <;> split_ifs <;>
          first | rfl | (exfalso; order)

theorem top_concat (items : List α) (item : α) :
    top rank (items ++ [item]) = join rank (top rank items) (some item) := by
  unfold top
  rw [List.reverse_append, List.reverse_singleton, List.singleton_append, List.argmax_cons]
  cases List.argmax rank items.reverse with
  | none => rfl
  | some kept =>
    simp only [join]
    split_ifs <;> first | rfl | (exfalso; order)

theorem top_append (earlier later : List α) :
    top rank (earlier ++ later) = join rank (top rank earlier) (top rank later) := by
  induction later using List.reverseRecOn with
  | nil => simp
  | append_singleton front last ih => rw [← List.append_assoc, top_concat, ih, top_concat, join_assoc]

@[simp] theorem top_toList (kept : Option α) : top rank kept.toList = kept := by cases kept <;> rfl

/-- The item kept ranks below no other, and above every later one. -/
theorem top_eq_some_iff {items : List α} {item : α} :
    top rank items = some item ↔ ∃ earlier later, items = earlier ++ item :: later ∧
      (∀ other ∈ earlier, rank other ≤ rank item) ∧ ∀ other ∈ later, rank other < rank item := by
  induction items using List.reverseRecOn generalizing item with
  | nil => simp
  | append_singleton front last ih =>
    rw [top_concat]
    constructor
    · intro kept
      cases before : top rank front with
      | none =>
        have empty : front = [] := by simpa [top] using before
        rw [before, none_join, Option.some.injEq] at kept
        exact ⟨[], [], by rw [empty, kept], by simp, by simp⟩
      | some previous =>
        obtain ⟨earlier, later, rfl, below, above⟩ := ih.mp before
        rw [before, join] at kept
        split at kept
        · next replaced =>
          obtain rfl := Option.some.inj kept
          refine ⟨_, [], rfl, fun other member => ?_, by simp⟩
          rcases List.mem_append.mp member with inEarlier | inRest
          · exact (below other inEarlier).trans replaced
          · rcases List.mem_cons.mp inRest with rfl | inLater
            · exact replaced
            · exact (above other inLater).le.trans replaced
        · next stays =>
          obtain rfl := Option.some.inj kept
          refine ⟨earlier, later ++ [last], by simp, below, fun other member => ?_⟩
          rcases List.mem_append.mp member with inLater | isLast
          · exact above other inLater
          · rw [List.mem_singleton.mp isLast]
            exact not_le.mp stays
    · rintro ⟨earlier, later, split, below, above⟩
      rcases List.concat_eq_append_cons_iff.mp split with ⟨rfl, rfl, rfl⟩ | ⟨middle, rfl, rfl⟩
      · cases before : top rank earlier with
        | none => rfl
        | some previous =>
          obtain ⟨_, _, rfl, _, _⟩ := ih.mp before
          rw [join, if_pos (below previous (by simp))]
      · have kept := ih.mpr ⟨earlier, middle, rfl, below, fun other member => above other (by simp [member])⟩
        rw [kept, join, if_neg (not_le.mpr (above last (by simp)))]

/-- Where different items rank differently, the kept item is the greatest. -/
theorem top_eq_some_iff_of_injective {items : List α} {item : α}
    (distinct : ∀ first ∈ items, ∀ second ∈ items, rank first = rank second → first = second) :
    top rank items = some item ↔ item ∈ items ∧ ∀ other ∈ items, rank other ≤ rank item := by
  constructor
  · intro kept
    obtain ⟨earlier, later, rfl, below, above⟩ := top_eq_some_iff.mp kept
    refine ⟨by simp, fun other member => ?_⟩
    rcases List.mem_append.mp member with before | rest
    · exact below other before
    · rcases List.mem_cons.mp rest with rfl | after
      · exact le_rfl
      · exact (above other after).le
  · rintro ⟨member, greatest⟩
    have present : (top rank items).isSome := by
      rw [Option.isSome_iff_ne_none]
      intro none
      have empty : items = [] := by simpa [top] using none
      rw [empty] at member
      cases member
    obtain ⟨kept, found⟩ := Option.isSome_iff_exists.mp present
    obtain ⟨earlier, later, rfl, below, above⟩ := top_eq_some_iff.mp found
    rw [found, distinct kept (by simp) item member (le_antisymm (greatest kept (by simp)) ?_)]
    rcases List.mem_append.mp member with before | rest
    · exact below item before
    · rcases List.mem_cons.mp rest with rfl | after
      · exact le_rfl
      · exact (above item after).le

theorem top_congr {first second : List α} (same : ∀ item, item ∈ first ↔ item ∈ second)
    (distinct : ∀ item ∈ first, ∀ other ∈ first, rank item = rank other → item = other) :
    top rank first = top rank second := by
  refine Option.ext fun item => ?_
  rw [top_eq_some_iff_of_injective distinct, top_eq_some_iff_of_injective
    (by simpa only [same] using distinct)]
  simp only [same]

/-! ## The map of the kept items -/

/-- Give an item its key unless the item there ranks above it. -/
def place (key : α → κ) (rank : α → ρ) (entries : List (κ × α)) (item : α) : List (κ × α) :=
  match entries.lookup (key item) with
  | none => assign (key item) item entries
  | some previous => if rank previous ≤ rank item then assign (key item) item entries else entries

/-- The kept items in the order of their keys. -/
def latest (key : α → κ) (rank : α → ρ) (items : List α) : List α :=
  (sortByKey Prod.fst (items.foldl (place key rank) [])).map Prod.snd

theorem lookup_place (entries : List (κ × α)) (item : α) (k : κ) :
    (place key rank entries item).lookup k =
      if key item = k then join rank (entries.lookup k) (some item) else entries.lookup k := by
  unfold place
  by_cases own : key item = k
  · subst own
    rw [if_pos rfl]
    cases found : entries.lookup (key item) with
    | none => exact lookup_assign_self
    | some previous =>
      simp only [join]
      split
      · exact lookup_assign_self
      · exact found
  · rw [if_neg own]
    split
    · exact lookup_assign_of_ne (Ne.symm own)
    · split
      · exact lookup_assign_of_ne (Ne.symm own)
      · rfl

theorem lookup_foldl_place (items : List α) (k : κ) :
    (items.foldl (place key rank) []).lookup k = top rank (items.filter (key · = k)) := by
  induction items using List.reverseRecOn with
  | nil => rfl
  | append_singleton front last ih =>
    rw [List.foldl_append, List.foldl_cons, List.foldl_nil, lookup_place, List.filter_append,
      top_append, ih]
    by_cases own : key last = k <;> simp [own, top]

/-- The entries of the fold have distinct keys, each that of its item. -/
structure Placed (key : α → κ) (entries : List (κ × α)) : Prop where
  distinct : (entries.map Prod.fst).Nodup
  own : ∀ entry ∈ entries, key entry.2 = entry.1

theorem Placed.place {entries : List (κ × α)} (placed : Placed key entries) (item : α) :
    Placed key (place key rank entries item) := by
  have assigned : Placed key (assign (key item) item entries) := by
    refine ⟨nodup_assign placed.distinct, fun entry member => ?_⟩
    rcases mem_assign member with rfl | ⟨old, -⟩
    · rfl
    · exact placed.own entry old
  unfold LatestByKey.place
  split
  · exact assigned
  · split
    · exact assigned
    · exact placed

theorem placed_foldl (items : List α) : Placed key (items.foldl (place key rank) []) := by
  induction items using List.reverseRecOn with
  | nil => exact ⟨List.nodup_nil, by simp⟩
  | append_singleton front last ih =>
    rw [List.foldl_append]
    exact ih.place last

/-- What an insertion-ordered map keeps for a key is its only entry with that key. -/
theorem Placed.filter_eq {entries : List (κ × α)} (placed : Placed key entries) (k : κ) :
    (entries.map Prod.snd).filter (key · = k) = (entries.lookup k).toList := by
  obtain ⟨distinct, own⟩ := placed
  induction entries with
  | nil => rfl
  | cons entry rest ih =>
    obtain ⟨unique, distinctRest⟩ := List.nodup_cons.mp distinct
    have rest_eq := ih distinctRest fun other member => own other (List.mem_cons_of_mem _ member)
    have same := own entry List.mem_cons_self
    rw [List.map_cons, List.lookup_cons]
    by_cases here : entry.1 = k
    · subst here
      rw [List.filter_cons_of_pos (by simpa using same), rest_eq, beq_self_eq_true]
      have absent : rest.lookup entry.1 = none := by
        rw [List.lookup_eq_none_iff]
        intro other member
        rw [bne_iff_ne]
        exact fun equal => unique (equal ▸ List.mem_map_of_mem member)
      rw [absent]
      rfl
    · rw [List.filter_cons_of_neg (by simpa [same] using here), rest_eq,
        beq_eq_false_iff_ne.mpr (Ne.symm here)]

theorem filter_latest (items : List α) (k : κ) :
    (latest key rank items).filter (key · = k) = (top rank (items.filter (key · = k))).toList := by
  have placed : Placed key (items.foldl (place key rank) []) := placed_foldl items
  have kept := placed.filter_eq k
  rw [lookup_foldl_place] at kept
  have perm := (((sortByKey_perm Prod.fst (items.foldl (place key rank) [])).map
    Prod.snd).filter (key · = k)).trans (List.Perm.of_eq kept)
  change (latest key rank items).filter (key · = k) |>.Perm _ at perm
  cases found : top rank (items.filter (key · = k)) with
  | none =>
    rw [found] at perm
    exact List.perm_nil.mp perm
  | some item =>
    rw [found] at perm
    exact List.perm_singleton.mp perm

/-- The kept items have increasing keys. -/
theorem latest_increasing (key : α → κ) (rank : α → ρ) (items : List α) :
    (latest key rank items).Pairwise fun first second => key first < key second := by
  have placed : Placed key (items.foldl (place key rank) []) := placed_foldl items
  have perm := sortByKey_perm Prod.fst (items.foldl (place key rank) [])
  have distinct := ((perm.map Prod.fst).nodup_iff).mpr placed.distinct
  have inOrder := sortByKey_inOrder Prod.fst (items.foldl (place key rank) [])
  unfold latest
  rw [List.pairwise_map]
  refine ((List.pairwise_map.mp distinct).and inOrder).imp_of_mem ?_
  rintro first second inFirst inSecond ⟨apart, le⟩
  rw [placed.own first (perm.mem_iff.mp inFirst), placed.own second (perm.mem_iff.mp inSecond)]
  exact lt_of_le_of_ne le apart

theorem latest_inOrder (key : α → κ) (rank : α → ρ) (items : List α) :
    InOrder key (latest key rank items) :=
  (latest_increasing key rank items).imp le_of_lt

/-- The kept items depend only on what is kept for every key. -/
theorem latest_congr {first second : List α}
    (same : ∀ k, top rank (first.filter (key · = k)) = top rank (second.filter (key · = k))) :
    latest key rank first = latest key rank second := by
  refine (latest_inOrder key rank first).ext (latest_inOrder key rank second) fun k => ?_
  rw [filter_latest, filter_latest, same]

/-- An item is kept where none of its key ranks above it and no later one as high. -/
theorem mem_latest_iff {items : List α} {item : α} :
    item ∈ latest key rank items ↔ ∃ earlier later, items = earlier ++ item :: later ∧
      (∀ other ∈ earlier, key other = key item → rank other ≤ rank item) ∧
      ∀ other ∈ later, key other = key item → rank other < rank item := by
  have filtered : item ∈ latest key rank items ↔
      item ∈ (latest key rank items).filter (key · = key item) := by simp
  rw [filtered, filter_latest, Option.mem_toList, top_eq_some_iff]
  constructor
  · rintro ⟨before, after, split, below, above⟩
    obtain ⟨earlier, rest, rfl, rfl, restSplit⟩ := List.filter_eq_append_iff.mp split
    obtain ⟨middle, later, rfl, others, own, rfl⟩ := List.filter_eq_cons_iff.mp restSplit
    refine ⟨earlier ++ middle, later, by simp, fun other member same => ?_, fun other member same => ?_⟩
    · rcases List.mem_append.mp member with inEarlier | inMiddle
      · exact below other (List.mem_filter.mpr ⟨inEarlier, decide_eq_true same⟩)
      · exact absurd (decide_eq_true same) (others other inMiddle)
    · exact above other (List.mem_filter.mpr ⟨member, decide_eq_true same⟩)
  · rintro ⟨earlier, later, rfl, below, above⟩
    refine ⟨earlier.filter (key · = key item), later.filter (key · = key item), by simp, ?_, ?_⟩
    · intro other member
      obtain ⟨inEarlier, same⟩ := List.mem_filter.mp member
      exact below other inEarlier (of_decide_eq_true same)
    · intro other member
      obtain ⟨inLater, same⟩ := List.mem_filter.mp member
      exact above other inLater (of_decide_eq_true same)

/-- Every key of the list keeps an item. -/
theorem exists_latest {items : List α} {item : α} (member : item ∈ items) :
    ∃ kept ∈ latest key rank items, key kept = key item := by
  have own : item ∈ items.filter (key · = key item) := by simp [member]
  cases found : top rank (items.filter (key · = key item)) with
  | none =>
    rw [top, List.argmax_eq_none, List.reverse_eq_nil_iff] at found
    rw [found] at own
    cases own
  | some kept =>
    have inFilter : kept ∈ (latest key rank items).filter (key · = key item) := by
      rw [filter_latest, found]
      simp
    obtain ⟨inLatest, same⟩ := List.mem_filter.mp inFilter
    exact ⟨kept, inLatest, of_decide_eq_true same⟩

/-- Keeping on where the list was cut keeps the items of the whole list. -/
theorem latest_append_latest (earlier later : List α) :
    latest key rank (latest key rank earlier ++ later) = latest key rank (earlier ++ later) := by
  refine latest_congr fun k => ?_
  rw [List.filter_append, List.filter_append, top_append, top_append, filter_latest, top_toList]

/-- Items that were kept already change nothing. -/
theorem latest_append_self (items : List α) :
    latest key rank (latest key rank items ++ latest key rank items) = latest key rank items := by
  refine latest_congr fun k => ?_
  rw [List.filter_append, top_append, filter_latest, top_toList, join_self]

/-- Where no two different items of a key rank alike, only the set of the items matters. -/
theorem latest_congr_of_mem {first second : List α} (same : ∀ item, item ∈ first ↔ item ∈ second)
    (distinct : ∀ item ∈ first, ∀ other ∈ first, key item = key other → rank item = rank other →
      item = other) : latest key rank first = latest key rank second := by
  refine latest_congr fun k => top_congr (by simp [same]) ?_
  intro item own other otherOwn
  obtain ⟨member, keyed⟩ := List.mem_filter.mp own
  obtain ⟨otherMember, otherKeyed⟩ := List.mem_filter.mp otherOwn
  exact distinct item member other otherMember
    ((of_decide_eq_true keyed).trans (of_decide_eq_true otherKeyed).symm)

end LatestByKey
