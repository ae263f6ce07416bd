import PolymarketBt.Model.ExecutionMetadata

/-! # The item of the greatest key -/

namespace PolymarketBt

variable {α κ : Type*} [LinearOrder κ] {key : α → κ} {items : List α} {item : α}

theorem maxBy_spec (found : maxBy key items = some item) :
    item ∈ items ∧ ∀ other ∈ items, key other ≤ key item :=
  ⟨List.argmax_mem found, fun _ member => List.le_of_mem_argmax member found⟩

theorem exists_maxBy (key : α → κ) (nonempty : items ≠ []) : ∃ item, maxBy key items = some item :=
  Option.ne_none_iff_exists'.mp fun none => nonempty (List.argmax_eq_none.mp none)

end PolymarketBt
