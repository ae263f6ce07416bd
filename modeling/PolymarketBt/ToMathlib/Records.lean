import Mathlib.Tactic

/-! # Cutting a stream into terminated records

A stream is cut after every terminator. What has been cut off is a list of complete records, and what
is left over has no terminator. Cutting goes on from the left-over, so a stream can be cut chunk by
chunk, and the complete records are those of its longest prefix that ends in a terminator.
-/

namespace Records

variable {α : Type*} [DecidableEq α] (terminator : α)

/-- The complete records of a stream whose first record has begun, and what is left over. -/
def cutFrom (begun : List α) : List α → List (List α) × List α
  | [] => ([], begun)
  | entry :: rest =>
    if entry = terminator then
      ((begun ++ [entry]) :: (cutFrom [] rest).1, (cutFrom [] rest).2)
    else cutFrom (begun ++ [entry]) rest

def cut (stream : List α) : List (List α) × List α := cutFrom terminator [] stream

/-- A stream that stops between two records. -/
def Complete (stream : List α) : Prop := stream = [] ∨ ∃ front, stream = front ++ [terminator]

variable {terminator} {begun stream rest : List α}

/-- Cutting goes on from what is left over. -/
theorem cutFrom_append : cutFrom terminator begun (stream ++ rest) =
    ((cutFrom terminator begun stream).1 ++
        (cutFrom terminator (cutFrom terminator begun stream).2 rest).1,
      (cutFrom terminator (cutFrom terminator begun stream).2 rest).2) := by
  induction stream generalizing begun with
  | nil => rfl
  | cons entry stream ih =>
    rw [List.cons_append, cutFrom, cutFrom]
    split
    · simp only [ih, List.cons_append]
    · exact ih

/-- Nothing is cut off a stream without a terminator. -/
theorem cutFrom_unended (unended : terminator ∉ stream) :
    cutFrom terminator begun stream = ([], begun ++ stream) := by
  induction stream generalizing begun with
  | nil => simp [cutFrom]
  | cons entry stream ih =>
    obtain ⟨apart, others⟩ := not_or.mp (List.mem_cons.not.mp unended)
    rw [cutFrom, if_neg (Ne.symm apart), ih others, List.append_assoc]
    rfl

/-- What has begun without a terminator is the beginning of the stream. -/
theorem cutFrom_begun (unended : terminator ∉ begun) :
    cutFrom terminator begun stream = cut terminator (begun ++ stream) := by
  rw [cut, cutFrom_append, cutFrom_unended unended]
  rfl

theorem cutFrom_flatten : (cutFrom terminator begun stream).1.flatten ++
    (cutFrom terminator begun stream).2 = begun ++ stream := by
  induction stream generalizing begun with
  | nil => simp [cutFrom]
  | cons entry stream ih =>
    rw [cutFrom]
    split
    · have rest := @ih []
      simp only [List.flatten_cons, List.append_assoc, rest]
      simp
    · rw [ih]
      simp

theorem not_mem_leftover (unended : terminator ∉ begun) :
    terminator ∉ (cutFrom terminator begun stream).2 := by
  induction stream generalizing begun with
  | nil => exact unended
  | cons entry stream ih =>
    rw [cutFrom]
    split
    · exact ih List.not_mem_nil
    · next other =>
      refine ih fun member => ?_
      rcases List.mem_append.mp member with early | same
      · exact unended early
      · exact other (List.mem_singleton.mp same).symm

/-- A complete record ends in its only terminator. -/
theorem exists_record (unended : terminator ∉ begun) {record : List α}
    (member : record ∈ (cutFrom terminator begun stream).1) :
    ∃ text, record = text ++ [terminator] ∧ terminator ∉ text := by
  induction stream generalizing begun with
  | nil => cases member
  | cons entry stream ih =>
    rw [cutFrom] at member
    split at member
    · next same =>
      rcases List.mem_cons.mp member with rfl | later
      · exact ⟨begun, by rw [same], unended⟩
      · exact ih List.not_mem_nil later
    · next other =>
      refine ih (fun inside => ?_) member
      rcases List.mem_append.mp inside with early | same
      · exact unended early
      · exact other (List.mem_singleton.mp same).symm

/-- There are as many complete records as terminators. -/
theorem length_records (unended : terminator ∉ begun) :
    (cutFrom terminator begun stream).1.length = stream.count terminator := by
  induction stream generalizing begun with
  | nil => rfl
  | cons entry stream ih =>
    rw [cutFrom, List.count_cons]
    split
    · next same =>
      rw [List.length_cons, ih List.not_mem_nil, if_pos (beq_iff_eq.mpr same)]
    · next other =>
      rw [if_neg (by simpa using other), Nat.add_zero]
      refine ih fun inside => ?_
      rcases List.mem_append.mp inside with early | same
      · exact unended early
      · exact other (List.mem_singleton.mp same).symm

omit [DecidableEq α] in
theorem complete_flatten {records : List (List α)}
    (terminated : ∀ record ∈ records, ∃ text, record = text ++ [terminator] ∧ terminator ∉ text) :
    Complete terminator records.flatten := by
  rcases List.eq_nil_or_concat records with rfl | ⟨front, last, rfl⟩
  · exact .inl rfl
  · obtain ⟨text, same, _⟩ := terminated last (by simp)
    refine .inr ⟨front.flatten ++ text, ?_⟩
    simp [same]

/-- The complete records make up the longest prefix that stops between two records. -/
theorem isLongest_cut (stream : List α) :
    (cut terminator stream).1.flatten <+: stream ∧
      Complete terminator (cut terminator stream).1.flatten ∧
      ∀ other, other <+: stream → Complete terminator other →
        other <+: (cut terminator stream).1.flatten := by
  have whole : (cut terminator stream).1.flatten ++ (cut terminator stream).2 = stream :=
    cutFrom_flatten
  refine ⟨⟨_, whole⟩, complete_flatten fun record => exists_record List.not_mem_nil, ?_⟩
  rintro other inside (rfl | ⟨front, rfl⟩)
  · exact List.nil_prefix
  · -- A longer prefix would end inside what is left over, which has no terminator.
    rw [← whole] at inside
    rcases le_total (front ++ [terminator]).length (cut terminator stream).1.flatten.length
      with shorter | longer
    · exact List.prefix_of_prefix_length_le inside (List.prefix_append _ _) shorter
    · obtain ⟨more, same⟩ :=
        List.prefix_of_prefix_length_le (List.prefix_append _ _) inside longer
      rcases List.eq_nil_or_concat more with rfl | ⟨between, last, rfl⟩
      · rw [List.append_nil] at same
        exact same ▸ List.prefix_rfl
      · rw [List.concat_eq_append, ← List.append_assoc] at same
        have final : [last] = [terminator] := (List.append_inj' same rfl).2
        obtain ⟨_, split⟩ := inside
        rw [← same, List.append_assoc, List.append_assoc] at split
        have left := List.append_cancel_left split
        have member : terminator ∈ (cut terminator stream).2 := by
          rw [← left, (List.cons.inj final).1]
          simp
        exact absurd member (not_mem_leftover List.not_mem_nil)

end Records
