import Mathlib.Data.List.Basic

/-!
# The order of two arrivals

In a list of arrivals one element comes before another if it is found at a smaller
position and the other has arrived.
-/

namespace ArrivalOrder

variable {α : Type} [DecidableEq α]

/-- Both have arrived, the first one earlier. -/
def Before (arrivals : List α) (first second : α) : Prop :=
  arrivals.idxOf first < arrivals.idxOf second ∧ second ∈ arrivals

instance (arrivals : List α) (first second : α) :
    Decidable (Before arrivals first second) :=
  inferInstanceAs (Decidable (_ ∧ _))

variable {arrivals : List α} {first second arrival : α}

theorem not_before_nil : ¬ Before [] first second := by
  intro before
  exact absurd before.2 List.not_mem_nil

/-- An arrival of another element does not change what came before `second`. -/
theorem before_concat_other (notSecond : arrival ≠ second) :
    Before (arrivals ++ [arrival]) first second ↔
      Before arrivals first second := by
  unfold Before
  have secondPresent : second ∈ arrivals ++ [arrival] ↔ second ∈ arrivals := by
    simp [Ne.symm notSecond]
  rw [secondPresent]
  apply and_congr_left
  intro present
  rw [List.idxOf_append_of_mem present]
  by_cases firstPresent : first ∈ arrivals
  · rw [List.idxOf_append_of_mem firstPresent]
  · have late := List.idxOf_lt_length_of_mem present
    rw [List.idxOf_append_of_notMem firstPresent,
      List.idxOf_of_notMem firstPresent]
    omega

/-- The element that arrives now comes after all that have arrived. -/
theorem before_concat_second (absent : second ∉ arrivals) :
    Before (arrivals ++ [second]) first second ↔ first ∈ arrivals := by
  unfold Before
  rw [List.idxOf_append_of_notMem absent, List.idxOf_cons_self, Nat.add_zero]
  by_cases present : first ∈ arrivals
  · have early := List.idxOf_lt_length_of_mem present
    rw [List.idxOf_append_of_mem present]
    simp [early, present]
  · rw [List.idxOf_append_of_notMem present]
    simp [present]

theorem not_before_concat_first (absent : first ∉ arrivals)
    (different : first ≠ second) :
    ¬ Before (arrivals ++ [first]) first second := by
  intro before
  have present : second ∈ arrivals := by
    simpa [Ne.symm different] using before.2
  have early := List.idxOf_lt_length_of_mem present
  have order := before.1
  rw [List.idxOf_append_of_mem present, List.idxOf_append_of_notMem absent]
    at order
  omega

theorem not_before_of_absent (absent : second ∉ arrivals) :
    ¬ Before arrivals first second := fun before => absent before.2

theorem not_before_of_first_absent (absent : first ∉ arrivals) :
    ¬ Before arrivals first second := by
  intro before
  have late := List.idxOf_lt_length_of_mem before.2
  have order := before.1
  rw [List.idxOf_of_notMem absent] at order
  omega

end ArrivalOrder
