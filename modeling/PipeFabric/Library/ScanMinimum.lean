import Mathlib.Order.Lattice

/-!
# Minimum by a left-to-right scan

A loop that keeps the smallest candidate seen so far ends with a lower bound of
all candidates, which is the start value or a candidate itself.
-/

namespace ScanMinimum

variable {α τ : Type} {step : τ → α → τ} {candidate : α → τ → Prop}

theorem foldl_le_start [LinearOrder τ]
    (descends : ∀ least item, step least item ≤ least)
    (items : List α) (start : τ) :
    items.foldl step start ≤ start := by
  induction items generalizing start with
  | nil => exact le_refl start
  | cons item items induction =>
      exact le_trans (induction (step start item)) (descends start item)

theorem foldl_le_candidate [LinearOrder τ] (candidate : α → τ → Prop)
    (descends : ∀ least item, step least item ≤ least)
    (covers : ∀ least item value, candidate item value →
      step least item ≤ value)
    {items : List α} {item : α} {value : τ} (member : item ∈ items)
    (isCandidate : candidate item value) (start : τ) :
    items.foldl step start ≤ value := by
  induction items generalizing start with
  | nil => cases member
  | cons head tail induction =>
      rcases List.mem_cons.mp member with first | later
      · subst first
        exact le_trans (foldl_le_start descends tail (step start item))
          (covers start item value isCandidate)
      · exact induction later (step start head)

theorem foldl_start_or_candidate (step : τ → α → τ)
    (candidate : α → τ → Prop)
    (picks : ∀ least item,
      step least item = least ∨ candidate item (step least item))
    (items : List α) (start : τ) :
    items.foldl step start = start ∨
      ∃ item ∈ items, candidate item (items.foldl step start) := by
  induction items generalizing start with
  | nil => exact Or.inl rfl
  | cons head tail induction =>
      simp only [List.foldl_cons]
      rcases induction (step start head) with unchanged | ⟨item, member, found⟩
      · rw [unchanged]
        rcases picks start head with same | found
        · exact Or.inl same
        · exact Or.inr ⟨head, List.mem_cons_self, found⟩
      · exact Or.inr ⟨item, List.mem_cons_of_mem head member, found⟩

end ScanMinimum
