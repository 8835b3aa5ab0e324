import Mathlib.Data.List.Forall2
import Mathlib.Algebra.GroupWithZero.Nat

/-!
# Lists entry by entry

Two lists whose entries are related one by one, as the entries of a list and what a
function that can fail makes of them.
-/

namespace ListPairs

/-- What the function makes of the entries one by one. -/
theorem forall₂_of_mapM {Input Output : Type} {step : Input → Option Output}
    {inputs : List Input} {outputs : List Output}
    (mapped : inputs.mapM step = some outputs) :
    List.Forall₂ (fun input output => step input = some output) inputs outputs := by
  induction inputs generalizing outputs with
  | nil =>
      cases mapped
      exact .nil
  | cons input inputs induction =>
      simp only [List.mapM_cons, Option.bind_eq_bind, Option.bind_eq_some_iff,
        Option.pure_def] at mapped
      obtain ⟨output, stepped, rest, later, equal⟩ := mapped
      cases equal
      exact .cons stepped (induction later)

theorem mapM_eq_some_of_forall₂ {Input Output : Type} {step : Input → Option Output}
    {inputs : List Input} {outputs : List Output}
    (pairs : List.Forall₂ (fun input output => step input = some output) inputs outputs) :
    inputs.mapM step = some outputs := by
  induction pairs with
  | nil => rfl
  | cons stepped _ induction => simp [stepped, induction]

theorem exists_of_mem_left {First Second : Type} {relation : First → Second → Prop}
    {left : List First} {right : List Second} (pairs : List.Forall₂ relation left right)
    {first : First} (member : first ∈ left) : ∃ second ∈ right, relation first second := by
  induction pairs with
  | nil => cases member
  | cons related _ induction =>
      rcases List.mem_cons.mp member with rfl | later
      · exact ⟨_, List.mem_cons_self, related⟩
      · obtain ⟨second, inside, holds⟩ := induction later
        exact ⟨second, List.mem_cons_of_mem _ inside, holds⟩

theorem exists_of_mem_right {First Second : Type} {relation : First → Second → Prop}
    {left : List First} {right : List Second} (pairs : List.Forall₂ relation left right)
    {second : Second} (member : second ∈ right) : ∃ first ∈ left, relation first second :=
  exists_of_mem_left (List.Forall₂.flip pairs) member

/-- Entries related by way of a third list. -/
theorem forall₂_trans {First Second Third : Type} {relation : First → Second → Prop}
    {other : Second → Third → Prop} {left : List First} {middle : List Second}
    {right : List Third} (pairs : List.Forall₂ relation left middle)
    (further : List.Forall₂ other middle right) :
    List.Forall₂ (fun first third => ∃ second, relation first second ∧ other second third)
      left right := by
  induction pairs generalizing right with
  | nil =>
      cases further
      exact .nil
  | cons here _ induction =>
      cases further with
      | cons there later => exact .cons ⟨_, here, there⟩ (induction later)

/-- Sizes that do not exceed each other and have the same sum are the same. -/
theorem eq_of_sum_eq {First Second : Type} {relation : First → Second → Prop}
    {size : First → Nat} {measure : Second → Nat} {left : List First} {right : List Second}
    (pairs : List.Forall₂ relation left right)
    (le : ∀ first second, relation first second → measure second ≤ size first)
    (sum : (right.map measure).sum = (left.map size).sum) :
    List.Forall₂ (fun first second => relation first second ∧ measure second = size first)
      left right := by
  have sums : ∀ {left : List First} {right : List Second},
      List.Forall₂ relation left right → (right.map measure).sum ≤ (left.map size).sum := by
    intro left right pairs
    induction pairs with
    | nil => exact Nat.le_refl _
    | cons here _ induction =>
        simp only [List.map_cons, List.sum_cons]
        exact Nat.add_le_add (le _ _ here) induction
  induction pairs with
  | nil => exact .nil
  | cons here later induction =>
      simp only [List.map_cons, List.sum_cons] at sum
      have first := le _ _ here
      have rest := sums later
      exact .cons ⟨here, by omega⟩ (induction (by omega))

/-- Second entries that are made of something related to the first ones. -/
theorem exists_map_eq {First Second Third : Type} {relation : First → Second → Prop}
    (other : First → Third → Prop) (make : Third → Second) {left : List First}
    {right : List Second} (pairs : List.Forall₂ relation left right)
    (made : ∀ first ∈ left, ∀ second, relation first second →
      ∃ third, other first third ∧ second = make third) :
    ∃ thirds, List.Forall₂ other left thirds ∧ right = thirds.map make := by
  induction pairs with
  | nil => exact ⟨[], .nil, rfl⟩
  | cons related _ induction =>
      obtain ⟨here, later⟩ := List.forall_mem_cons.mp made
      obtain ⟨third, holds, rfl⟩ := here _ related
      obtain ⟨thirds, rest, rfl⟩ := induction later
      exact ⟨third :: thirds, .cons holds rest, rfl⟩

theorem mapM_eq_some_of_forall {Input Output : Type} {step : Input → Option Output}
    {inputs : List Input} (every : ∀ input ∈ inputs, ∃ output, step input = some output) :
    ∃ outputs, inputs.mapM step = some outputs := by
  induction inputs with
  | nil => exact ⟨[], rfl⟩
  | cons input inputs induction =>
      obtain ⟨⟨output, stepped⟩, later⟩ := List.forall_mem_cons.mp every
      obtain ⟨outputs, rest⟩ := induction later
      exact ⟨output :: outputs, by simp [stepped, rest]⟩

end ListPairs
