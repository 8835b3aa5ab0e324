import Mathlib.Data.List.Induction

/-!
# Walks that read a word

A step of a system reads a letter.  A walk is a sequence of steps, and the letters that
it reads are a word.
-/

namespace LabelledWalk

variable {State Letter : Type} {step : State → Letter → State → Prop}

/-- There is a walk between the states that reads the word. -/
def Walks (step : State → Letter → State → Prop) : State → List Letter → State → Prop
  | first, [], last => first = last
  | first, letter :: word, last =>
      ∃ next, step first letter next ∧ Walks step next word last

theorem walks_append {first last : State} {word later : List Letter} :
    Walks step first (word ++ later) last ↔
      ∃ middle, Walks step first word middle ∧ Walks step middle later last := by
  induction word generalizing first with
  | nil => simp [Walks]
  | cons letter word induction =>
      simp only [List.cons_append, Walks, induction]
      constructor
      · rintro ⟨next, taken, middle, left, right⟩
        exact ⟨middle, ⟨next, taken, left⟩, right⟩
      · rintro ⟨middle, ⟨next, taken, left⟩, right⟩
        exact ⟨next, taken, middle, left, right⟩

/-- The last step of a walk. -/
theorem walks_concat {first last : State} {word : List Letter} {letter : Letter} :
    Walks step first (word ++ [letter]) last ↔
      ∃ middle, Walks step first word middle ∧ step middle letter last := by
  simp [walks_append, Walks]

/-- A walk does not leave a set of states that is closed under steps. -/
theorem Walks.closed (holds : State → Prop)
    (kept : ∀ state letter next, holds state → step state letter next → holds next)
    {first last : State} {word : List Letter} (walks : Walks step first word last)
    (initially : holds first) : holds last := by
  induction word generalizing first with
  | nil =>
      cases walks
      exact initially
  | cons letter word induction =>
      obtain ⟨next, taken, rest⟩ := walks
      exact induction rest (kept first letter next initially taken)

/-- Every letter of the word is read by a step. -/
theorem Walks.read {first last : State} {word : List Letter}
    (walks : Walks step first word last) {letter : Letter} (member : letter ∈ word) :
    ∃ before after, step before letter after := by
  induction word generalizing first with
  | nil => cases member
  | cons other word induction =>
      obtain ⟨next, taken, rest⟩ := walks
      rcases List.mem_cons.mp member with rfl | later
      · exact ⟨first, next, taken⟩
      · exact induction rest later

/-- The only walk that reads nothing stays where it is; a walk to a state that no step
leads to reads nothing. -/
theorem Walks.eq_nil_of_no_step {first last : State} {word : List Letter}
    (walks : Walks step first word last)
    (unreached : ∀ before letter, ¬ step before letter last) : word = [] := by
  induction word using List.reverseRecOn with
  | nil => rfl
  | append_singleton word letter _ =>
      obtain ⟨middle, _, taken⟩ := walks_concat.mp walks
      exact absurd taken (unreached middle letter)

end LabelledWalk
