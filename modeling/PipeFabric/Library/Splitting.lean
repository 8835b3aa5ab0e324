import Mathlib.Data.List.Basic

/-!
# Splitting at a separator

A list is either free of the separator, or it is a part free of the separator, the
separator, and a rest.  This is the induction that facts about `List.splitOn` and
about programs that scan for a separator follow.  `splitLines` is the variant in
which the separator ends a part instead of separating two of them.
-/

namespace Splitting

variable {α : Type} [DecidableEq α]

/-- The induction rule. -/
theorem induction (sep : α) {motive : List α → Prop}
    (last : ∀ part, sep ∉ part → motive part)
    (more : ∀ part rest, sep ∉ part → motive rest → motive (part ++ sep :: rest))
    (list : List α) : motive list := by
  have bounded : ∀ bound (list : List α), list.length ≤ bound → motive list := by
    intro bound
    induction bound with
    | zero =>
        intro list short
        obtain rfl := List.eq_nil_of_length_eq_zero (Nat.le_zero.mp short)
        exact last [] List.not_mem_nil
    | succ bound induction =>
        intro list short
        by_cases inside : sep ∈ list
        · obtain ⟨part, rest, rfl, free⟩ := List.eq_append_cons_of_mem inside
          apply more part rest free
          apply induction
          simp only [List.length_append, List.length_cons] at short
          omega
        · exact last list inside
  exact bounded list.length list (Nat.le_refl _)

/-- The parts that the separator ends, and what is behind the last separator if this is
not empty. -/
def splitLines (sep : α) (list : List α) : List (List α) :=
  if (list.splitOn sep).getLast? = some [] then (list.splitOn sep).dropLast
  else list.splitOn sep

theorem splitLines_last {sep : α} {part : List α} (free : sep ∉ part) :
    splitLines sep part = if part = [] then [] else [part] := by
  unfold splitLines
  rw [List.splitOn_eq_singleton free]
  simp only [List.getLast?_singleton, Option.some.injEq, List.dropLast_singleton]

@[simp]
theorem splitLines_nil (sep : α) : splitLines sep [] = [] :=
  splitLines_last List.not_mem_nil

theorem splitLines_more {sep : α} {part : List α} (free : sep ∉ part) (rest : List α) :
    splitLines sep (part ++ sep :: rest) = part :: splitLines sep rest := by
  unfold splitLines
  rw [List.splitOn_append_cons_self_of_not_mem free]
  obtain ⟨first, others, parts⟩ :=
    List.exists_cons_of_ne_nil (List.splitOn_ne_nil sep rest)
  rw [parts, List.getLast?_cons_cons, List.dropLast_cons_cons]
  split
  · rfl
  · rfl

omit [DecidableEq α] in
/-- What is in front of the first separator and what is behind it. -/
theorem append_sep_inj {sep : α} {first second rest other : List α} (one : sep ∉ first)
    (two : sep ∉ second) :
    first ++ sep :: rest = second ++ sep :: other ↔ first = second ∧ rest = other := by
  constructor
  · intro same
    have parts := List.append_eq_append_iff.mp same
    rcases parts with ⟨between, split, shifted⟩ | ⟨between, split, shifted⟩
    · cases between with
      | nil => exact ⟨by simpa using split.symm, (List.cons.inj shifted).2⟩
      | cons head between =>
          rw [(List.cons.inj shifted).1, split] at two
          simp at two
    · cases between with
      | nil => exact ⟨by simpa using split, (List.cons.inj shifted).2.symm⟩
      | cons head between =>
          rw [(List.cons.inj shifted).1, split] at one
          simp at one
  · intro same
    rw [same.1, same.2]

end Splitting
