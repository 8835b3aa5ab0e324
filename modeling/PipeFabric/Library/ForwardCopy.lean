import Mathlib.Data.List.Induction
import Mathlib.Data.List.Flatten
import Mathlib.Data.List.Range

/-!
# Copying onto an overlapping range

Lines of entries are moved `k` places up, entry by entry and every line in ascending order.
Where the ranges overlap, an entry can be read that was overwritten before, so that the
first `k` entries of a line come again and again.
-/

namespace ForwardCopy

variable {Line Entry : Type} [DecidableEq Line]

/-- One entry is copied. -/
def copyEntry (k : Nat) (memory : Line → Nat → Entry) (place : Line × Nat) :
    Line → Nat → Entry :=
  fun line index =>
    if line = place.1 ∧ index = k + place.2 then memory place.1 place.2 else memory line index

/-- The places of a copy: every line from its first entry on, in ascending order. -/
structure Ascending (places : List (Line × Nat)) : Prop where
  ordered : places.Pairwise fun earlier later => earlier.1 = later.1 → earlier.2 < later.2
  closed : ∀ line index, (line, index) ∈ places → ∀ below < index, (line, below) ∈ places

omit [DecidableEq Line] in
theorem Ascending.of_concat {places : List (Line × Nat)} {last : Line × Nat}
    (ascending : Ascending (places ++ [last])) : Ascending places where
  ordered := (List.pairwise_append.mp ascending.ordered).1
  closed := by
    intro line index member below less
    have among := ascending.closed line index (List.mem_append_left _ member) below less
    rcases List.mem_append.mp among with early | late
    · exact early
    · rw [List.mem_singleton] at late
      have before := (List.pairwise_append.mp ascending.ordered).2.2 _ member last
        List.mem_cons_self
      rw [← late] at before
      exact absurd (before rfl) (Nat.lt_asymm less)

omit [DecidableEq Line] in
/-- What was copied before the last entry of its line. -/
theorem Ascending.mem_iff {places : List (Line × Nat)} {line : Line} {index : Nat}
    (ascending : Ascending (places ++ [(line, index)])) (other : Nat) :
    (line, other) ∈ places ↔ other < index := by
  constructor
  · intro member
    exact (List.pairwise_append.mp ascending.ordered).2.2 _ member _ List.mem_cons_self rfl
  · intro less
    have among := ascending.closed line index (List.mem_append_right _ List.mem_cons_self)
      other less
    rcases List.mem_append.mp among with early | late
    · exact early
    · cases List.mem_singleton.mp late
      exact absurd less (Nat.lt_irrefl _)

/-- Every entry that is written comes from the first `k` entries of its line. -/
theorem foldl_copyEntry {k : Nat} (positive : 0 < k) {places : List (Line × Nat)}
    (ascending : Ascending places) (memory : Line → Nat → Entry) (line : Line) (index : Nat) :
    places.foldl (copyEntry k) memory line index =
      if k ≤ index ∧ (line, index - k) ∈ places then memory line (index % k)
      else memory line index := by
  induction places using List.reverseRecOn generalizing line index with
  | nil => simp
  | append_singleton places last induction =>
      obtain ⟨lastLine, lastIndex⟩ := last
      have before := induction ascending.of_concat
      have read : places.foldl (copyEntry k) memory lastLine lastIndex =
          memory lastLine (lastIndex % k) := by
        rw [before]
        by_cases small : lastIndex < k
        · rw [if_neg (fun both => absurd both.1 (Nat.not_le.mpr small)),
            Nat.mod_eq_of_lt small]
        · have below : (lastLine, lastIndex - k) ∈ places :=
            (ascending.mem_iff _).mpr (by omega)
          rw [if_pos ⟨Nat.le_of_not_lt small, below⟩]
      rw [List.foldl_append, List.foldl_cons, List.foldl_nil, copyEntry]
      by_cases here : line = lastLine ∧ index = k + lastIndex
      · obtain ⟨rfl, rfl⟩ := here
        have member : (line, k + lastIndex - k) ∈ places ++ [(line, lastIndex)] := by
          rw [Nat.add_sub_cancel_left]
          exact List.mem_append_right _ List.mem_cons_self
        rw [if_pos ⟨rfl, rfl⟩, read, if_pos ⟨Nat.le_add_right _ _, member⟩,
          Nat.add_mod_left]
      · rw [if_neg here, before]
        have same : (k ≤ index ∧ (line, index - k) ∈ places ++ [(lastLine, lastIndex)]) ↔
            (k ≤ index ∧ (line, index - k) ∈ places) := by
          apply and_congr_right
          intro above
          rw [List.mem_append, List.mem_singleton]
          apply or_iff_left
          intro last
          obtain ⟨sameLine, sameIndex⟩ := Prod.mk.inj last
          exact here ⟨sameLine, by omega⟩
        rw [if_congr same rfl rfl]

/-! ### Orders of a block -/

/-- Line after line. -/
def lineByLine (lines entries : Nat) : List (Nat × Nat) :=
  (List.range lines).flatMap fun line => (List.range entries).map fun index => (line, index)

/-- The first entries of all lines, then the second ones, and so on. -/
def entryByEntry (lines entries : Nat) : List (Nat × Nat) :=
  (List.range entries).flatMap fun index => (List.range lines).map fun line => (line, index)

theorem mem_lineByLine {lines entries : Nat} {place : Nat × Nat} :
    place ∈ lineByLine lines entries ↔ place.1 < lines ∧ place.2 < entries := by
  simp only [lineByLine, List.mem_flatMap, List.mem_range, List.mem_map]
  constructor
  · intro found
    obtain ⟨line, inside, index, below, same⟩ := found
    rw [← same]
    exact ⟨inside, below⟩
  · intro inside
    exact ⟨place.1, inside.1, place.2, inside.2, rfl⟩

theorem mem_entryByEntry {lines entries : Nat} {place : Nat × Nat} :
    place ∈ entryByEntry lines entries ↔ place.1 < lines ∧ place.2 < entries := by
  simp only [entryByEntry, List.mem_flatMap, List.mem_range, List.mem_map]
  constructor
  · intro found
    obtain ⟨index, below, line, inside, same⟩ := found
    rw [← same]
    exact ⟨inside, below⟩
  · intro inside
    exact ⟨place.2, inside.2, place.1, inside.1, rfl⟩

theorem ascending_lineByLine (lines entries : Nat) : Ascending (lineByLine lines entries) where
  ordered := by
    apply List.pairwise_flatMap.mpr
    constructor
    · intro line _
      apply List.pairwise_map.mpr
      apply List.pairwise_lt_range.imp
      intro index other less _
      exact less
    · apply List.pairwise_lt_range.imp
      intro line other less place member otherPlace otherMember same
      obtain ⟨_, _, rfl⟩ := List.mem_map.mp member
      obtain ⟨_, _, rfl⟩ := List.mem_map.mp otherMember
      exact absurd same (Nat.ne_of_lt less)
  closed := by
    intro line index member below less
    obtain ⟨inside, under⟩ := mem_lineByLine.mp member
    exact mem_lineByLine.mpr ⟨inside, Nat.lt_trans less under⟩

theorem ascending_entryByEntry (lines entries : Nat) :
    Ascending (entryByEntry lines entries) where
  ordered := by
    apply List.pairwise_flatMap.mpr
    constructor
    · intro index _
      apply List.pairwise_map.mpr
      apply List.pairwise_lt_range.imp
      intro line other less same
      exact absurd same (Nat.ne_of_lt less)
    · apply List.pairwise_lt_range.imp
      intro index other less place member otherPlace otherMember _
      obtain ⟨_, _, rfl⟩ := List.mem_map.mp member
      obtain ⟨_, _, rfl⟩ := List.mem_map.mp otherMember
      exact less
  closed := by
    intro line index member below less
    obtain ⟨inside, under⟩ := mem_entryByEntry.mp member
    exact mem_entryByEntry.mpr ⟨inside, Nat.lt_trans less under⟩

end ForwardCopy
