import Mathlib.Data.List.Destutter
import Mathlib.Data.List.Sort
import Mathlib.Order.Lattice

/-!
# Sorting pairs and dropping equal keys

Sorting a list of key-value pairs lexicographically and then keeping the first
pair of every run of equal keys leaves one pair for each key: the one with the
least value.
-/

namespace SortUnique

variable {K R : Type} [LinearOrder K] [LinearOrder R]

/-- The lexicographic order of pairs. -/
def PairLe (left right : K × R) : Prop :=
  left.1 < right.1 ∨ left.1 = right.1 ∧ left.2 ≤ right.2

instance : DecidableRel (PairLe (K := K) (R := R)) := fun left right =>
  inferInstanceAs (Decidable (left.1 < right.1 ∨ left.1 = right.1 ∧ left.2 ≤ right.2))

instance : Std.Total (PairLe (K := K) (R := R)) where
  total left right := by
    unfold PairLe
    rcases lt_trichotomy left.1 right.1 with less | same | greater
    · exact Or.inl (Or.inl less)
    · rcases le_total left.2 right.2 with below | above
      · exact Or.inl (Or.inr ⟨same, below⟩)
      · exact Or.inr (Or.inr ⟨same.symm, above⟩)
    · exact Or.inr (Or.inl greater)

instance : IsTrans (K × R) PairLe where
  trans first second third := by
    unfold PairLe
    rintro (less | ⟨same, below⟩) (later | ⟨equal, above⟩)
    · exact Or.inl (lt_trans less later)
    · exact Or.inl (equal ▸ less)
    · exact Or.inl (same ▸ later)
    · exact Or.inr ⟨same.trans equal, le_trans below above⟩

/-- The condition under which `unique` keeps the next pair. -/
def KeysDiffer (left right : K × R) : Prop := left.1 ≠ right.1

instance : DecidableRel (KeysDiffer (K := K) (R := R)) := fun left right =>
  inferInstanceAs (Decidable (left.1 ≠ right.1))

/-- `sort`, then `unique` on equal keys. -/
def sortUnique (pairs : List (K × R)) : List (K × R) :=
  (pairs.insertionSort PairLe).destutter KeysDiffer

theorem sortUnique_singleton (pair : K × R) : sortUnique [pair] = [pair] := rfl

/-- What `unique` leaves of a sorted list: the least pair of every key. -/
private theorem destutter_spec (head : K × R) (tail : List (K × R))
    (sorted : (head :: tail).Pairwise PairLe) :
    (∀ pair ∈ tail.destutter' KeysDiffer head,
      pair ∈ head :: tail ∧
        ∀ other ∈ head :: tail, other.1 = pair.1 → pair.2 ≤ other.2) ∧
      ∀ pair ∈ head :: tail,
        ∃ kept ∈ tail.destutter' KeysDiffer head,
          kept.1 = pair.1 := by
  induction tail generalizing head with
  | nil => simp
  | cons next tail induction =>
      have headSorted := List.pairwise_cons.mp sorted
      by_cases different : KeysDiffer head next
      · rw [List.destutter'_cons_pos _ different]
        obtain ⟨least, complete⟩ := induction next headSorted.2
        have above : ∀ pair ∈ next :: tail, head.1 < pair.1 := by
          intro pair member
          have nextAbove : head.1 < next.1 := by
            rcases headSorted.1 next List.mem_cons_self with less | same
            · exact less
            · exact absurd same.1 different
          rcases List.mem_cons.mp member with same | later
          · rw [same]
            exact nextAbove
          · rcases (List.pairwise_cons.mp headSorted.2).1 pair later with
              less | same
            · exact lt_trans nextAbove less
            · exact same.1 ▸ nextAbove
        constructor
        · intro pair member
          rcases List.mem_cons.mp member with same | later
          · subst pair
            refine ⟨List.mem_cons_self, ?_⟩
            intro other otherMember sameKey
            rcases List.mem_cons.mp otherMember with same | otherLater
            · rw [same]
            · exact absurd sameKey (ne_of_gt (above other otherLater))
          · obtain ⟨inTail, minimal⟩ := least pair later
            refine ⟨List.mem_cons_of_mem head inTail, ?_⟩
            intro other otherMember sameKey
            rcases List.mem_cons.mp otherMember with same | otherLater
            · rw [same] at sameKey
              exact absurd sameKey (ne_of_lt (above pair inTail))
            · exact minimal other otherLater sameKey
        · intro pair member
          rcases List.mem_cons.mp member with same | later
          · exact ⟨head, List.mem_cons_self, by rw [same]⟩
          · obtain ⟨kept, keptMember, sameKey⟩ := complete pair later
            exact ⟨kept, List.mem_cons_of_mem head keptMember, sameKey⟩
      · rw [List.destutter'_cons_neg _ different]
        have sameKey : head.1 = next.1 := not_not.mp different
        have shorter : (head :: tail).Pairwise PairLe :=
          List.pairwise_cons.mpr
            ⟨fun pair member =>
              headSorted.1 pair (List.mem_cons_of_mem next member),
              (List.pairwise_cons.mp headSorted.2).2⟩
        have headLeast : head.2 ≤ next.2 := by
          rcases headSorted.1 next List.mem_cons_self with less | same
          · exact absurd sameKey (ne_of_lt less)
          · exact same.2
        obtain ⟨least, complete⟩ := induction head shorter
        constructor
        · intro pair member
          obtain ⟨inList, minimal⟩ := least pair member
          refine ⟨?_, ?_⟩
          · rcases List.mem_cons.mp inList with same | later
            · exact same ▸ List.mem_cons_self
            · exact List.mem_cons_of_mem head (List.mem_cons_of_mem next later)
          · intro other otherMember equal
            rcases List.mem_cons.mp otherMember with same | otherLater
            · exact minimal other (same ▸ List.mem_cons_self) equal
            · rcases List.mem_cons.mp otherLater with same | inTail
              · subst other
                have viaHead := minimal head List.mem_cons_self
                  (sameKey.trans equal)
                exact le_trans viaHead headLeast
              · exact minimal other (List.mem_cons_of_mem head inTail) equal
        · intro pair member
          rcases List.mem_cons.mp member with same | later
          · exact complete pair (same ▸ List.mem_cons_self)
          · rcases List.mem_cons.mp later with same | inTail
            · obtain ⟨kept, keptMember, equal⟩ :=
                complete head List.mem_cons_self
              exact ⟨kept, keptMember, equal.trans (same ▸ sameKey)⟩
            · exact complete pair (List.mem_cons_of_mem head inTail)

private theorem sorted_insertionSort (pairs : List (K × R)) :
    (pairs.insertionSort PairLe).Pairwise PairLe :=
  List.pairwise_insertionSort PairLe pairs

theorem mem_sortUnique_least {pairs : List (K × R)} {pair : K × R}
    (member : pair ∈ sortUnique pairs) :
    pair ∈ pairs ∧ ∀ other ∈ pairs, other.1 = pair.1 → pair.2 ≤ other.2 := by
  have sorted := sorted_insertionSort pairs
  have permutation := List.perm_insertionSort PairLe pairs
  unfold sortUnique at member
  cases sortedForm : pairs.insertionSort PairLe with
  | nil => simp [sortedForm] at member
  | cons head tail =>
      rw [sortedForm] at sorted member permutation
      rw [List.destutter_cons'] at member
      obtain ⟨inList, least⟩ := (destutter_spec head tail sorted).1 pair member
      exact ⟨permutation.mem_iff.mp inList, fun other otherMember =>
        least other (permutation.mem_iff.mpr otherMember)⟩

/-- No key is lost. -/
theorem exists_mem_sortUnique {pairs : List (K × R)} {pair : K × R}
    (member : pair ∈ pairs) : ∃ kept ∈ sortUnique pairs, kept.1 = pair.1 := by
  have sorted := sorted_insertionSort pairs
  have permutation := List.perm_insertionSort PairLe pairs
  unfold sortUnique
  cases sortedForm : pairs.insertionSort PairLe with
  | nil =>
      rw [sortedForm] at permutation
      cases permutation.mem_iff.mpr member
  | cons head tail =>
      rw [sortedForm] at sorted permutation
      rw [List.destutter_cons']
      exact (destutter_spec head tail sorted).2 pair
        (permutation.mem_iff.mpr member)

/-- Every key is left at most once. -/
theorem sortUnique_keys_nodup (pairs : List (K × R)) :
    ((sortUnique pairs).map Prod.fst).Nodup := by
  have sublist := List.destutter_sublist
    KeysDiffer (pairs.insertionSort PairLe)
  have sorted := (sorted_insertionSort pairs).sublist sublist
  have chain := List.isChain_destutter
    KeysDiffer (pairs.insertionSort PairLe)
  change (sortUnique pairs).Pairwise PairLe at sorted
  change (sortUnique pairs).IsChain _ at chain
  have increasing : (sortUnique pairs).IsChain
      fun left right => left.1 < right.1 := by
    rw [List.isChain_iff_getElem] at chain ⊢
    intro i inside
    rcases sorted.isChain.getElem i inside with less | same
    · exact less
    · exact absurd same.1 (chain i inside)
  have transitive : IsTrans (K × R) fun left right => left.1 < right.1 :=
    ⟨fun _ _ _ => lt_trans⟩
  have pairwise : (sortUnique pairs).Pairwise
      fun left right => left.1 < right.1 := increasing.pairwise
  rw [List.Nodup, List.pairwise_map]
  exact pairwise.imp fun less => ne_of_lt less

end SortUnique
