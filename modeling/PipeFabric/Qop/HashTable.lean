import Mathlib.Data.List.Basic

/-!
# Hash tables of the join operators

Both joins keep each side in an `std::unordered_multimap`; a list of entries
stands for it.  The order of equal keys is unspecified there, so results are
compared as multisets.
-/

namespace PipeFabric

/-- `std::unordered_multimap<KeyType, StreamElement>`. -/
abbrev HashTable (K α : Type) : Type := List (K × α)

namespace HashTable

variable {K α : Type} [DecidableEq K] [DecidableEq α]

/-- The elements stored under a key. -/
def equal_range (hashTable : HashTable K α) (key : K) : List α :=
  (hashTable.filter fun entry => entry.1 = key).map Prod.snd

/-- `updateHashTable` of both joins: an outdated element removes every equal
element stored under its key. -/
def updateHashTable (hashTable : HashTable K α) (key : K) (newElement : α)
    (outdated : Bool) : HashTable K α :=
  if outdated then
    hashTable.filter fun entry => ¬ (entry.1 = key ∧ newElement = entry.2)
  else (key, newElement) :: hashTable

omit [DecidableEq K] [DecidableEq α] in
/-- Every element is stored under the key `stored` gives it. -/
def Keyed (stored : α → K) (hashTable : HashTable K α) : Prop :=
  ∀ entry ∈ hashTable, entry.1 = stored entry.2

omit [DecidableEq K] [DecidableEq α] in
/-- All elements, whatever their key. -/
def elements (hashTable : HashTable K α) : List α := hashTable.map Prod.snd

omit [DecidableEq K] [DecidableEq α] in
theorem keyed_nil (stored : α → K) : Keyed stored ([] : HashTable K α) := by
  intro entry member
  cases member

theorem Keyed.updateHashTable {stored : α → K} {hashTable : HashTable K α}
    (keyed : Keyed stored hashTable) (newElement : α) (outdated : Bool) :
    Keyed stored
      (updateHashTable hashTable (stored newElement) newElement outdated) := by
  intro entry member
  unfold HashTable.updateHashTable at member
  split at member
  · exact keyed entry (List.mem_of_mem_filter member)
  · rcases List.mem_cons.mp member with new | old
    · rw [new]
    · exact keyed entry old

omit [DecidableEq α] in
theorem Keyed.equal_range {stored : α → K} {hashTable : HashTable K α}
    (keyed : Keyed stored hashTable) (key : K) :
    hashTable.equal_range key =
      hashTable.elements.filter fun element => stored element = key := by
  induction hashTable with
  | nil => rfl
  | cons entry hashTable induction =>
      have rest := induction fun other member =>
        keyed other (List.mem_cons_of_mem _ member)
      have here := keyed entry List.mem_cons_self
      unfold HashTable.equal_range elements at *
      rw [List.filter_cons, List.map_cons, List.filter_cons, ← here]
      by_cases same : entry.1 = key
      · simp only [same, decide_true, if_true, List.map_cons, rest]
      · simp only [same, decide_false, Bool.false_eq_true, if_false, rest]

omit [DecidableEq α] in
/-- The loop over the elements of one key, which publishes a result for every
element the join predicate accepts. -/
theorem Keyed.probe {β : Type} {stored : α → K} {hashTable : HashTable K α}
    (keyed : Keyed stored hashTable) (key : K) (accepted : α → Bool)
    (result : α → β) :
    ((hashTable.equal_range key).flatMap fun element =>
      if accepted element then [result element] else []) =
      (hashTable.elements.filter fun element =>
        stored element = key ∧ accepted element = true).map result := by
  rw [keyed.equal_range]
  generalize hashTable.elements = candidates
  induction candidates with
  | nil => rfl
  | cons element candidates induction =>
      rw [List.filter_cons, List.filter_cons]
      by_cases here : stored element = key
      · by_cases good : accepted element = true <;>
          simp [here, good, induction]
      · simp [here, induction]

omit [DecidableEq K] [DecidableEq α] in
@[simp] theorem elements_nil : elements ([] : HashTable K α) = [] := rfl

@[simp] theorem elements_insert (hashTable : HashTable K α) (key : K)
    (newElement : α) :
    (hashTable.updateHashTable key newElement false).elements =
      newElement :: hashTable.elements := rfl

theorem Keyed.elements_remove {stored : α → K} {hashTable : HashTable K α}
    (keyed : Keyed stored hashTable) (newElement : α) :
    (hashTable.updateHashTable (stored newElement) newElement true).elements =
      hashTable.elements.filter fun element => element ≠ newElement := by
  induction hashTable with
  | nil => rfl
  | cons entry hashTable induction =>
      obtain ⟨key, element⟩ := entry
      have rest := induction fun other member =>
        keyed other (List.mem_cons_of_mem _ member)
      have here : key = stored element := keyed (key, element) List.mem_cons_self
      subst here
      unfold HashTable.updateHashTable elements at *
      simp only [if_true] at rest ⊢
      rw [List.filter_cons, List.map_cons, List.filter_cons, ← rest]
      by_cases same : element = newElement
      · simp [same]
      · have different : ¬ (stored element = stored newElement ∧
            newElement = element) := fun both => same both.2.symm
        rw [if_pos (decide_eq_true different), if_pos (decide_eq_true same),
          List.map_cons]

end HashTable

end PipeFabric
