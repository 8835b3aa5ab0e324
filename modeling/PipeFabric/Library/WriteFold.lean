import Mathlib.Logic.Function.Basic

/-!
# Applying a list of writes

A list of key-value pairs is applied to a map from left to right, either with
every write replacing what the key holds, or with every key keeping the value
it has got first.  The results are described by the last and the first write of
a key.
-/

namespace WriteFold

variable {K R : Type} [DecidableEq K]

/-- Every write replaces the value of its key. -/
def overwrite (contents : K → Option R) (writes : List (K × R)) : K → Option R :=
  writes.foldl
    (fun contents write => Function.update contents write.1 (some write.2))
    contents

/-- A write has an effect only on a key without a value. -/
def keepExisting (contents : K → Option R) (writes : List (K × R)) :
    K → Option R :=
  writes.foldl
    (fun contents write =>
      match contents write.1 with
      | some _ => contents
      | none => Function.update contents write.1 (some write.2))
    contents

def firstWrite (writes : List (K × R)) (key : K) : Option R :=
  (writes.find? fun write => write.1 = key).map Prod.snd

def lastWrite (writes : List (K × R)) (key : K) : Option R :=
  firstWrite writes.reverse key

variable {contents : K → Option R} {writes later : List (K × R)}
  {write : K × R} {key : K}

@[simp] theorem overwrite_nil : overwrite contents [] = contents := rfl

theorem overwrite_cons :
    overwrite contents (write :: writes) =
      overwrite (Function.update contents write.1 (some write.2)) writes := rfl

@[simp] theorem firstWrite_nil : firstWrite ([] : List (K × R)) key = none := rfl

theorem firstWrite_cons :
    firstWrite (write :: writes) key =
      if write.1 = key then some write.2 else firstWrite writes key := by
  unfold firstWrite
  by_cases same : write.1 = key <;> simp [same]

theorem firstWrite_append :
    firstWrite (writes ++ later) key =
      (firstWrite writes key).or (firstWrite later key) := by
  unfold firstWrite
  rw [List.find?_append]
  cases writes.find? fun write => decide (write.1 = key) <;> simp

theorem lastWrite_append :
    lastWrite (writes ++ later) key =
      (lastWrite later key).or (lastWrite writes key) := by
  rw [lastWrite, List.reverse_append, firstWrite_append]
  rfl

theorem lastWrite_cons :
    lastWrite (write :: writes) key =
      (lastWrite writes key).or
        (if write.1 = key then some write.2 else none) := by
  have single : lastWrite [write] key =
      if write.1 = key then some write.2 else none := by
    simp [lastWrite, firstWrite_cons]
  rw [← single, ← lastWrite_append]
  rfl

theorem firstWrite_eq_none :
    firstWrite writes key = none ↔ key ∉ writes.map Prod.fst := by
  induction writes with
  | nil => simp
  | cons write writes induction =>
      rw [firstWrite_cons]
      by_cases same : write.1 = key
      · simp [same]
      · simp only [same, if_false, induction, List.map_cons, List.mem_cons,
          not_or]
        exact ⟨fun absent => ⟨fun equal => same equal.symm, absent⟩, And.right⟩

theorem lastWrite_eq_none :
    lastWrite writes key = none ↔ key ∉ writes.map Prod.fst := by
  rw [lastWrite, firstWrite_eq_none]
  simp

theorem mem_of_firstWrite {value : R}
    (found : firstWrite writes key = some value) : (key, value) ∈ writes := by
  obtain ⟨write, present, same⟩ := Option.map_eq_some_iff.mp found
  have isKey : write.1 = key := by
    simpa using List.find?_some present
  rw [← isKey, ← same]
  exact List.mem_of_find?_eq_some present

theorem mem_of_lastWrite {value : R}
    (found : lastWrite writes key = some value) : (key, value) ∈ writes :=
  List.mem_reverse.mp (mem_of_firstWrite found)

theorem exists_firstWrite {value : R} (member : (key, value) ∈ writes) :
    ∃ first, firstWrite writes key = some first := by
  cases found : firstWrite writes key with
  | none =>
      exact absurd (List.mem_map_of_mem (f := Prod.fst) member)
        (firstWrite_eq_none.mp found)
  | some first => exact ⟨first, rfl⟩

/-- If all writes of a key agree, the first one is the last one. -/
theorem firstWrite_eq_lastWrite
    (agree : ∀ left ∈ writes, ∀ right ∈ writes, left.1 = right.1 →
      left.2 = right.2) (key : K) :
    firstWrite writes key = lastWrite writes key := by
  cases last : lastWrite writes key with
  | none => exact firstWrite_eq_none.mpr (lastWrite_eq_none.mp last)
  | some value =>
      have member := mem_of_lastWrite last
      obtain ⟨first, found⟩ := exists_firstWrite member
      rw [found]
      exact congrArg some (agree _ (mem_of_firstWrite found) _ member rfl)

/-- The last write of a key decides, if there is one. -/
theorem overwrite_eq :
    overwrite contents writes key = (lastWrite writes key).or (contents key) := by
  induction writes generalizing contents with
  | nil => rfl
  | cons write writes induction =>
      rw [overwrite_cons, induction, lastWrite_cons, Function.update_apply]
      by_cases same : key = write.1
      · subst key
        cases lastWrite writes write.1 <;> simp
      · have different : write.1 ≠ key := fun equal => same equal.symm
        cases lastWrite writes key <;> simp [same, different]

/-- What the key holds decides, and then its first write. -/
theorem keepExisting_eq :
    keepExisting contents writes key =
      (contents key).or (firstWrite writes key) := by
  induction writes generalizing contents with
  | nil => simp [keepExisting]
  | cons write writes induction =>
      have unfolded : keepExisting contents (write :: writes) key =
          keepExisting (match contents write.1 with
            | some _ => contents
            | none => Function.update contents write.1 (some write.2))
            writes key := rfl
      rw [unfolded, induction, firstWrite_cons]
      cases held : contents write.1 with
      | some value =>
          by_cases same : write.1 = key
          · subst key
            simp [held]
          · simp [same]
      | none =>
          by_cases same : write.1 = key
          · subst key
            simp [held]
          · have different : key ≠ write.1 := fun equal => same equal.symm
            simp [same, different]

/-- On empty contents the two ways of applying writes show the last and the
first write of every key. -/
theorem overwrite_empty :
    overwrite (fun _ => none) writes = lastWrite writes := by
  funext key
  rw [overwrite_eq, Option.or_none]

theorem keepExisting_empty :
    keepExisting (fun _ => none) writes = firstWrite writes := by
  funext key
  rw [keepExisting_eq, Option.none_or]

theorem overwrite_of_not_mem (absent : key ∉ writes.map Prod.fst) :
    overwrite contents writes key = contents key := by
  rw [overwrite_eq, lastWrite_eq_none.mpr absent]
  rfl

theorem overwrite_append :
    overwrite contents (writes ++ later) =
      overwrite (overwrite contents writes) later := by
  unfold overwrite
  rw [List.foldl_append]

end WriteFold
