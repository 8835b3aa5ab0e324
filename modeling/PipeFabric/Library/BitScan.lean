import Mathlib.Data.BitVec
import Mathlib.Tactic.NormNum

/-!
# Scanning bit masks

A free position in a slot mask is found by isolating the lowest set bit of the
complement.  The lemmas below are about masks of any width.
-/

namespace BitScan

variable {w : Nat}

/-- `k` is the position of the lowest zero bit of `mask`. -/
structure IsLowestZero (mask : BitVec w) (k : Nat) : Prop where
  inside : k < w
  zero : mask.getLsbD k = false
  below : ∀ j, j < k → mask.getLsbD j = true

theorem getLsbD_one_shiftLeft (k i : Nat) :
    (1#w <<< k).getLsbD i = (decide (i < w) && decide (i = k)) := by
  rw [BitVec.getLsbD_shiftLeft, BitVec.getLsbD_one]
  rw [Bool.eq_iff_iff]
  simp only [Bool.and_eq_true, Bool.not_eq_true', decide_eq_true_eq,
    decide_eq_false_iff_not]
  omega

theorem getLsbD_set (mask : BitVec w) (k i : Nat) :
    (mask ||| 1#w <<< k).getLsbD i =
      (mask.getLsbD i || (decide (i < w) && decide (i = k))) := by
  rw [BitVec.getLsbD_or, getLsbD_one_shiftLeft]

theorem getLsbD_unset (mask : BitVec w) (k i : Nat) :
    (mask &&& ~~~(1#w <<< k)).getLsbD i =
      (mask.getLsbD i && !decide (i = k)) := by
  rw [BitVec.getLsbD_and, BitVec.getLsbD_not, getLsbD_one_shiftLeft]
  by_cases inside : i < w
  · simp [inside]
  · simp [BitVec.getLsbD_of_ge mask i (Nat.le_of_not_lt inside)]

theorem and_one_shiftLeft_ne_zero (mask : BitVec w) (k : Nat) :
    (mask &&& 1#w <<< k ≠ 0#w) ↔ mask.getLsbD k = true := by
  constructor
  · intro different
    by_contra unset
    apply different
    apply BitVec.eq_of_getLsbD_eq
    intro i inside
    rw [BitVec.getLsbD_and, getLsbD_one_shiftLeft]
    by_cases same : i = k
    · subst i
      simp [unset]
    · simp [same]
  · intro set equality
    have inside : k < w := BitVec.lt_of_getLsbD set
    have bit : (mask &&& 1#w <<< k).getLsbD k = false := by
      rw [equality, BitVec.getLsbD_zero]
    rw [BitVec.getLsbD_and, getLsbD_one_shiftLeft, set] at bit
    simp [inside] at bit

/-- Every mask with a zero bit has a lowest one. -/
theorem exists_isLowestZero {mask : BitVec w} (room : mask ≠ BitVec.allOnes w) :
    ∃ k, IsLowestZero mask k := by
  have someZero : ∃ k, k < w ∧ mask.getLsbD k = false := by
    by_contra none
    apply room
    apply BitVec.eq_of_getLsbD_eq
    intro i inside
    have set : mask.getLsbD i = true := by
      by_contra unset
      exact none ⟨i, inside, by simpa using unset⟩
    simp [set, inside]
  let k := Nat.find someZero
  have found := Nat.find_spec someZero
  refine ⟨k, found.1, found.2, ?_⟩
  intro j smaller
  have notZero := Nat.find_min someZero smaller
  by_contra unset
  exact notZero ⟨Nat.lt_trans smaller found.1, by simpa using unset⟩

/-- Isolating the lowest set bit of the complement gives a power of two. -/
theorem isolate_eq_shiftLeft {mask : BitVec w} {k : Nat}
    (lowest : IsLowestZero mask k) :
    ~~~mask &&& -(~~~mask) = 1#w <<< k := by
  apply BitVec.eq_of_getLsbD_eq
  intro i inside
  rw [BitVec.getLsbD_and, getLsbD_one_shiftLeft, BitVec.getLsbD_neg]
  simp only [BitVec.getLsbD_not, inside, decide_true, Bool.true_and]
  rcases Nat.lt_trichotomy i k with below | same | above
  · rw [lowest.below i below]
    simp [Nat.ne_of_lt below]
  · subst i
    have noneBelow :
        ¬ ∃ j < k, (decide (j < w) && !mask.getLsbD j) = true := by
      rintro ⟨j, smaller, bit⟩
      rw [lowest.below j smaller] at bit
      simp at bit
    rw [lowest.zero, decide_eq_false noneBelow]
    simp
  · have witness :
        ∃ j < i, (decide (j < w) && !mask.getLsbD j) = true := by
      refine ⟨k, above, ?_⟩
      rw [lowest.zero]
      simp [lowest.inside]
    rw [decide_eq_true witness]
    simp [Nat.ne_of_gt above]

/-- The naive scan: the positions are tried one after the other, and the width
is the answer when no bit is zero. -/
def scan (mask : BitVec w) : Nat :=
  ((List.range w).find? fun k => !mask.getLsbD k).getD w

theorem scan_allOnes : scan (BitVec.allOnes w) = w := by
  have none : ((List.range w).find? fun k =>
      !(BitVec.allOnes w).getLsbD k) = none := by
    apply List.find?_eq_none.mpr
    intro k member
    have inside : k < w := List.mem_range.mp member
    simp [inside]
  rw [scan, none]
  rfl

/-- The scan stops at the lowest zero bit. -/
theorem IsLowestZero.scan_eq {mask : BitVec w} {k : Nat}
    (lowest : IsLowestZero mask k) : scan mask = k := by
  have found : ((List.range w).find? fun k => !mask.getLsbD k) = some k := by
    apply List.find?_range_eq_some.mpr
    refine ⟨?_, List.mem_range.mpr lowest.inside, ?_⟩
    · simp [lowest.zero]
    · intro j smaller
      simp [lowest.below j smaller]
  rw [scan, found]
  rfl

end BitScan
