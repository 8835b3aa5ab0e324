import Mathlib.Algebra.Ring.Int.Defs

/-!
# Truncated division

A number is split by a division that truncates towards zero, its remainder is given
in a smaller unit, and both are put together again with the remainder rounded by
adding a part of a unit.  The rounding is meant for remainders that are not negative.
-/

namespace TruncatedDivision

/-- A part of a unit added to a multiple is truncated away from zero on, and is a whole
unit below. -/
theorem tdiv_mul_add {unit part : Int} (positive : 0 < part) (less : part < unit)
    (value : Int) :
    (unit * value + part).tdiv unit = if 0 ≤ value then value else value + 1 := by
  have nonneg : 0 ≤ unit := by omega
  have nonzero : unit ≠ 0 := by omega
  by_cases sign : 0 ≤ value
  · have numerator : 0 ≤ unit * value + part := by
      have product := Int.mul_nonneg nonneg sign
      omega
    rw [if_pos sign, Int.tdiv_eq_ediv_of_nonneg numerator,
      Int.mul_add_ediv_left value part nonzero,
      Int.ediv_eq_zero_of_lt (by omega) less]
    omega
  · have flipped : unit * value + part = -(unit * (-(value + 1)) + (unit - part)) := by
      rw [Int.mul_neg, Int.mul_add]
      omega
    have numerator : 0 ≤ unit * (-(value + 1)) + (unit - part) := by
      have product : 0 ≤ unit * (-(value + 1)) := Int.mul_nonneg nonneg (by omega)
      omega
    rw [if_neg sign, flipped, Int.neg_tdiv, Int.tdiv_eq_ediv_of_nonneg numerator,
      Int.mul_add_ediv_left _ _ nonzero, Int.ediv_eq_zero_of_lt (by omega) (by omega)]
    omega

/-- A remainder has the sign of the number. -/
theorem tmod_nonneg_iff (value per : Int) :
    0 ≤ value.tmod per ↔ 0 ≤ value ∨ per ∣ value := by
  have sign := Int.sign_tmod value per
  rw [← Int.sign_nonneg_iff, sign]
  by_cases divides : per ∣ value
  · rw [if_pos divides]
    simp [divides]
  · rw [if_neg divides, Int.sign_nonneg_iff]
    simp [divides]

/-- The quotient, and the remainder rounded, put together again. -/
def recombine (per unit part value : Int) : Int :=
  per * value.tdiv per + (unit * value.tmod per + part).tdiv unit

section

variable {per unit part : Int} (positive : 0 < part) (less : part < unit)

include positive less

theorem recombine_eq (value : Int) :
    recombine per unit part value =
      if 0 ≤ value ∨ per ∣ value then value else value + 1 := by
  have together := Int.mul_tdiv_add_tmod value per
  rw [recombine, tdiv_mul_add positive less]
  by_cases sign : 0 ≤ value ∨ per ∣ value
  · rw [if_pos ((tmod_nonneg_iff value per).mpr sign), if_pos sign]
    exact together
  · rw [if_neg (mt (tmod_nonneg_iff value per).mp sign), if_neg sign]
    omega

theorem recombine_fixed_iff (value : Int) :
    recombine per unit part value = value ↔ 0 ≤ value ∨ per ∣ value := by
  rw [recombine_eq positive less]
  by_cases sign : 0 ≤ value ∨ per ∣ value
  · rw [if_pos sign]
    exact ⟨fun _ => sign, fun _ => rfl⟩
  · rw [if_neg sign]
    constructor
    · intro fixed
      omega
    · intro kept
      exact absurd kept sign

/-- Neighbours fall together when only the upper one is kept. -/
theorem recombine_lt_iff {lower upper : Int} (ordered : lower < upper) :
    recombine per unit part lower < recombine per unit part upper ↔
      ¬ (upper = lower + 1 ∧ ¬ (0 ≤ lower ∨ per ∣ lower) ∧ (0 ≤ upper ∨ per ∣ upper)) := by
  rw [recombine_eq positive less, recombine_eq positive less]
  by_cases lowerKept : 0 ≤ lower ∨ per ∣ lower
  · rw [if_pos lowerKept]
    split
    · simp [ordered, lowerKept]
    · simp only [lowerKept, not_true_eq_false, false_and, and_false, not_false_eq_true,
        iff_true]
      omega
  · rw [if_neg lowerKept]
    by_cases upperKept : 0 ≤ upper ∨ per ∣ upper
    · rw [if_pos upperKept]
      simp only [lowerKept, upperKept, not_false_eq_true, and_true]
      omega
    · rw [if_neg upperKept]
      simp only [upperKept, and_false, not_false_eq_true, iff_true]
      omega

end

end TruncatedDivision
