import PipeFabric.Library.ScatterGather
import PipeFabric.Library.Transducer
import PipeFabric.Matrix.DenseMatrix

/-!
# Parts of dense matrices

A part holds cells of another matrix one below the other or, as a row vector, one next
to the other.  What can be read of it is what it holds, but in a row vector every value
comes with the position of the first one.
-/

namespace PipeFabric

namespace DenseMatrix

open ScatterGather (addAll exists_addAll)

variable {layout : Layout} {Identifier Cell : Type}

/-- `addIncident` for a cell with its position. -/
def addTriplet (triplet : Triplet Cell) (part : DenseMatrix layout Identifier Cell) :
    Option (DenseMatrix layout Identifier Cell) :=
  part.addIncident triplet.1 triplet.2.1 triplet.2.2

theorem addTriplet_eq {triplet : Triplet Cell} {part : DenseMatrix layout Identifier Cell} :
    addTriplet triplet part = (part.add2end triplet.2.2).map fun grown =>
      { grown with
        incidentIndexes := grown.incidentIndexes ++ [(triplet.1, triplet.2.1)] } := by
  rw [addTriplet, addIncident, Option.map_eq_bind]
  rfl

/-! ### Parts with a dynamic number of rows -/

/-- The part holds these cells in its last column. -/
structure HoldsColumn (share : List (Triplet Cell))
    (part : DenseMatrix layout Identifier Cell) : Prop where
  positions : part.incidentIndexes = share.map fun triplet => (triplet.1, triplet.2.1)
  rows : part.matrix.rows = share.length
  cols : share ≠ [] → 0 < part.matrix.cols
  values : ∀ index triplet, share[index]? = some triplet →
    part.matrix.coeff index (part.matrix.cols - 1) = some triplet.2.2

variable {Cols : Option Nat}

theorem isColMajor_dynamicRows : (Layout.dynamicRows Cols).isColMajor = true := rfl

theorem holdsColumn_empty :
    HoldsColumn [] (empty : DenseMatrix (.dynamicRows Cols) Identifier Cell) where
  positions := rfl
  rows := rfl
  cols absurdity := absurd rfl absurdity
  values index triplet here := by cases here

/-- The last column of a matrix, which can be the first one yet to come. -/
def lastColumn (cols : Nat) : Nat := if cols = 0 then 0 else cols - 1

theorem lastColumn_fits {cols : Nat} (admitted : Cols.getD cols = cols)
    (some : Cols ≠ some 0) : Cols = none ∨ lastColumn cols < cols := by
  cases Cols with
  | none => exact .inl rfl
  | some number =>
      obtain rfl : number = cols := admitted
      have positive : number ≠ 0 := fun zero => some (congrArg _ zero)
      rw [lastColumn, if_neg positive]
      omega

theorem lastColumn_grown (cols : Nat) :
    (if cols ≤ lastColumn cols then lastColumn cols + 1 else cols) =
      (if cols = 0 then 1 else cols) := by
  rw [lastColumn]
  by_cases none : cols = 0
  · rw [if_pos none, if_pos none, none]
    rfl
  · rw [if_neg none, if_neg none, if_neg (by omega)]

theorem add2end_column (part : DenseMatrix (.dynamicRows Cols) Identifier Cell)
    (value : Cell) : part.add2end value =
      part.set part.matrix.rows (lastColumn part.matrix.cols) value := rfl

theorem HoldsColumn.add {share : List (Triplet Cell)}
    {part : DenseMatrix (.dynamicRows Cols) Identifier Cell} (holds : HoldsColumn share part)
    (some : Cols ≠ some 0) (triplet : Triplet Cell) :
    ∃ after, addTriplet triplet part = .some after ∧ HoldsColumn (share ++ [triplet]) after := by
  have fits := lastColumn_fits part.matrix.admitted.2 some
  obtain ⟨grown, done⟩ : ∃ grown, part.set part.matrix.rows (lastColumn part.matrix.cols)
      triplet.2.2 = .some grown := set_isSome_iff.mpr ⟨.inl rfl, fits⟩
  obtain ⟨rows, cols, coeff, positions⟩ := set_spec done
  rw [if_pos (Nat.le_refl _)] at rows
  rw [lastColumn_grown] at cols
  have last : grown.matrix.cols - 1 = lastColumn part.matrix.cols := by
    rw [cols, lastColumn]
    split <;> rfl
  refine ⟨{ grown with
    incidentIndexes := grown.incidentIndexes ++ [(triplet.1, triplet.2.1)] }, ?_, ?_⟩
  · rw [addTriplet_eq, add2end_column, done, Option.map_some]
  · refine ⟨?_, ?_, ?_, ?_⟩
    · simp [positions, holds.positions]
    · simp [rows, holds.rows]
    · intro _
      change 0 < grown.matrix.cols
      rw [cols]
      split <;> omega
    · intro index other here
      change grown.matrix.coeff index (grown.matrix.cols - 1) = _
      rw [last, coeff]
      rcases Transducer.getElem?_concat_iff.mp here with early | ⟨rfl, rfl⟩
      · have below := (List.getElem?_eq_some_iff.mp early).1
        have positive := holds.cols (by rintro rfl; cases early)
        rw [if_neg (by rw [holds.rows]; omega), lastColumn, if_neg (Nat.ne_of_gt positive)]
        exact holds.values index other early
      · rw [if_pos ⟨holds.rows.symm, rfl⟩]

/-- What can be read of such a part are the cells it holds. -/
theorem HoldsColumn.getIncident {share : List (Triplet Cell)}
    {part : DenseMatrix (.dynamicRows Cols) Identifier Cell} (holds : HoldsColumn share part)
    {index : Nat} {triplet : Triplet Cell} (here : share[index]? = some triplet) :
    part.getIncident index = some triplet := by
  have positive := holds.cols (by rintro rfl; cases here)
  have last : (if part.matrix.cols = 0 then 0 else part.matrix.cols - 1) =
      part.matrix.cols - 1 := if_neg (Nat.ne_of_gt positive)
  have position : part.incidentIndexes[index]? = some (triplet.1, triplet.2.1) := by
    rw [holds.positions, List.getElem?_map, here]
    rfl
  simp [DenseMatrix.getIncident, isColMajor_dynamicRows, last, holds.values index triplet here,
    position]

/-! ### Parts of row vectors -/

/-- The part holds these cells in its only row. -/
structure HoldsRow (share : List (Triplet Cell))
    (part : DenseMatrix (.fixedRows 1) Identifier Cell) : Prop where
  positions : part.incidentIndexes = share.map fun triplet => (triplet.1, triplet.2.1)
  cols : part.matrix.cols = share.length
  values : ∀ index triplet, share[index]? = some triplet →
    part.matrix.coeff 0 index = some triplet.2.2

theorem holdsRow_empty :
    HoldsRow [] (empty : DenseMatrix (.fixedRows 1) Identifier Cell) where
  positions := rfl
  cols := rfl
  values index triplet here := by cases here

theorem rows_fixed {Rows : Nat} (matrix : EigenMatrix (.fixedRows Rows) Cell) :
    matrix.rows = Rows := matrix.admitted.1.symm

theorem add2end_row (part : DenseMatrix (.fixedRows 1) Identifier Cell) (value : Cell) :
    part.add2end value = part.set 0 part.matrix.cols value := by
  rw [add2end, if_neg (by decide), rows_fixed]
  rfl

theorem HoldsRow.add {share : List (Triplet Cell)}
    {part : DenseMatrix (.fixedRows 1) Identifier Cell} (holds : HoldsRow share part)
    (triplet : Triplet Cell) :
    ∃ after, addTriplet triplet part = some after ∧ HoldsRow (share ++ [triplet]) after := by
  have row : 0 < part.matrix.rows := by
    rw [rows_fixed]
    exact Nat.one_pos
  obtain ⟨grown, done⟩ : ∃ grown, part.set 0 part.matrix.cols triplet.2.2 = some grown :=
    set_isSome_iff.mpr ⟨.inr row, .inl rfl⟩
  obtain ⟨_, cols, coeff, positions⟩ := set_spec done
  rw [if_pos (Nat.le_refl _)] at cols
  refine ⟨{ grown with
    incidentIndexes := grown.incidentIndexes ++ [(triplet.1, triplet.2.1)] }, ?_, ?_⟩
  · rw [addTriplet_eq, add2end_row, done, Option.map_some]
  · refine ⟨?_, ?_, ?_⟩
    · simp [positions, holds.positions]
    · simp [cols, holds.cols]
    · intro index other here
      change grown.matrix.coeff 0 index = _
      rw [coeff]
      rcases Transducer.getElem?_concat_iff.mp here with early | ⟨rfl, rfl⟩
      · have below := (List.getElem?_eq_some_iff.mp early).1
        rw [if_neg (by rw [holds.cols]; omega)]
        exact holds.values index other early
      · rw [if_pos ⟨rfl, holds.cols.symm⟩]

/-- Every value is read with the position of the first one. -/
theorem HoldsRow.getIncident {first : Triplet Cell} {share : List (Triplet Cell)}
    {part : DenseMatrix (.fixedRows 1) Identifier Cell}
    (holds : HoldsRow (first :: share) part) {index : Nat} {triplet : Triplet Cell}
    (here : (first :: share)[index]? = some triplet) :
    part.getIncident index = some (first.1, first.2.1, triplet.2.2) := by
  have position : part.incidentIndexes[0]? = some (first.1, first.2.1) := by
    rw [holds.positions]
    rfl
  simp [DenseMatrix.getIncident, Layout.isColMajor, rows_fixed,
    holds.values index triplet here, position]

/-! ### Other parts -/

/-- With another fixed number of rows there is no room for a cell. -/
theorem addTriplet_fixedRows {Rows : Nat} (other : Rows ≠ 1) (triplet : Triplet Cell)
    (part : DenseMatrix (.fixedRows Rows) Identifier Cell) :
    addTriplet triplet part = none := by
  have colMajor : (Layout.fixedRows Rows).isColMajor = true := by
    simpa [Layout.isColMajor] using other
  rw [addTriplet_eq, Option.map_eq_none_iff, add2end, if_pos colMajor]
  by_contra done
  obtain ⟨rows | rows, _⟩ := set_isSome_iff.mp (Option.ne_none_iff_exists'.mp done)
  · cases rows
  · exact absurd rows (Nat.lt_irrefl _)

end DenseMatrix

end PipeFabric
