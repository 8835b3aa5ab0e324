import Mathlib.Logic.Basic
import Mathlib.Tactic.ByContra

/-!
# Dense matrices

`DenseMatrix` stands on a matrix of Eigen, whose cells have no value until they are
written.  It can hold the cells of a part of another matrix one after the other,
together with their positions there.
-/

namespace PipeFabric

/-- The template arguments `Rows` and `Cols`.  One of them is `Eigen::Dynamic`, or
`conservativeResize` does not compile. -/
inductive Layout where
  | dynamicRows (Cols : Option Nat)
  | fixedRows (Rows : Nat)
  deriving DecidableEq

namespace Layout

/-- `none` is `Eigen::Dynamic`. -/
def Rows : Layout → Option Nat
  | .dynamicRows _ => none
  | .fixedRows Rows => some Rows

/-- `none` is `Eigen::Dynamic`. -/
def Cols : Layout → Option Nat
  | .dynamicRows Cols => Cols
  | .fixedRows _ => none

/-- `MatrixType::Options == Eigen::ColMajor`.  By default only row vectors are stored
row by row. -/
def isColMajor (layout : Layout) : Bool := layout ≠ .fixedRows 1

/-- A matrix of this type can have these numbers of rows and columns. -/
def Admits (layout : Layout) (rows cols : Nat) : Prop :=
  layout.Rows.getD rows = rows ∧ layout.Cols.getD cols = cols

instance (layout : Layout) (rows cols : Nat) : Decidable (layout.Admits rows cols) :=
  inferInstanceAs (Decidable (_ ∧ _))

theorem admits_default (layout : Layout) :
    layout.Admits (layout.Rows.getD 0) (layout.Cols.getD 0) := by
  cases layout with
  | dynamicRows Cols => cases Cols <;> exact ⟨rfl, rfl⟩
  | fixedRows Rows => exact ⟨rfl, rfl⟩

end Layout

/-- `Eigen::Matrix`.  A cell that was never written has no value. -/
structure EigenMatrix (layout : Layout) (Cell : Type) where
  rows : Nat
  cols : Nat
  coeff : Nat → Nat → Option Cell
  admitted : layout.Admits rows cols
  outside : ∀ i j, rows ≤ i ∨ cols ≤ j → coeff i j = none

namespace EigenMatrix

variable {layout : Layout} {Cell : Type}

theorem ext_coeff {first second : EigenMatrix layout Cell} (rows : first.rows = second.rows)
    (cols : first.cols = second.cols) (coeff : first.coeff = second.coeff) :
    first = second := by
  obtain ⟨_, _, _, _, _⟩ := first
  obtain ⟨_, _, _, _, _⟩ := second
  cases rows
  cases cols
  cases coeff
  rfl

/-- The constructor without arguments. -/
def empty : EigenMatrix layout Cell where
  rows := layout.Rows.getD 0
  cols := layout.Cols.getD 0
  coeff _ _ := none
  admitted := layout.admits_default
  outside _ _ _ := rfl

theorem resized_outside (coeff : Nat → Nat → Option Cell) (rows cols : Nat) :
    ∀ i j, rows ≤ i ∨ cols ≤ j →
      (if i < rows ∧ j < cols then coeff i j else none) = none := by
  intro i j beyond
  rw [if_neg]
  omega

/-- `conservativeResize`.  The assertion fails for a number that is fixed. -/
def conservativeResize (matrix : EigenMatrix layout Cell) (rows cols : Nat) :
    Option (EigenMatrix layout Cell) :=
  if admitted : layout.Admits rows cols then
    some
      { rows := rows
        cols := cols
        coeff := fun i j => if i < rows ∧ j < cols then matrix.coeff i j else none
        admitted := admitted
        outside := resized_outside matrix.coeff rows cols }
  else none

theorem assigned_outside (matrix : EigenMatrix layout Cell) {x y : Nat}
    (inside : x < matrix.rows ∧ y < matrix.cols) (value : Cell) :
    ∀ i j, matrix.rows ≤ i ∨ matrix.cols ≤ j →
      (if i = x ∧ j = y then some value else matrix.coeff i j) = none := by
  intro i j beyond
  rw [if_neg (by omega), matrix.outside i j beyond]

/-- The assignment to a cell, which has to be there. -/
def assign (matrix : EigenMatrix layout Cell) (x y : Nat) (value : Cell) :
    Option (EigenMatrix layout Cell) :=
  if inside : x < matrix.rows ∧ y < matrix.cols then
    some
      { matrix with
        coeff := fun i j => if i = x ∧ j = y then some value else matrix.coeff i j
        outside := assigned_outside matrix inside value }
  else none

section

variable {matrix after : EigenMatrix layout Cell}

theorem conservativeResize_isSome_iff (rows cols : Nat) :
    (∃ after, matrix.conservativeResize rows cols = some after) ↔ layout.Admits rows cols := by
  rw [conservativeResize]
  by_cases admitted : layout.Admits rows cols
  · rw [dif_pos admitted]
    exact iff_of_true ⟨_, rfl⟩ admitted
  · rw [dif_neg admitted]
    exact iff_of_false (by simp) admitted

/-- The cells that are still there keep their values. -/
theorem conservativeResize_spec {rows cols : Nat}
    (resized : matrix.conservativeResize rows cols = some after) :
    after.rows = rows ∧ after.cols = cols ∧
      ∀ i j, after.coeff i j = if i < rows ∧ j < cols then matrix.coeff i j else none := by
  rw [conservativeResize] at resized
  split at resized
  · cases resized
    exact ⟨rfl, rfl, fun _ _ => rfl⟩
  · cases resized

theorem assign_isSome_iff (x y : Nat) (value : Cell) :
    (∃ after, matrix.assign x y value = some after) ↔ x < matrix.rows ∧ y < matrix.cols := by
  rw [assign]
  by_cases inside : x < matrix.rows ∧ y < matrix.cols
  · rw [dif_pos inside]
    exact iff_of_true ⟨_, rfl⟩ inside
  · rw [dif_neg inside]
    exact iff_of_false (by simp) inside

theorem assign_spec {x y : Nat} {value : Cell}
    (assigned : matrix.assign x y value = some after) :
    after.rows = matrix.rows ∧ after.cols = matrix.cols ∧
      ∀ i j, after.coeff i j = if i = x ∧ j = y then some value else matrix.coeff i j := by
  rw [assign] at assigned
  split at assigned
  · cases assigned
    exact ⟨rfl, rfl, fun _ _ => rfl⟩
  · cases assigned

end

/-- All cells have values. -/
def Initialized (matrix : EigenMatrix layout Cell) : Prop :=
  ∀ i j, i < matrix.rows → j < matrix.cols → ∃ value, matrix.coeff i j = some value

theorem inside_of_coeff {matrix : EigenMatrix layout Cell} {i j : Nat} {value : Cell}
    (holds : matrix.coeff i j = some value) : i < matrix.rows ∧ j < matrix.cols := by
  by_contra beyond
  rw [matrix.outside i j (by omega)] at holds
  cases holds

end EigenMatrix

/-- A cell with its position. -/
abbrev Triplet (Cell : Type) := Nat × Nat × Cell

/-- `DenseMatrix`.  The constructors leave the identifier without a value. -/
structure DenseMatrix (layout : Layout) (Identifier Cell : Type) where
  matrix : EigenMatrix layout Cell
  id : Option Identifier
  incidentIndexes : List (Nat × Nat)

namespace DenseMatrix

variable {layout : Layout} {Identifier Cell : Type}

/-- The constructor without arguments. -/
def empty : DenseMatrix layout Identifier Cell := ⟨.empty, none, []⟩

/-- The move constructor. -/
def move (rhs : DenseMatrix layout Identifier Cell) : DenseMatrix layout Identifier Cell :=
  ⟨rhs.matrix, rhs.id, rhs.incidentIndexes⟩

/-- `setID`. -/
def setID (this : DenseMatrix layout Identifier Cell) (identifier : Identifier) :
    DenseMatrix layout Identifier Cell :=
  { this with id := some identifier }

/-- `set`. -/
def set (this : DenseMatrix layout Identifier Cell) (x y : Nat) (value : Cell) :
    Option (DenseMatrix layout Identifier Cell) :=
  let rows := this.matrix.rows
  let cols := this.matrix.cols
  let resized :=
    if rows ≤ x ∨ cols ≤ y then
      this.matrix.conservativeResize (if rows ≤ x then x + 1 else rows)
        (if cols ≤ y then y + 1 else cols)
    else some this.matrix
  resized.bind fun matrix =>
    (matrix.assign x y value).map fun assigned => { this with matrix := assigned }

/-- `add2end`. -/
def add2end (this : DenseMatrix layout Identifier Cell) (value : Cell) :
    Option (DenseMatrix layout Identifier Cell) :=
  let rows := this.matrix.rows
  let cols := this.matrix.cols
  if layout.isColMajor then this.set rows (if cols = 0 then 0 else cols - 1) value
  else this.set (if rows = 0 then 0 else rows - 1) cols value

/-- `addIncident`. -/
def addIncident (this : DenseMatrix layout Identifier Cell) (i j : Nat) (value : Cell) :
    Option (DenseMatrix layout Identifier Cell) := do
  let extended ← this.add2end value
  return { extended with incidentIndexes := extended.incidentIndexes ++ [(i, j)] }

/-- `getIncident`.  The position is looked up with the row of the value, whatever the
order of the cells is. -/
def getIncident (this : DenseMatrix layout Identifier Cell) (index : Nat) :
    Option (Triplet Cell) := do
  let rows := this.matrix.rows
  let cols := this.matrix.cols
  let i := if layout.isColMajor then index else if rows = 0 then 0 else rows - 1
  let j := if layout.isColMajor then (if cols = 0 then 0 else cols - 1) else index
  let value ← this.matrix.coeff i j
  let ids ← this.incidentIndexes[i]?
  return (ids.1, ids.2, value)

/-- `getCountIncidents`. -/
def getCountIncidents (this : DenseMatrix layout Identifier Cell) : Nat :=
  this.incidentIndexes.length

/-! ### Iteration -/

/-- `DenseIterator::incIters`. -/
def incIters (rows cols : Nat) (position : Nat × Nat) : Nat × Nat :=
  let row := position.1 + 1
  if rows ≤ row then
    let col := position.2 + 1
    if col < cols then (0, col) else (row, col)
  else (row, position.2)

/-- The loop from `begin` to `end`.  It ends with an assertion that fails, and with a
value to be read that there is not, if it leaves the matrix. -/
def traverse (matrix : EigenMatrix layout Cell) : Nat → Nat × Nat → Option (List (Triplet Cell))
  | 0, _ => none
  | fuel + 1, position =>
      if position = (matrix.rows, matrix.cols) then some []
      else do
        let value ← matrix.coeff position.1 position.2
        let rest ← traverse matrix fuel (incIters matrix.rows matrix.cols position)
        return (position.1, position.2, value) :: rest

/-- The cells in the order of the iteration.  There are as many rounds as cells. -/
def cells (this : DenseMatrix layout Identifier Cell) : Option (List (Triplet Cell)) :=
  traverse this.matrix (this.matrix.rows * this.matrix.cols + 1) (0, 0)

/-- From a position inside of the matrix on the loop visits the rest of the column and
the later columns. -/
theorem traverse_inside {matrix : EigenMatrix layout Cell} (initialized : matrix.Initialized)
    {fuel row col : Nat} (inRow : row < matrix.rows) (inCol : col < matrix.cols)
    (enough : (matrix.cols - (col + 1)) * matrix.rows + (matrix.rows - row) < fuel) :
    ∃ cells, traverse matrix fuel (row, col) = some cells ∧
      ∀ i j value, (i, j, value) ∈ cells ↔
        matrix.coeff i j = some value ∧ (col < j ∨ (col = j ∧ row ≤ i)) := by
  induction fuel generalizing row col with
  | zero => exact absurd enough (Nat.not_lt_zero _)
  | succ fuel induction =>
      obtain ⟨value, holds⟩ := initialized row col inRow inCol
      have unfinished : (row, col) ≠ (matrix.rows, matrix.cols) := by
        intro same
        exact absurd (congrArg Prod.fst same) (Nat.ne_of_lt inRow)
      -- what the next position has to lead to
      suffices later : ∃ rest,
          traverse matrix fuel (incIters matrix.rows matrix.cols (row, col)) = some rest ∧
            ∀ i j other, (i, j, other) ∈ rest ↔
              matrix.coeff i j = some other ∧ (col < j ∨ (col = j ∧ row + 1 ≤ i)) by
        obtain ⟨rest, traversed, members⟩ := later
        refine ⟨(row, col, value) :: rest, ?_, ?_⟩
        · simp only [traverse, if_neg unfinished, holds, Option.bind_eq_bind, Option.bind_some,
            traversed]
          rfl
        · intro i j other
          rw [List.mem_cons, members]
          constructor
          · rintro (same | ⟨found, after⟩)
            · cases same
              exact ⟨holds, .inr ⟨rfl, Nat.le_refl _⟩⟩
            · exact ⟨found, after.imp_right fun both => ⟨both.1, Nat.le_of_succ_le both.2⟩⟩
          · rintro ⟨found, after | ⟨rfl, below⟩⟩
            · exact .inr ⟨found, .inl after⟩
            · rcases Nat.eq_or_lt_of_le below with rfl | less
              · left
                rw [Option.some.inj (found.symm.trans holds)]
              · exact .inr ⟨found, .inr ⟨rfl, less⟩⟩
      by_cases lastRow : matrix.rows ≤ row + 1
      · by_cases lastCol : col + 1 < matrix.cols
        · have fewer : matrix.cols - (col + 1) = matrix.cols - (col + 1 + 1) + 1 := by omega
          rw [fewer, Nat.succ_mul] at enough
          have top : 0 < matrix.rows := by omega
          obtain ⟨rest, traversed, members⟩ := induction top lastCol (by omega)
          refine ⟨rest, ?_, ?_⟩
          · simpa only [incIters, if_pos lastRow, if_pos lastCol] using traversed
          · intro i j other
            rw [members]
            apply and_congr_right
            intro found
            have inside := EigenMatrix.inside_of_coeff found
            omega
        · have ends : incIters matrix.rows matrix.cols (row, col) =
              (matrix.rows, matrix.cols) := by
            simp only [incIters, if_pos lastRow, if_neg lastCol, Prod.mk.injEq]
            omega
          have some : fuel ≠ 0 := by omega
          obtain ⟨left, rfl⟩ := Nat.exists_eq_succ_of_ne_zero some
          refine ⟨[], ?_, ?_⟩
          · rw [ends, traverse, if_pos rfl]
          · intro i j other
            refine iff_of_false List.not_mem_nil ?_
            rintro ⟨found, after⟩
            have inside := EigenMatrix.inside_of_coeff found
            omega
      · have more : row + 1 < matrix.rows := Nat.lt_of_not_le lastRow
        simpa only [incIters, if_neg lastRow] using induction more inCol (by omega)

theorem cells_inside {this : DenseMatrix layout Identifier Cell}
    (initialized : this.matrix.Initialized) (rows : 0 < this.matrix.rows)
    (cols : 0 < this.matrix.cols) :
    ∃ cells, this.cells = some cells ∧
      ∀ i j value, (i, j, value) ∈ cells ↔ this.matrix.coeff i j = some value := by
  have enough : (this.matrix.cols - (0 + 1)) * this.matrix.rows + (this.matrix.rows - 0) <
      this.matrix.rows * this.matrix.cols + 1 := by
    obtain ⟨k, same⟩ := Nat.exists_eq_succ_of_ne_zero (Nat.ne_of_gt cols)
    rw [same, Nat.mul_comm this.matrix.rows, Nat.succ_mul]
    exact Nat.lt_succ_self _
  obtain ⟨cells, traversed, members⟩ := traverse_inside initialized rows cols enough
  refine ⟨cells, traversed, ?_⟩
  intro i j value
  rw [members]
  apply and_iff_left_of_imp
  intro _
  omega

/-- The loop goes wrong when there are rows without columns or columns without rows. -/
theorem cells_isSome_iff {this : DenseMatrix layout Identifier Cell}
    (initialized : this.matrix.Initialized) :
    (∃ cells, this.cells = some cells) ↔
      (this.matrix.rows = 0 ∧ this.matrix.cols = 0) ∨
        (0 < this.matrix.rows ∧ 0 < this.matrix.cols) := by
  constructor
  · rintro ⟨cells, visited⟩
    by_contra uneven
    have outside : this.matrix.coeff 0 0 = none := this.matrix.outside 0 0 (by omega)
    have unfinished : (0, 0) ≠ (this.matrix.rows, this.matrix.cols) := by
      intro same
      obtain ⟨rows, cols⟩ := Prod.mk.inj same
      exact uneven (.inl ⟨rows.symm, cols.symm⟩)
    simp [DenseMatrix.cells, traverse, unfinished, outside] at visited
  · rintro (⟨rows, cols⟩ | ⟨rows, cols⟩)
    · refine ⟨[], ?_⟩
      rw [DenseMatrix.cells, traverse, if_pos (by rw [rows, cols])]
    · obtain ⟨cells, visited, _⟩ := cells_inside initialized rows cols
      exact ⟨cells, visited⟩

/-- The loop visits every cell. -/
theorem mem_cells {this : DenseMatrix layout Identifier Cell}
    (initialized : this.matrix.Initialized) {cells : List (Triplet Cell)}
    (visited : this.cells = some cells) (i j : Nat) (value : Cell) :
    (i, j, value) ∈ cells ↔ this.matrix.coeff i j = some value := by
  rcases (cells_isSome_iff initialized).mp ⟨cells, visited⟩ with ⟨rows, cols⟩ | ⟨rows, cols⟩
  · rw [DenseMatrix.cells, traverse, if_pos (by rw [rows, cols])] at visited
    cases visited
    refine iff_of_false List.not_mem_nil ?_
    intro found
    have inside := EigenMatrix.inside_of_coeff found
    omega
  · obtain ⟨others, same, members⟩ := cells_inside initialized rows cols
    obtain rfl := Option.some.inj (visited.symm.trans same)
    exact members i j value

/-! ### What setting a cell does -/

/-- A number that is fixed does not grow. -/
theorem grow_iff {fixed : Option Nat} {size : Nat} (admitted : fixed.getD size = size)
    (index : Nat) :
    fixed.getD (if size ≤ index then index + 1 else size) =
        (if size ≤ index then index + 1 else size) ↔
      fixed = none ∨ index < size := by
  cases fixed with
  | none => simp
  | some number =>
      obtain rfl : number = size := admitted
      rw [Option.getD_some, or_iff_right (by simp)]
      split <;> omega

/-- The matrix that `set` writes to. -/
theorem resized_spec {this : DenseMatrix layout Identifier Cell} {x y : Nat}
    {resized : EigenMatrix layout Cell}
    (grown : (if this.matrix.rows ≤ x ∨ this.matrix.cols ≤ y then
        this.matrix.conservativeResize (if this.matrix.rows ≤ x then x + 1 else this.matrix.rows)
          (if this.matrix.cols ≤ y then y + 1 else this.matrix.cols)
      else some this.matrix) = some resized) :
    resized.rows = (if this.matrix.rows ≤ x then x + 1 else this.matrix.rows) ∧
      resized.cols = (if this.matrix.cols ≤ y then y + 1 else this.matrix.cols) ∧
      resized.coeff = this.matrix.coeff := by
  by_cases larger : this.matrix.rows ≤ x ∨ this.matrix.cols ≤ y
  · rw [if_pos larger] at grown
    obtain ⟨rows, cols, coeff⟩ := EigenMatrix.conservativeResize_spec grown
    refine ⟨rows, cols, ?_⟩
    funext i j
    rw [coeff, ← rows, ← cols]
    by_cases inside : i < resized.rows ∧ j < resized.cols
    · rw [if_pos inside]
    · rw [if_neg inside]
      symm
      apply this.matrix.outside
      split at rows <;> split at cols <;> omega
  · rw [if_neg larger] at grown
    cases grown
    rw [if_neg (by omega), if_neg (by omega)]
    exact ⟨rfl, rfl, rfl⟩

theorem set_isSome_iff {this : DenseMatrix layout Identifier Cell} {x y : Nat}
    {value : Cell} :
    (∃ after, this.set x y value = some after) ↔
      (layout.Rows = none ∨ x < this.matrix.rows) ∧
        (layout.Cols = none ∨ y < this.matrix.cols) := by
  obtain ⟨rows, cols⟩ := this.matrix.admitted
  rw [← grow_iff rows x, ← grow_iff cols y]
  constructor
  · rintro ⟨after, done⟩
    simp only [set, Option.bind_eq_some_iff, Option.map_eq_some_iff] at done
    obtain ⟨resized, grown, _⟩ := done
    obtain ⟨sameRows, sameCols, _⟩ := resized_spec grown
    rw [← sameRows, ← sameCols]
    exact resized.admitted
  · intro admitted
    have grown : ∃ resized, (if this.matrix.rows ≤ x ∨ this.matrix.cols ≤ y then
        this.matrix.conservativeResize (if this.matrix.rows ≤ x then x + 1 else this.matrix.rows)
          (if this.matrix.cols ≤ y then y + 1 else this.matrix.cols)
        else some this.matrix) = some resized := by
      split
      · exact (EigenMatrix.conservativeResize_isSome_iff _ _).mpr admitted
      · exact ⟨_, rfl⟩
    obtain ⟨resized, grown⟩ := grown
    obtain ⟨sameRows, sameCols, _⟩ := resized_spec grown
    have inside : x < resized.rows ∧ y < resized.cols := by
      rw [sameRows, sameCols]
      constructor
      · split <;> omega
      · split <;> omega
    obtain ⟨matrix, assigned⟩ := (EigenMatrix.assign_isSome_iff x y value).mpr inside
    refine ⟨{ this with matrix := matrix }, ?_⟩
    simp only [set, grown, Option.bind_some, assigned, Option.map_some]

/-- The matrix grows just enough, and no other cell changes. -/
theorem set_spec {this after : DenseMatrix layout Identifier Cell} {x y : Nat}
    {value : Cell} (done : this.set x y value = some after) :
    after.matrix.rows = (if this.matrix.rows ≤ x then x + 1 else this.matrix.rows) ∧
      after.matrix.cols = (if this.matrix.cols ≤ y then y + 1 else this.matrix.cols) ∧
      (∀ i j, after.matrix.coeff i j =
        if i = x ∧ j = y then some value else this.matrix.coeff i j) ∧
      after.incidentIndexes = this.incidentIndexes := by
  simp only [set, Option.bind_eq_some_iff, Option.map_eq_some_iff] at done
  obtain ⟨resized, grown, matrix, assigned, rfl⟩ := done
  obtain ⟨rows, cols, kept⟩ := resized_spec grown
  obtain ⟨sameRows, sameCols, coeff⟩ := EigenMatrix.assign_spec assigned
  exact ⟨sameRows.trans rows, sameCols.trans cols, kept ▸ coeff, rfl⟩

/-! ### Written cells -/

/-- What is known of a matrix that was empty at first after some cells were set: it is
just large enough for them, and these are the cells with values. -/
structure Written (triplets : List (Triplet Cell)) (matrix : EigenMatrix layout Cell) :
    Prop where
  inside : ∀ triplet ∈ triplets, triplet.1 < matrix.rows ∧ triplet.2.1 < matrix.cols
  tightRows : matrix.rows = layout.Rows.getD 0 ∨
    ∃ triplet ∈ triplets, matrix.rows = triplet.1 + 1
  tightCols : matrix.cols = layout.Cols.getD 0 ∨
    ∃ triplet ∈ triplets, matrix.cols = triplet.2.1 + 1
  sound : ∀ i j value, matrix.coeff i j = some value → (i, j, value) ∈ triplets
  present : ∀ triplet ∈ triplets, ∃ value, matrix.coeff triplet.1 triplet.2.1 = some value

theorem written_empty :
    Written [] (EigenMatrix.empty : EigenMatrix layout Cell) where
  inside _ member := absurd member List.not_mem_nil
  tightRows := .inl rfl
  tightCols := .inl rfl
  sound _ _ _ holds := by cases holds
  present _ member := absurd member List.not_mem_nil

theorem Written.set {triplets : List (Triplet Cell)}
    {this after : DenseMatrix layout Identifier Cell} (written : Written triplets this.matrix)
    {x y : Nat} {value : Cell} (done : this.set x y value = some after) :
    Written (triplets ++ [(x, y, value)]) after.matrix := by
  obtain ⟨rows, cols, coeff, _⟩ := set_spec done
  have newest : (x, y, value) ∈ triplets ++ [(x, y, value)] :=
    List.mem_append_right _ List.mem_cons_self
  refine ⟨?_, ?_, ?_, ?_, ?_⟩
  · intro triplet member
    rw [rows, cols]
    rcases List.mem_append.mp member with early | late
    · have before := written.inside triplet early
      constructor
      · split <;> omega
      · split <;> omega
    · obtain rfl := List.mem_singleton.mp late
      constructor
      · dsimp only
        split <;> omega
      · dsimp only
        split <;> omega
  · rw [rows]
    split
    · exact .inr ⟨_, newest, rfl⟩
    · refine written.tightRows.imp_right ?_
      rintro ⟨triplet, early, same⟩
      exact ⟨triplet, List.mem_append_left _ early, same⟩
  · rw [cols]
    split
    · exact .inr ⟨_, newest, rfl⟩
    · refine written.tightCols.imp_right ?_
      rintro ⟨triplet, early, same⟩
      exact ⟨triplet, List.mem_append_left _ early, same⟩
  · intro i j other holds
    rw [coeff] at holds
    split at holds
    · rename_i here
      obtain ⟨rfl, rfl⟩ := here
      obtain rfl := Option.some.inj holds
      exact newest
    · exact List.mem_append_left _ (written.sound i j other holds)
  · intro triplet member
    rw [coeff]
    split
    · exact ⟨value, rfl⟩
    · rename_i elsewhere
      rcases List.mem_append.mp member with early | late
      · exact written.present triplet early
      · obtain rfl := List.mem_singleton.mp late
        exact absurd ⟨rfl, rfl⟩ elsewhere

/-- The matrix does not become larger than the one that the cells are from. -/
theorem Written.le {triplets : List (Triplet Cell)} {matrix : EigenMatrix layout Cell}
    (written : Written triplets matrix) {whole : EigenMatrix layout Cell}
    (within : ∀ triplet ∈ triplets, triplet.1 < whole.rows ∧ triplet.2.1 < whole.cols) :
    matrix.rows ≤ whole.rows ∧ matrix.cols ≤ whole.cols := by
  have default : ∀ {fixed : Option Nat} {size : Nat}, fixed.getD size = size →
      fixed.getD 0 ≤ size := by
    intro fixed size admitted
    cases fixed with
    | none => exact Nat.zero_le _
    | some number => exact Nat.le_of_eq admitted
  constructor
  · rcases written.tightRows with same | ⟨triplet, member, same⟩
    · exact same ▸ default whole.admitted.1
    · exact same ▸ (within triplet member).1
  · rcases written.tightCols with same | ⟨triplet, member, same⟩
    · exact same ▸ default whole.admitted.2
    · exact same ▸ (within triplet member).2

/-- A matrix is known by the cells written to it. -/
theorem Written.eq {triplets : List (Triplet Cell)} {matrix : EigenMatrix layout Cell}
    (written : Written triplets matrix) {whole : EigenMatrix layout Cell}
    (members : ∀ i j value, (i, j, value) ∈ triplets ↔ whole.coeff i j = some value)
    (initialized : whole.Initialized)
    (even : (whole.rows = 0 ∧ whole.cols = 0) ∨ (0 < whole.rows ∧ 0 < whole.cols)) :
    matrix = whole := by
  have within : ∀ triplet ∈ triplets, triplet.1 < whole.rows ∧ triplet.2.1 < whole.cols := by
    rintro ⟨i, j, value⟩ member
    exact EigenMatrix.inside_of_coeff ((members i j value).mp member)
  obtain ⟨rowsLe, colsLe⟩ := written.le within
  have sizes : matrix.rows = whole.rows ∧ matrix.cols = whole.cols := by
    rcases even with ⟨rows, cols⟩ | ⟨rows, cols⟩
    · omega
    · obtain ⟨value, holds⟩ := initialized (whole.rows - 1) (whole.cols - 1)
        (by omega) (by omega)
      have last := written.inside _ ((members _ _ value).mpr holds)
      dsimp only at last
      omega
  apply EigenMatrix.ext_coeff sizes.1 sizes.2
  funext i j
  apply Option.ext
  intro value
  constructor
  · intro holds
    exact (members i j value).mp (written.sound i j value holds)
  · intro holds
    have member := (members i j value).mpr holds
    obtain ⟨other, found⟩ := written.present _ member
    have same := (members i j other).mp (written.sound i j other found)
    rw [holds] at same
    rw [same]
    exact found

end DenseMatrix

end PipeFabric
