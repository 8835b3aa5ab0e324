import PipeFabric.Matrix.DenseInsertion
import PipeFabric.Matrix.SparseMatrix

/-!
# Removal of cells, rows and columns

A row or column is removed through a copy of the matrix: the matrix becomes smaller and
loses its cells, and the two blocks around the one removed come back.
-/

namespace PipeFabric

variable {layout : Layout} {Identifier Cell : Type}

/-- The row or column that comes to this place when one is removed. -/
def skip (removed index : Nat) : Nat := if index < removed then index else index + 1

/-! ### Dense matrices -/

namespace EigenMatrix

/-- `resize`, called with numbers that are not those of the matrix.  The cells have no
values afterwards. -/
def resize (rows cols : Nat) : Option (EigenMatrix layout Cell) :=
  if admitted : layout.Admits rows cols then
    some
      { rows := rows
        cols := cols
        coeff := fun _ _ => none
        admitted := admitted
        outside := fun _ _ _ => rfl }
  else none

/-- `BaseMatrix::removeRow`. -/
def removeRow (matrix : EigenMatrix layout Cell) (row : Nat) :
    Option (EigenMatrix layout Cell) := do
  let temp := matrix
  let resized : EigenMatrix layout Cell ← resize (matrix.rows - 1) matrix.cols
  let bottomRows := temp.rows - row - 1
  let top ← resized.assignBlock 0 0 row resized.cols fun _ i j => temp.coeff i j
  top.assignBlock (top.rows - bottomRows) 0 bottomRows top.cols
    fun _ i j => temp.coeff (temp.rows - bottomRows + i) j

/-- `BaseMatrix::removeCol`. -/
def removeCol (matrix : EigenMatrix layout Cell) (col : Nat) :
    Option (EigenMatrix layout Cell) := do
  let temp := matrix
  let resized : EigenMatrix layout Cell ← resize matrix.rows (matrix.cols - 1)
  let rightColSize := temp.cols - col - 1
  let left ← resized.assignBlock 0 0 resized.rows col fun _ i j => temp.coeff i j
  left.assignBlock 0 (left.cols - rightColSize) left.rows rightColSize
    fun _ i j => temp.coeff i (temp.cols - rightColSize + j)

theorem resize_eq_some (Cell : Type) {rows cols : Nat} (admitted : layout.Admits rows cols) :
    ∃ resized : EigenMatrix layout Cell, resize rows cols = some resized ∧
      resized.rows = rows ∧ resized.cols = cols := by
  rw [resize, dif_pos admitted]
  exact ⟨_, rfl, rfl, rfl⟩

theorem removeRow_eq_some {matrix : EigenMatrix layout Cell} {row : Nat}
    (inside : row < matrix.rows) (admitted : layout.Admits (matrix.rows - 1) matrix.cols) :
    ∃ after, matrix.removeRow row = some after ∧ after.rows = matrix.rows - 1 ∧
      after.cols = matrix.cols ∧ ∀ i j, after.coeff i j = matrix.coeff (skip row i) j := by
  obtain ⟨resized, done, rows, cols⟩ := resize_eq_some Cell admitted
  obtain ⟨top, topDone, topRows, topCols, topCells⟩ :=
    assignBlock_eq_some resized 0 0 row resized.cols (by omega)
      fun _ i j => matrix.coeff i j
  have bottom : top.rows - (matrix.rows - row - 1) = row := by omega
  have rest : matrix.rows - (matrix.rows - row - 1) = row + 1 := by omega
  obtain ⟨after, afterDone, afterRows, afterCols, cells⟩ :=
    assignBlock_eq_some top row 0 (matrix.rows - row - 1) top.cols (by omega)
      fun _ i j => matrix.coeff (row + 1 + i) j
  refine ⟨after, ?_, by omega, by omega, ?_⟩
  · simp only [removeRow, done, Option.bind_eq_bind, Option.bind_some, topDone, bottom, rest,
      afterDone]
  intro i j
  by_cases beyond : matrix.rows - 1 ≤ i ∨ matrix.cols ≤ j
  · rw [after.outside i j (by omega), matrix.outside]
    rw [skip]
    split <;> omega
  rw [cells]
  by_cases above : i < row
  · have member : (i, j) ∈ storageOrder layout row resized.cols :=
      mem_storageOrder.mpr ⟨above, by dsimp only; omega⟩
    have copied := assigned_const 0 0 (fun i j => matrix.coeff i j) member resized.coeff
    simp only [Nat.zero_add] at copied
    rw [assigned_of_notMem, topCells, copied, skip, if_pos above]
    intro place _ same
    omega
  · obtain ⟨offset, rfl⟩ := Nat.exists_eq_add_of_le (Nat.le_of_not_lt above)
    have member : (offset, j) ∈ storageOrder layout (matrix.rows - row - 1) top.cols :=
      mem_storageOrder.mpr ⟨by dsimp only; omega, by dsimp only; omega⟩
    have copied := assigned_const row 0 (fun i j => matrix.coeff (row + 1 + i) j) member
      top.coeff
    simp only [Nat.zero_add] at copied
    rw [copied, skip, if_neg above, Nat.add_right_comm]

theorem removeCol_eq_some {matrix : EigenMatrix layout Cell} {col : Nat}
    (inside : col < matrix.cols) (admitted : layout.Admits matrix.rows (matrix.cols - 1)) :
    ∃ after, matrix.removeCol col = some after ∧ after.rows = matrix.rows ∧
      after.cols = matrix.cols - 1 ∧
        ∀ i j, after.coeff i j = matrix.coeff i (skip col j) := by
  obtain ⟨resized, done, rows, cols⟩ := resize_eq_some Cell admitted
  obtain ⟨left, leftDone, leftRows, leftCols, leftCells⟩ :=
    assignBlock_eq_some resized 0 0 resized.rows col (by omega)
      fun _ i j => matrix.coeff i j
  have right : left.cols - (matrix.cols - col - 1) = col := by omega
  have rest : matrix.cols - (matrix.cols - col - 1) = col + 1 := by omega
  obtain ⟨after, afterDone, afterRows, afterCols, cells⟩ :=
    assignBlock_eq_some left 0 col left.rows (matrix.cols - col - 1) (by omega)
      fun _ i j => matrix.coeff i (col + 1 + j)
  refine ⟨after, ?_, by omega, by omega, ?_⟩
  · simp only [removeCol, done, Option.bind_eq_bind, Option.bind_some, leftDone, right, rest,
      afterDone]
  intro i j
  by_cases beyond : matrix.rows ≤ i ∨ matrix.cols - 1 ≤ j
  · rw [after.outside i j (by omega), matrix.outside]
    rw [skip]
    split <;> omega
  rw [cells]
  by_cases before : j < col
  · have member : (i, j) ∈ storageOrder layout resized.rows col :=
      mem_storageOrder.mpr ⟨by dsimp only; omega, before⟩
    have copied := assigned_const 0 0 (fun i j => matrix.coeff i j) member resized.coeff
    simp only [Nat.zero_add] at copied
    rw [assigned_of_notMem, leftCells, copied, skip, if_pos before]
    intro place _ same
    omega
  · obtain ⟨offset, rfl⟩ := Nat.exists_eq_add_of_le (Nat.le_of_not_lt before)
    have member : (i, offset) ∈ storageOrder layout left.rows (matrix.cols - col - 1) :=
      mem_storageOrder.mpr ⟨by dsimp only; omega, by dsimp only; omega⟩
    have copied := assigned_const 0 col (fun i j => matrix.coeff i (col + 1 + j)) member
      left.coeff
    simp only [Nat.zero_add] at copied
    rw [copied, skip, if_neg before, Nat.add_right_comm]

end EigenMatrix

namespace DenseMatrix

/-- `remove`.  The assertions fail for a cell that is not there. -/
def remove [Zero Cell] (this : DenseMatrix layout Identifier Cell) (x y : Nat) :
    Option (DenseMatrix layout Identifier Cell) :=
  (this.matrix.assign x y 0).map fun matrix => { this with matrix := matrix }

/-- `removeRow`. -/
def removeRow (this : DenseMatrix layout Identifier Cell) (row : Nat) :
    Option (DenseMatrix layout Identifier Cell) :=
  if this.matrix.rows ≤ row then some this
  else (this.matrix.removeRow row).map fun matrix => { this with matrix := matrix }

/-- `removeCol`. -/
def removeCol (this : DenseMatrix layout Identifier Cell) (col : Nat) :
    Option (DenseMatrix layout Identifier Cell) :=
  if this.matrix.cols ≤ col then some this
  else (this.matrix.removeCol col).map fun matrix => { this with matrix := matrix }

end DenseMatrix

/-! ### Sparse matrices -/

/-- The place that a row or column of a copy comes to when one is removed: those before it
are the first block, and those behind it are the last one. -/
def movedLine (size removed index : Nat) : Option Nat :=
  let last := size - removed - 1
  if index < removed then some index
  else if size - last ≤ index then some (size - 1 - last + (index - (size - last)))
  else none

theorem movedLine_eq_some_iff {size removed : Nat} (inside : removed < size)
    (index new : Nat) : movedLine size removed index = some new ↔ index = skip removed new := by
  simp only [movedLine, skip]
  split
  · rw [Option.some.injEq]
    split <;> omega
  · split
    · rw [Option.some.injEq]
      split <;> omega
    · refine iff_of_false (by simp) ?_
      split <;> omega

/-- An entry after the row is removed. -/
def removedRow (size row : Nat) (entry : Triplet Cell) : Option (Triplet Cell) :=
  (movedLine size row entry.1).map fun i => (i, entry.2)

/-- An entry after the column is removed. -/
def removedCol (size col : Nat) (entry : Triplet Cell) : Option (Triplet Cell) :=
  (movedLine size col entry.2.1).map fun j => (entry.1, j, entry.2.2)

theorem removedRow_eq_some_iff {size row : Nat} (inside : row < size)
    (entry new : Triplet Cell) :
    removedRow size row entry = some new ↔ entry.1 = skip row new.1 ∧ entry.2 = new.2 := by
  rw [removedRow, Option.map_eq_some_iff]
  constructor
  · rintro ⟨i, moved, rfl⟩
    exact ⟨(movedLine_eq_some_iff inside _ _).mp moved, rfl⟩
  · rintro ⟨line, rest⟩
    exact ⟨new.1, (movedLine_eq_some_iff inside _ _).mpr line, Prod.ext rfl rest⟩

theorem removedCol_eq_some_iff {size col : Nat} (inside : col < size)
    (entry new : Triplet Cell) :
    removedCol size col entry = some new ↔
      entry.1 = new.1 ∧ entry.2.1 = skip col new.2.1 ∧ entry.2.2 = new.2.2 := by
  rw [removedCol, Option.map_eq_some_iff]
  constructor
  · rintro ⟨j, moved, rfl⟩
    exact ⟨rfl, (movedLine_eq_some_iff inside _ _).mp moved, rfl⟩
  · rintro ⟨row, line, value⟩
    exact ⟨new.2.1, (movedLine_eq_some_iff inside _ _).mpr line,
      Prod.ext row (Prod.ext rfl value)⟩

namespace SparseEigenMatrix

theorem removedRow_ordered (matrix : SparseEigenMatrix Cell) {row : Nat}
    (inside : row < matrix.rows) :
    (matrix.entries.filterMap (removedRow matrix.rows row)).Pairwise Precedes := by
  apply matrix.ordered.filterMap
  intro entry other before new moved next otherMoved
  obtain ⟨line, rest⟩ := (removedRow_eq_some_iff inside _ _).mp moved
  obtain ⟨otherLine, otherRest⟩ := (removedRow_eq_some_iff inside _ _).mp otherMoved
  rw [Precedes, rest, otherRest, line, otherLine] at before
  rw [Precedes]
  apply before.imp_right
  intro both
  refine ⟨both.1, ?_⟩
  have less := both.2
  unfold skip at less
  split at less <;> split at less <;> omega

theorem removedRow_inside (matrix : SparseEigenMatrix Cell) {row : Nat}
    (inside : row < matrix.rows) :
    ∀ entry ∈ matrix.entries.filterMap (removedRow matrix.rows row),
      entry.1 < matrix.rows - 1 ∧ entry.2.1 < matrix.cols := by
  intro new member
  obtain ⟨entry, old, moved⟩ := List.mem_filterMap.mp member
  obtain ⟨line, rest⟩ := (removedRow_eq_some_iff inside _ _).mp moved
  have before := matrix.inside entry old
  rw [line, rest] at before
  refine ⟨?_, before.2⟩
  have less := before.1
  unfold skip at less
  split at less <;> omega

theorem removedCol_ordered (matrix : SparseEigenMatrix Cell) {col : Nat}
    (inside : col < matrix.cols) :
    (matrix.entries.filterMap (removedCol matrix.cols col)).Pairwise Precedes := by
  apply matrix.ordered.filterMap
  intro entry other before new moved next otherMoved
  obtain ⟨row, line, _⟩ := (removedCol_eq_some_iff inside _ _).mp moved
  obtain ⟨otherRow, otherLine, _⟩ := (removedCol_eq_some_iff inside _ _).mp otherMoved
  rw [Precedes, row, line, otherRow, otherLine] at before
  rw [Precedes]
  unfold skip at before
  split at before <;> split at before <;> omega

theorem removedCol_inside (matrix : SparseEigenMatrix Cell) {col : Nat}
    (inside : col < matrix.cols) :
    ∀ entry ∈ matrix.entries.filterMap (removedCol matrix.cols col),
      entry.1 < matrix.rows ∧ entry.2.1 < matrix.cols - 1 := by
  intro new member
  obtain ⟨entry, old, moved⟩ := List.mem_filterMap.mp member
  obtain ⟨row, line, _⟩ := (removedCol_eq_some_iff inside _ _).mp moved
  have before := matrix.inside entry old
  rw [row, line] at before
  refine ⟨before.1, ?_⟩
  have less := before.2
  unfold skip at less
  split at less <;> omega

/-- `BaseMatrix::removeRow`, for a copy that is stored row by row. -/
def removeRow (matrix : SparseEigenMatrix Cell) (row : Nat) (inside : row < matrix.rows) :
    SparseEigenMatrix Cell where
  rows := matrix.rows - 1
  cols := matrix.cols
  entries := matrix.entries.filterMap (removedRow matrix.rows row)
  ordered := matrix.removedRow_ordered inside
  inside := matrix.removedRow_inside inside

/-- `BaseMatrix::removeCol`. -/
def removeCol (matrix : SparseEigenMatrix Cell) (col : Nat) (inside : col < matrix.cols) :
    SparseEigenMatrix Cell where
  rows := matrix.rows
  cols := matrix.cols - 1
  entries := matrix.entries.filterMap (removedCol matrix.cols col)
  ordered := matrix.removedCol_ordered inside
  inside := matrix.removedCol_inside inside

/-- `pruned`: the entries that are not much smaller than the reference 0. -/
def pruned [Zero Cell] [DecidableEq Cell] (matrix : SparseEigenMatrix Cell) :
    SparseEigenMatrix Cell where
  rows := matrix.rows
  cols := matrix.cols
  entries := matrix.entries.filter fun entry => entry.2.2 ≠ 0
  ordered := matrix.ordered.sublist List.filter_sublist
  inside entry member := matrix.inside entry (List.mem_of_mem_filter member)

/-- The entry at a position. -/
def lookup (entries : List (Triplet Cell)) (i j : Nat) : Option Cell :=
  (entries.find? fun entry => entry.1 = i ∧ entry.2.1 = j).map fun entry => entry.2.2

/-- `coeff`. -/
def coeff [Zero Cell] (matrix : SparseEigenMatrix Cell) (i j : Nat) : Cell :=
  (lookup matrix.entries i j).getD 0

theorem lookup_cons (entry : Triplet Cell) (entries : List (Triplet Cell)) (i j : Nat) :
    lookup (entry :: entries) i j =
      if entry.1 = i ∧ entry.2.1 = j then some entry.2.2 else lookup entries i j := by
  rw [lookup, List.find?_cons]
  by_cases here : entry.1 = i ∧ entry.2.1 = j
  · simp [here]
  · rw [if_neg here]
    simp [here, lookup]

theorem lookup_eq_none {entries : List (Triplet Cell)} {i j : Nat}
    (nowhere : ∀ entry ∈ entries, ¬ (entry.1 = i ∧ entry.2.1 = j)) :
    lookup entries i j = none := by
  rw [lookup, Option.map_eq_none_iff, List.find?_eq_none]
  intro entry member
  simpa using nowhere entry member

theorem lookup_assignEntry (x y : Nat) (value : Cell) (entries : List (Triplet Cell))
    (i j : Nat) :
    lookup (assignEntry (x, y, value) entries) i j =
      if i = x ∧ j = y then some value else lookup entries i j := by
  induction entries with
  | nil =>
      rw [assignEntry, lookup_cons]
      apply if_congr _ rfl rfl
      exact and_congr eq_comm eq_comm
  | cons first entries induction =>
      rw [assignEntry]
      split
      · rw [lookup_cons]
        apply if_congr _ rfl rfl
        exact and_congr eq_comm eq_comm
      · rename_i notBefore
        split
        · rename_i before
          rw [lookup_cons, induction, lookup_cons]
          by_cases here : i = x ∧ j = y
          · have apart : ¬ (first.1 = i ∧ first.2.1 = j) := by
              intro same
              unfold Precedes at before
              dsimp only at before
              omega
            rw [if_neg apart, if_pos here, if_pos here]
          · rw [if_neg here, if_neg here]
        · rename_i notAfter
          have same : first.1 = x ∧ first.2.1 = y := by
            unfold Precedes at notBefore notAfter
            dsimp only at notBefore notAfter
            omega
          rw [lookup_cons, lookup_cons]
          by_cases here : i = x ∧ j = y
          · rw [if_pos ⟨here.1.symm, here.2.symm⟩, if_pos here]
          · rw [if_neg (fun both => here ⟨both.1.symm, both.2.symm⟩), if_neg here, if_neg]
            omega

/-- Entries that stay or go, and at most change their places. -/
theorem lookup_filterMap {place : Triplet Cell → Option (Triplet Cell)} {i j oldI oldJ : Nat}
    (placed : ∀ entry new, place entry = some new →
      new.2.2 = entry.2.2 ∧
        (new.1 = i ∧ new.2.1 = j ↔ entry.1 = oldI ∧ entry.2.1 = oldJ))
    (gone : ∀ entry, place entry = none → ¬ (entry.1 = oldI ∧ entry.2.1 = oldJ))
    (entries : List (Triplet Cell)) :
    lookup (entries.filterMap place) i j = lookup entries oldI oldJ := by
  induction entries with
  | nil => rfl
  | cons entry entries induction =>
      rw [lookup_cons]
      cases moved : place entry with
      | none =>
          rw [List.filterMap_cons_none moved, induction, if_neg (gone entry moved)]
      | some new =>
          obtain ⟨value, same⟩ := placed entry new moved
          rw [List.filterMap_cons_some moved, lookup_cons, induction, value]
          exact if_congr same rfl rfl

theorem coeff_removeRow [Zero Cell] (matrix : SparseEigenMatrix Cell) {row : Nat}
    (inside : row < matrix.rows) (i j : Nat) :
    (matrix.removeRow row inside).coeff i j = matrix.coeff (skip row i) j := by
  apply congrArg fun found => Option.getD found 0
  apply lookup_filterMap
  · intro entry new moved
    obtain ⟨line, rest⟩ := (removedRow_eq_some_iff inside _ _).mp moved
    rw [line, rest]
    refine ⟨rfl, and_congr_left fun _ => ?_⟩
    unfold skip
    split <;> split <;> omega
  · intro entry gone same
    have kept := (removedRow_eq_some_iff inside entry (i, entry.2)).mpr ⟨same.1, rfl⟩
    rw [gone] at kept
    cases kept

theorem coeff_removeCol [Zero Cell] (matrix : SparseEigenMatrix Cell) {col : Nat}
    (inside : col < matrix.cols) (i j : Nat) :
    (matrix.removeCol col inside).coeff i j = matrix.coeff i (skip col j) := by
  apply congrArg fun found => Option.getD found 0
  apply lookup_filterMap
  · intro entry new moved
    obtain ⟨row, line, value⟩ := (removedCol_eq_some_iff inside _ _).mp moved
    rw [row, line, value]
    refine ⟨rfl, and_congr_right fun _ => ?_⟩
    unfold skip
    split <;> split <;> omega
  · intro entry gone same
    have kept := (removedCol_eq_some_iff inside entry (entry.1, j, entry.2.2)).mpr
      ⟨rfl, same.2, rfl⟩
    rw [gone] at kept
    cases kept

/-- Only the value 0 is lost, which a missing entry stands for. -/
theorem getD_lookup_filter [Zero Cell] [DecidableEq Cell] {entries : List (Triplet Cell)}
    (ordered : entries.Pairwise Precedes) (i j : Nat) :
    (lookup (entries.filter fun entry => entry.2.2 ≠ 0) i j).getD 0 =
      (lookup entries i j).getD 0 := by
  induction entries with
  | nil => rfl
  | cons entry entries induction =>
      obtain ⟨least, rest⟩ := List.pairwise_cons.mp ordered
      rw [lookup_cons]
      by_cases zero : entry.2.2 = 0
      · rw [List.filter_cons_of_neg (by simpa using zero), induction rest]
        by_cases here : entry.1 = i ∧ entry.2.1 = j
        · rw [if_pos here, zero, lookup_eq_none]
          · rfl
          · intro other member same
            have before := least other member
            unfold Precedes at before
            omega
        · rw [if_neg here]
      · rw [List.filter_cons_of_pos (by simpa using zero), lookup_cons]
        split
        · rfl
        · exact induction rest

theorem coeff_pruned [Zero Cell] [DecidableEq Cell] (matrix : SparseEigenMatrix Cell)
    (i j : Nat) : matrix.pruned.coeff i j = matrix.coeff i j :=
  getD_lookup_filter matrix.ordered i j

end SparseEigenMatrix

namespace SparseMatrix

/-- `remove`.  The cell has to be there. -/
def remove [Zero Cell] [DecidableEq Cell] (this : SparseMatrix Identifier Cell) (x y : Nat) :
    Option (SparseMatrix Identifier Cell) :=
  if x < this.matrix.rows ∧ y < this.matrix.cols then
    let assigned := this.set x y 0
    some (assigned.setMatrix assigned.matrix.pruned)
  else none

/-- `removeRow`. -/
def removeRow (this : SparseMatrix Identifier Cell) (row : Nat) :
    SparseMatrix Identifier Cell :=
  if inside : row < this.matrix.rows then this.setMatrix (this.matrix.removeRow row inside)
  else this

/-- `removeCol`. -/
def removeCol (this : SparseMatrix Identifier Cell) (col : Nat) :
    SparseMatrix Identifier Cell :=
  if inside : col < this.matrix.cols then this.setMatrix (this.matrix.removeCol col inside)
  else this

theorem coeff_set [Zero Cell] (this : SparseMatrix Identifier Cell) (x y : Nat) (value : Cell)
    (i j : Nat) :
    (this.set x y value).matrix.coeff i j =
      if i = x ∧ j = y then value else this.matrix.coeff i j := by
  rw [SparseEigenMatrix.coeff, set, SparseEigenMatrix.lookup_assignEntry]
  split
  · rfl
  · rfl

end SparseMatrix

end PipeFabric
