import PipeFabric.Library.ForwardCopy
import PipeFabric.Matrix.DenseMatrix

/-!
# Insertion of rows and columns

`insertRow` and `insertCol` make room by moving the rows or columns behind the position
inside the same matrix.  An assignment between blocks copies cell by cell in the order of
the storage, so that the cells moved repeat when there are more of them than are inserted.
-/

namespace PipeFabric

/-- The positions of a block in the order of the storage. -/
def storageOrder (layout : Layout) (rows cols : Nat) : List (Nat × Nat) :=
  if layout.isColMajor then ForwardCopy.entryByEntry rows cols
  else ForwardCopy.lineByLine rows cols

section

variable {layout : Layout}

theorem mem_storageOrder {rows cols : Nat} {place : Nat × Nat} :
    place ∈ storageOrder layout rows cols ↔ place.1 < rows ∧ place.2 < cols := by
  rw [storageOrder]
  split
  · exact ForwardCopy.mem_entryByEntry
  · exact ForwardCopy.mem_lineByLine

/-- In every row the columns come in ascending order. -/
theorem ascending_storageOrder (rows cols : Nat) :
    ForwardCopy.Ascending (storageOrder layout rows cols) := by
  rw [storageOrder]
  split
  · exact ForwardCopy.ascending_entryByEntry rows cols
  · exact ForwardCopy.ascending_lineByLine rows cols

/-- In every column the rows come in ascending order. -/
theorem ascending_storageOrder_swap (rows cols : Nat) :
    ForwardCopy.Ascending ((storageOrder layout rows cols).map Prod.swap) := by
  rw [storageOrder]
  split
  · have swapped : (ForwardCopy.entryByEntry rows cols).map Prod.swap =
        ForwardCopy.lineByLine cols rows := by
      simp [ForwardCopy.entryByEntry, ForwardCopy.lineByLine, List.map_flatMap,
        Function.comp_def]
    rw [swapped]
    exact ForwardCopy.ascending_lineByLine cols rows
  · have swapped : (ForwardCopy.lineByLine rows cols).map Prod.swap =
        ForwardCopy.entryByEntry cols rows := by
      simp [ForwardCopy.entryByEntry, ForwardCopy.lineByLine, List.map_flatMap,
        Function.comp_def]
    rw [swapped]
    exact ForwardCopy.ascending_entryByEntry cols rows

end

namespace EigenMatrix

variable {layout : Layout} {Cell : Type}

/-- The cells of a matrix by their positions. -/
abbrev Cells (Cell : Type) : Type := Nat → Nat → Option Cell

/-- A cell is copied to a position, also when it has no value. -/
def write (coeff : Cells Cell) (x y : Nat) (cell : Option Cell) : Cells Cell :=
  fun i j => if i = x ∧ j = y then cell else coeff i j

/-- The cells after an assignment to a block that begins at `x` and `y`.  Every cell is read
when its turn comes. -/
def assigned (x y : Nat) (source : Cells Cell → Cells Cell) (places : List (Nat × Nat))
    (coeff : Cells Cell) : Cells Cell :=
  places.foldl (fun coeff place =>
    write coeff (x + place.1) (y + place.2) (source coeff place.1 place.2)) coeff

theorem assigned_of_notMem {x y : Nat} {source : Cells Cell → Cells Cell}
    {places : List (Nat × Nat)} {i j : Nat}
    (elsewhere : ∀ place ∈ places, ¬ (i = x + place.1 ∧ j = y + place.2))
    (coeff : Cells Cell) : assigned x y source places coeff i j = coeff i j := by
  induction places generalizing coeff with
  | nil => rfl
  | cons place places induction =>
      obtain ⟨here, later⟩ := List.forall_mem_cons.mp elsewhere
      rw [assigned, List.foldl_cons]
      exact (induction later _).trans (if_neg here)

theorem block_outside {x y rows cols : Nat} (matrix : EigenMatrix layout Cell)
    (inside : x + rows ≤ matrix.rows ∧ y + cols ≤ matrix.cols)
    (source : Cells Cell → Cells Cell) :
    ∀ i j, matrix.rows ≤ i ∨ matrix.cols ≤ j →
      assigned x y source (storageOrder layout rows cols) matrix.coeff i j = none := by
  intro i j beyond
  rw [assigned_of_notMem, matrix.outside i j beyond]
  intro place member same
  have within := mem_storageOrder.mp member
  omega

/-- The assignment to a block, which has to be inside of the matrix. -/
def assignBlock (matrix : EigenMatrix layout Cell) (x y rows cols : Nat)
    (source : Cells Cell → Cells Cell) : Option (EigenMatrix layout Cell) :=
  if inside : x + rows ≤ matrix.rows ∧ y + cols ≤ matrix.cols then
    some
      { matrix with
        coeff := assigned x y source (storageOrder layout rows cols) matrix.coeff
        outside := block_outside matrix inside source }
  else none

/-! What assignments between blocks make of the cells. -/

/-- A copy of other cells. -/
theorem assigned_const (x y : Nat) (values : Cells Cell) {places : List (Nat × Nat)}
    {place : Nat × Nat} (member : place ∈ places) (coeff : Cells Cell) :
    assigned x y (fun _ => values) places coeff (x + place.1) (y + place.2) =
      values place.1 place.2 := by
  induction places using List.reverseRecOn with
  | nil => cases member
  | append_singleton places last induction =>
      rw [assigned, List.foldl_append, List.foldl_cons, List.foldl_nil, write]
      by_cases here : x + place.1 = x + last.1 ∧ y + place.2 = y + last.2
      · rw [if_pos here, Nat.add_left_cancel here.1, Nat.add_left_cancel here.2]
      · rw [if_neg here]
        rcases List.mem_append.mp member with early | late
        · exact induction early
        · rw [List.mem_singleton.mp late] at here
          exact absurd ⟨rfl, rfl⟩ here

/-- Rows moved down, column by column. -/
theorem assigned_rows (position k : Nat) (places : List (Nat × Nat)) (coeff : Cells Cell)
    (index line : Nat) :
    assigned (position + k) 0 (fun coeff i j => coeff (position + i) j) places coeff
        (position + index) line =
      (places.map Prod.swap).foldl (ForwardCopy.copyEntry k)
        (fun line index => coeff (position + index) line) line index := by
  induction places generalizing coeff with
  | nil => rfl
  | cons place places induction =>
      have copied : (fun line index => write coeff (position + k + place.1) (0 + place.2)
          (coeff (position + place.1) place.2) (position + index) line) =
            ForwardCopy.copyEntry k (fun line index => coeff (position + index) line)
              place.swap := by
        funext line index
        apply if_congr _ rfl rfl
        simp only [Prod.fst_swap, Prod.snd_swap]
        omega
      rw [assigned, List.foldl_cons, List.map_cons, List.foldl_cons, ← copied]
      exact induction _

/-- Columns moved to the right, row by row. -/
theorem assigned_cols (position k : Nat) (places : List (Nat × Nat)) (coeff : Cells Cell)
    (line index : Nat) :
    assigned 0 (position + k) (fun coeff i j => coeff i (position + j)) places coeff
        line (position + index) =
      places.foldl (ForwardCopy.copyEntry k)
        (fun line index => coeff line (position + index)) line index := by
  induction places generalizing coeff with
  | nil => rfl
  | cons place places induction =>
      have copied : (fun line index => write coeff (0 + place.1) (position + k + place.2)
          (coeff place.1 (position + place.2)) line (position + index)) =
            ForwardCopy.copyEntry k (fun line index => coeff line (position + index))
              place := by
        funext line index
        apply if_congr _ rfl rfl
        omega
      rw [assigned, List.foldl_cons, List.foldl_cons, ← copied]
      exact induction _

/-- A matrix that grows keeps its cells. -/
theorem conservativeResize_grown {matrix : EigenMatrix layout Cell} {rows cols : Nat}
    (admitted : layout.Admits rows cols) (moreRows : matrix.rows ≤ rows)
    (moreCols : matrix.cols ≤ cols) :
    ∃ resized, matrix.conservativeResize rows cols = some resized ∧ resized.rows = rows ∧
      resized.cols = cols ∧ resized.coeff = matrix.coeff := by
  obtain ⟨resized, done⟩ := (matrix.conservativeResize_isSome_iff rows cols).mpr admitted
  obtain ⟨sameRows, sameCols, kept⟩ := conservativeResize_spec done
  refine ⟨resized, done, sameRows, sameCols, ?_⟩
  funext i j
  rw [kept]
  split
  · rfl
  · exact (matrix.outside i j (by omega)).symm

theorem assignBlock_eq_some (matrix : EigenMatrix layout Cell) (x y rows cols : Nat)
    (inside : x + rows ≤ matrix.rows ∧ y + cols ≤ matrix.cols)
    (source : Cells Cell → Cells Cell) :
    ∃ after, matrix.assignBlock x y rows cols source = some after ∧
      after.rows = matrix.rows ∧ after.cols = matrix.cols ∧
        after.coeff = assigned x y source (storageOrder layout rows cols) matrix.coeff := by
  rw [assignBlock, dif_pos inside]
  exact ⟨_, rfl, rfl, rfl, rfl⟩

end EigenMatrix

namespace DenseMatrix

variable {layout otherLayout : Layout} {Identifier Other Cell : Type}

/-- `insertRow`.  The copy `temp` is not used. -/
def insertRow (this : DenseMatrix layout Identifier Cell) (row : Nat)
    (other : DenseMatrix otherLayout Other Cell) :
    Option (DenseMatrix layout Identifier Cell) :=
  if this.matrix.rows < row ∨ other.matrix.rows = 0 ∨ other.matrix.cols = 0 then some this
  else do
    let resizeRows := other.matrix.rows
    let shiftedRows := this.matrix.rows - row
    let resized ← this.matrix.conservativeResize (this.matrix.rows + resizeRows)
      other.matrix.cols
    let shifted ← resized.assignBlock (resized.rows - shiftedRows) 0 shiftedRows resized.cols
      fun coeff i j => coeff (row + i) j
    let inserted ← shifted.assignBlock row 0 resizeRows other.matrix.cols
      fun _ i j => other.matrix.coeff i j
    return { this with matrix := inserted }

/-- `insertCol`. -/
def insertCol (this : DenseMatrix layout Identifier Cell) (col : Nat)
    (other : DenseMatrix otherLayout Other Cell) :
    Option (DenseMatrix layout Identifier Cell) :=
  if this.matrix.cols < col ∨ other.matrix.rows = 0 ∨ other.matrix.cols = 0 then some this
  else do
    let resizeCols := other.matrix.cols
    let shiftedCols := this.matrix.cols - col
    let resized ← this.matrix.conservativeResize other.matrix.rows
      (this.matrix.cols + resizeCols)
    let shifted ← resized.assignBlock 0 (resized.cols - shiftedCols) resized.rows shiftedCols
      fun coeff i j => coeff i (col + j)
    let inserted ← shifted.assignBlock 0 col other.matrix.rows resizeCols
      fun _ i j => other.matrix.coeff i j
    return { this with matrix := inserted }

/-- A matrix with rows inserted: the rows before the position, the new ones, and the rest. -/
structure RowsInserted (before : EigenMatrix layout Cell) (row : Nat)
    (new : EigenMatrix otherLayout Cell) (after : EigenMatrix layout Cell) : Prop where
  rows : after.rows = before.rows + new.rows
  cols : after.cols = before.cols
  above : ∀ i j, i < row → after.coeff i j = before.coeff i j
  inserted : ∀ i j, i < new.rows → after.coeff (row + i) j = new.coeff i j
  below : ∀ i j, row + i < before.rows →
    after.coeff (row + new.rows + i) j = before.coeff (row + i) j

/-- A matrix with columns inserted. -/
structure ColsInserted (before : EigenMatrix layout Cell) (col : Nat)
    (new : EigenMatrix otherLayout Cell) (after : EigenMatrix layout Cell) : Prop where
  rows : after.rows = before.rows
  cols : after.cols = before.cols + new.cols
  left : ∀ i j, j < col → after.coeff i j = before.coeff i j
  inserted : ∀ i j, j < new.cols → after.coeff i (col + j) = new.coeff i j
  right : ∀ i j, col + j < before.cols →
    after.coeff i (col + new.cols + j) = before.coeff i (col + j)

variable {this : DenseMatrix layout Identifier Cell} {other : DenseMatrix otherLayout Other Cell}

/-- What `insertRow` does to a matrix with as many columns as the other one. -/
theorem insertRow_eq_some {row : Nat} (within : row ≤ this.matrix.rows)
    (sameCols : other.matrix.cols = this.matrix.cols) (rows : 0 < other.matrix.rows)
    (cols : 0 < this.matrix.cols)
    (admitted : layout.Admits (this.matrix.rows + other.matrix.rows) this.matrix.cols) :
    ∃ after, this.insertRow row other = some after ∧
      after.matrix.rows = this.matrix.rows + other.matrix.rows ∧
      after.matrix.cols = this.matrix.cols ∧
      (∀ i j, i < row → after.matrix.coeff i j = this.matrix.coeff i j) ∧
      (∀ i j, i < other.matrix.rows →
        after.matrix.coeff (row + i) j = other.matrix.coeff i j) ∧
      ∀ i j, row + i < this.matrix.rows →
        after.matrix.coeff (row + other.matrix.rows + i) j =
          this.matrix.coeff (row + i % other.matrix.rows) j := by
  rw [← sameCols] at admitted
  obtain ⟨resized, grown, sameRows, resizedCols, kept⟩ :=
    EigenMatrix.conservativeResize_grown admitted (Nat.le_add_right _ _)
      (Nat.le_of_eq sameCols.symm)
  have bottom : resized.rows - (this.matrix.rows - row) = row + other.matrix.rows := by omega
  obtain ⟨shifted, moved, shiftedRows, shiftedCols, movedCells⟩ :=
    EigenMatrix.assignBlock_eq_some resized (row + other.matrix.rows) 0
      (this.matrix.rows - row) resized.cols (by omega) fun coeff i j => coeff (row + i) j
  obtain ⟨inserted, copied, insertedRows, insertedCols, copiedCells⟩ :=
    EigenMatrix.assignBlock_eq_some shifted row 0 other.matrix.rows other.matrix.cols
      (by omega) fun _ i j => other.matrix.coeff i j
  have done : this.insertRow row other = some { this with matrix := inserted } := by
    rw [insertRow, if_neg (by omega)]
    simp only [grown, Option.bind_eq_bind, Option.bind_some, bottom, moved, copied]
    rfl
  refine ⟨_, done, ?_, ?_, ?_, ?_, ?_⟩
  · change inserted.rows = _
    omega
  · change inserted.cols = _
    omega
  · intro i j above
    change inserted.coeff i j = _
    rw [copiedCells, EigenMatrix.assigned_of_notMem, movedCells,
      EigenMatrix.assigned_of_notMem, kept]
    · intro place _ same
      omega
    · intro place _ same
      omega
  · intro i j new
    change inserted.coeff (row + i) j = _
    by_cases inCol : j < other.matrix.cols
    · have member : (i, j) ∈ storageOrder layout other.matrix.rows other.matrix.cols :=
        mem_storageOrder.mpr ⟨new, inCol⟩
      rw [copiedCells]
      simpa only [Nat.zero_add] using EigenMatrix.assigned_const row 0 _ member shifted.coeff
    · rw [inserted.outside _ _ (by omega), other.matrix.outside _ _ (by omega)]
  · intro i j rest
    change inserted.coeff (row + other.matrix.rows + i) j = _
    by_cases inCol : j < this.matrix.cols
    · have member : (j, i) ∈ (storageOrder layout (this.matrix.rows - row) resized.cols).map
          Prod.swap :=
        List.mem_map.mpr ⟨(i, j), mem_storageOrder.mpr ⟨by dsimp only; omega,
          by dsimp only; omega⟩, rfl⟩
      rw [copiedCells, EigenMatrix.assigned_of_notMem, movedCells, Nat.add_assoc row,
        EigenMatrix.assigned_rows,
        ForwardCopy.foldl_copyEntry rows (ascending_storageOrder_swap _ _), if_pos, kept,
        Nat.add_mod_left]
      · rw [Nat.add_sub_cancel_left]
        exact ⟨Nat.le_add_right _ _, member⟩
      · intro place inPlaces same
        have inside := mem_storageOrder.mp inPlaces
        omega
    · rw [inserted.outside _ _ (by omega), this.matrix.outside _ _ (by omega)]

/-- What `insertCol` does to a matrix with as many rows as the other one. -/
theorem insertCol_eq_some {col : Nat} (within : col ≤ this.matrix.cols)
    (sameRows : other.matrix.rows = this.matrix.rows) (cols : 0 < other.matrix.cols)
    (rows : 0 < this.matrix.rows)
    (admitted : layout.Admits this.matrix.rows (this.matrix.cols + other.matrix.cols)) :
    ∃ after, this.insertCol col other = some after ∧
      after.matrix.rows = this.matrix.rows ∧
      after.matrix.cols = this.matrix.cols + other.matrix.cols ∧
      (∀ i j, j < col → after.matrix.coeff i j = this.matrix.coeff i j) ∧
      (∀ i j, j < other.matrix.cols →
        after.matrix.coeff i (col + j) = other.matrix.coeff i j) ∧
      ∀ i j, col + j < this.matrix.cols →
        after.matrix.coeff i (col + other.matrix.cols + j) =
          this.matrix.coeff i (col + j % other.matrix.cols) := by
  rw [← sameRows] at admitted
  obtain ⟨resized, grown, resizedRows, sameCols, kept⟩ :=
    EigenMatrix.conservativeResize_grown admitted (Nat.le_of_eq sameRows.symm)
      (Nat.le_add_right _ _)
  have right : resized.cols - (this.matrix.cols - col) = col + other.matrix.cols := by omega
  obtain ⟨shifted, moved, shiftedRows, shiftedCols, movedCells⟩ :=
    EigenMatrix.assignBlock_eq_some resized 0 (col + other.matrix.cols) resized.rows
      (this.matrix.cols - col) (by omega) fun coeff i j => coeff i (col + j)
  obtain ⟨inserted, copied, insertedRows, insertedCols, copiedCells⟩ :=
    EigenMatrix.assignBlock_eq_some shifted 0 col other.matrix.rows other.matrix.cols
      (by omega) fun _ i j => other.matrix.coeff i j
  have done : this.insertCol col other = some { this with matrix := inserted } := by
    rw [insertCol, if_neg (by omega)]
    simp only [grown, Option.bind_eq_bind, Option.bind_some, right, moved, copied]
    rfl
  refine ⟨_, done, ?_, ?_, ?_, ?_, ?_⟩
  · change inserted.rows = _
    omega
  · change inserted.cols = _
    omega
  · intro i j before
    change inserted.coeff i j = _
    rw [copiedCells, EigenMatrix.assigned_of_notMem, movedCells,
      EigenMatrix.assigned_of_notMem, kept]
    · intro place _ same
      omega
    · intro place _ same
      omega
  · intro i j new
    change inserted.coeff i (col + j) = _
    by_cases inRow : i < other.matrix.rows
    · have member : (i, j) ∈ storageOrder layout other.matrix.rows other.matrix.cols :=
        mem_storageOrder.mpr ⟨inRow, new⟩
      rw [copiedCells]
      simpa only [Nat.zero_add] using EigenMatrix.assigned_const 0 col _ member shifted.coeff
    · rw [inserted.outside _ _ (by omega), other.matrix.outside _ _ (by omega)]
  · intro i j rest
    change inserted.coeff i (col + other.matrix.cols + j) = _
    by_cases inRow : i < this.matrix.rows
    · have member : (i, j) ∈ storageOrder layout resized.rows (this.matrix.cols - col) :=
        mem_storageOrder.mpr ⟨by dsimp only; omega, by dsimp only; omega⟩
      rw [copiedCells, EigenMatrix.assigned_of_notMem, movedCells, Nat.add_assoc col,
        EigenMatrix.assigned_cols,
        ForwardCopy.foldl_copyEntry cols (ascending_storageOrder _ _), if_pos, kept,
        Nat.add_mod_left]
      · rw [Nat.add_sub_cancel_left]
        exact ⟨Nat.le_add_right _ _, member⟩
      · intro place inPlaces same
        have inside := mem_storageOrder.mp inPlaces
        omega
    · rw [inserted.outside _ _ (by omega), this.matrix.outside _ _ (by omega)]

theorem insertRow_exact_iff {row : Nat} (within : row ≤ this.matrix.rows)
    (sameCols : other.matrix.cols = this.matrix.cols) :
    (∃ after, this.insertRow row other = some after ∧
        RowsInserted this.matrix row other.matrix after.matrix) ↔
      other.matrix.rows = 0 ∨
        (0 < this.matrix.cols ∧
          layout.Admits (this.matrix.rows + other.matrix.rows) this.matrix.cols ∧
          ∀ i j, row + i < this.matrix.rows →
            this.matrix.coeff (row + i) j =
              this.matrix.coeff (row + i % other.matrix.rows) j) := by
  rcases Nat.eq_zero_or_pos other.matrix.rows with nothing | rows
  · apply iff_of_true _ (.inl nothing)
    refine ⟨this, if_pos (.inr (.inl nothing)), ?_⟩
    refine ⟨by omega, rfl, fun _ _ _ => rfl, ?_, ?_⟩
    · intro i j new
      omega
    · intro i j _
      rw [nothing, Nat.add_zero]
  rw [or_iff_right (Nat.ne_of_gt rows)]
  constructor
  · rintro ⟨after, done, exact⟩
    have cols : 0 < this.matrix.cols := by
      apply Nat.pos_of_ne_zero
      intro none
      rw [insertRow, if_pos (.inr (.inr (sameCols.trans none)))] at done
      obtain rfl := Option.some.inj done
      have grown := exact.rows
      omega
    have admitted := after.matrix.admitted
    rw [exact.rows, exact.cols] at admitted
    obtain ⟨result, same, _, _, _, _, moved⟩ :=
      insertRow_eq_some within sameCols rows cols admitted
    obtain rfl := Option.some.inj (done.symm.trans same)
    refine ⟨cols, admitted, ?_⟩
    intro i j rest
    rw [← exact.below i j rest, moved i j rest]
  · rintro ⟨cols, admitted, repeated⟩
    obtain ⟨after, done, afterRows, afterCols, above, inserted, moved⟩ :=
      insertRow_eq_some within sameCols rows cols admitted
    refine ⟨after, done, afterRows, afterCols, above, inserted, ?_⟩
    intro i j rest
    rw [moved i j rest, repeated i j rest]

theorem insertCol_exact_iff {col : Nat} (within : col ≤ this.matrix.cols)
    (sameRows : other.matrix.rows = this.matrix.rows) :
    (∃ after, this.insertCol col other = some after ∧
        ColsInserted this.matrix col other.matrix after.matrix) ↔
      other.matrix.cols = 0 ∨
        (0 < this.matrix.rows ∧
          layout.Admits this.matrix.rows (this.matrix.cols + other.matrix.cols) ∧
          ∀ i j, col + j < this.matrix.cols →
            this.matrix.coeff i (col + j) =
              this.matrix.coeff i (col + j % other.matrix.cols)) := by
  rcases Nat.eq_zero_or_pos other.matrix.cols with nothing | cols
  · apply iff_of_true _ (.inl nothing)
    refine ⟨this, if_pos (.inr (.inr nothing)), ?_⟩
    refine ⟨rfl, by omega, fun _ _ _ => rfl, ?_, ?_⟩
    · intro i j new
      omega
    · intro i j _
      rw [nothing, Nat.add_zero]
  rw [or_iff_right (Nat.ne_of_gt cols)]
  constructor
  · rintro ⟨after, done, exact⟩
    have rows : 0 < this.matrix.rows := by
      apply Nat.pos_of_ne_zero
      intro none
      rw [insertCol, if_pos (.inr (.inl (sameRows.trans none)))] at done
      obtain rfl := Option.some.inj done
      have grown := exact.cols
      omega
    have admitted := after.matrix.admitted
    rw [exact.rows, exact.cols] at admitted
    obtain ⟨result, same, _, _, _, _, moved⟩ :=
      insertCol_eq_some within sameRows cols rows admitted
    obtain rfl := Option.some.inj (done.symm.trans same)
    refine ⟨rows, admitted, ?_⟩
    intro i j rest
    rw [← exact.right i j rest, moved i j rest]
  · rintro ⟨rows, admitted, repeated⟩
    obtain ⟨after, done, afterRows, afterCols, left, inserted, moved⟩ :=
      insertCol_eq_some within sameRows cols rows admitted
    refine ⟨after, done, afterRows, afterCols, left, inserted, ?_⟩
    intro i j rest
    rw [moved i j rest, repeated i j rest]

/-- Insertion gives the matrix asked for if and only if nothing is inserted, or the matrix
has cells, its type has room for the new ones, and the rows or columns to be moved repeat
after as many as are inserted. -/
theorem insertion_exact_iff (this : DenseMatrix layout Identifier Cell)
    (other : DenseMatrix otherLayout Other Cell) (position : Nat) :
    (position ≤ this.matrix.rows → other.matrix.cols = this.matrix.cols →
      ((∃ after, this.insertRow position other = some after ∧
          RowsInserted this.matrix position other.matrix after.matrix) ↔
        other.matrix.rows = 0 ∨
          (0 < this.matrix.cols ∧
            layout.Admits (this.matrix.rows + other.matrix.rows) this.matrix.cols ∧
            ∀ i j, position + i < this.matrix.rows →
              this.matrix.coeff (position + i) j =
                this.matrix.coeff (position + i % other.matrix.rows) j))) ∧
      (position ≤ this.matrix.cols → other.matrix.rows = this.matrix.rows →
        ((∃ after, this.insertCol position other = some after ∧
            ColsInserted this.matrix position other.matrix after.matrix) ↔
          other.matrix.cols = 0 ∨
            (0 < this.matrix.rows ∧
              layout.Admits this.matrix.rows (this.matrix.cols + other.matrix.cols) ∧
              ∀ i j, position + j < this.matrix.cols →
                this.matrix.coeff i (position + j) =
                  this.matrix.coeff i (position + j % other.matrix.cols)))) :=
  ⟨insertRow_exact_iff, insertCol_exact_iff⟩

theorem column_outside (values : List Nat) :
    ∀ i j, values.length ≤ i ∨ 1 ≤ j → (if j = 0 then values[i]? else none) = none := by
  intro i j beyond
  split
  · exact List.getElem?_eq_none (by omega)
  · rfl

/-- A matrix of one column. -/
def column (values : List Nat) : DenseMatrix (.dynamicRows none) Nat Nat where
  matrix :=
    { rows := values.length
      cols := 1
      coeff := fun i j => if j = 0 then values[i]? else none
      admitted := ⟨rfl, rfl⟩
      outside := column_outside values }
  id := none
  incidentIndexes := []

/-- One row is inserted before the last one. -/
theorem insertion_exact_last :
    ∃ after, (column [1, 2]).insertRow 1 (column [9]) = some after ∧
      RowsInserted (column [1, 2]).matrix 1 (column [9]).matrix after.matrix := by
  apply ((insertion_exact_iff (column [1, 2]) (column [9]) 1).1 (by decide) rfl).mpr
  refine .inr ⟨by decide, ⟨rfl, rfl⟩, ?_⟩
  intro i j inside
  obtain rfl : i = 0 := by
    change 1 + i < 2 at inside
    omega
  rfl

/-- Where one row is inserted before two others, the first of these is there twice. -/
theorem not_insertion_exact :
    ¬ ∀ (this other : DenseMatrix (.dynamicRows none) Nat Nat) (row : Nat),
      row ≤ this.matrix.rows → other.matrix.cols = this.matrix.cols →
        ∃ after, this.insertRow row other = some after ∧
          RowsInserted this.matrix row other.matrix after.matrix := by
  intro exact
  obtain ⟨after, done, inserted⟩ := exact (column [1, 2]) (column [9]) 0 (Nat.zero_le _) rfl
  have twice : ((column [1, 2]).insertRow 0 (column [9])).map
      (fun after => after.matrix.coeff 2 0) = some (some 1) := by decide
  rw [done] at twice
  have last := inserted.below 1 0 (by decide)
  exact absurd ((Option.some.inj twice).symm.trans last) (by decide)

end DenseMatrix

end PipeFabric
