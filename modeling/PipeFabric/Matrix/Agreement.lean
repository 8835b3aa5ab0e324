import Mathlib.Algebra.Ring.Int.Defs
import PipeFabric.Library.Transducer
import PipeFabric.Library.TransitionSystem
import PipeFabric.Matrix.Removal

/-!
# Dense and sparse matrices hold the same cells

Both kinds of matrices are compared with a matrix that grows to contain every position set
and reads 0 where nothing was.  Growth of a dense matrix leaves the cells that come up
without values.
-/

namespace PipeFabric

variable {Identifier Cell : Type}

/-- What can be done to a matrix. -/
inductive MatrixOperation (Cell : Type) where
  | set (x y : Nat) (value : Cell)
  | remove (x y : Nat)
  | removeRow (row : Nat)
  | removeCol (col : Nat)

/-- The matrix that is meant. -/
structure ReferenceMatrix (Cell : Type) [Zero Cell] where
  rows : Nat
  cols : Nat
  value : Nat → Nat → Cell
  outside : ∀ i j, rows ≤ i ∨ cols ≤ j → value i j = 0

namespace ReferenceMatrix

variable [Zero Cell]

def empty : ReferenceMatrix Cell where
  rows := 0
  cols := 0
  value _ _ := 0
  outside _ _ _ := rfl

theorem set_outside (reference : ReferenceMatrix Cell) (x y : Nat) (value : Cell) :
    ∀ i j, max reference.rows (x + 1) ≤ i ∨ max reference.cols (y + 1) ≤ j →
      (if i = x ∧ j = y then value else reference.value i j) = 0 := by
  intro i j beyond
  rw [if_neg (by omega), reference.outside i j (by omega)]

theorem remove_outside (reference : ReferenceMatrix Cell) (x y : Nat) :
    ∀ i j, reference.rows ≤ i ∨ reference.cols ≤ j →
      (if i = x ∧ j = y then 0 else reference.value i j) = 0 := by
  intro i j beyond
  split
  · rfl
  · exact reference.outside i j beyond

theorem removeRow_outside (reference : ReferenceMatrix Cell) {row : Nat}
    (inside : row < reference.rows) :
    ∀ i j, reference.rows - 1 ≤ i ∨ reference.cols ≤ j →
      reference.value (skip row i) j = 0 := by
  intro i j beyond
  apply reference.outside
  unfold skip
  split <;> omega

theorem removeCol_outside (reference : ReferenceMatrix Cell) {col : Nat}
    (inside : col < reference.cols) :
    ∀ i j, reference.rows ≤ i ∨ reference.cols - 1 ≤ j →
      reference.value i (skip col j) = 0 := by
  intro i j beyond
  apply reference.outside
  unfold skip
  split <;> omega

def set (reference : ReferenceMatrix Cell) (x y : Nat) (value : Cell) :
    ReferenceMatrix Cell where
  rows := max reference.rows (x + 1)
  cols := max reference.cols (y + 1)
  value i j := if i = x ∧ j = y then value else reference.value i j
  outside := reference.set_outside x y value

def remove (reference : ReferenceMatrix Cell) (x y : Nat) : ReferenceMatrix Cell where
  rows := reference.rows
  cols := reference.cols
  value i j := if i = x ∧ j = y then 0 else reference.value i j
  outside := reference.remove_outside x y

def removeRow (reference : ReferenceMatrix Cell) (row : Nat) : ReferenceMatrix Cell :=
  if inside : row < reference.rows then
    { rows := reference.rows - 1
      cols := reference.cols
      value := fun i j => reference.value (skip row i) j
      outside := reference.removeRow_outside inside }
  else reference

def removeCol (reference : ReferenceMatrix Cell) (col : Nat) : ReferenceMatrix Cell :=
  if inside : col < reference.cols then
    { rows := reference.rows
      cols := reference.cols - 1
      value := fun i j => reference.value i (skip col j)
      outside := reference.removeCol_outside inside }
  else reference

def perform (reference : ReferenceMatrix Cell) : MatrixOperation Cell → ReferenceMatrix Cell
  | .set x y value => reference.set x y value
  | .remove x y => reference.remove x y
  | .removeRow row => reference.removeRow row
  | .removeCol col => reference.removeCol col

/-- The matrix after operations on an empty one. -/
def performAll (operations : List (MatrixOperation Cell)) : ReferenceMatrix Cell :=
  operations.foldl perform empty

theorem performAll_concat (operations : List (MatrixOperation Cell))
    (operation : MatrixOperation Cell) :
    performAll (operations ++ [operation]) = (performAll operations).perform operation :=
  List.foldl_concat _ _ _ _

end ReferenceMatrix

namespace MatrixOperation

variable [Zero Cell]

/-- What is removed has to be there. -/
def InRange (reference : ReferenceMatrix Cell) : MatrixOperation Cell → Prop
  | .set _ _ _ => True
  | .remove x y => x < reference.rows ∧ y < reference.cols
  | .removeRow row => row < reference.rows
  | .removeCol col => col < reference.cols

/-- No cell comes up but the one that is set. -/
def ExposesOnlyItself (reference : ReferenceMatrix Cell) : MatrixOperation Cell → Prop
  | .set x y _ => ∀ i j, i < max reference.rows (x + 1) → j < max reference.cols (y + 1) →
      (i < reference.rows ∧ j < reference.cols) ∨ (i = x ∧ j = y)
  | _ => True

end MatrixOperation

/-! ### Dense matrices -/

namespace DenseMatrix

def perform [Zero Cell] (this : DenseMatrix (.dynamicRows none) Identifier Cell) :
    MatrixOperation Cell → Option (DenseMatrix (.dynamicRows none) Identifier Cell)
  | .set x y value => this.set x y value
  | .remove x y => this.remove x y
  | .removeRow row => this.removeRow row
  | .removeCol col => this.removeCol col

/-- The matrix has the dimensions and the values that are meant. -/
structure Shows [Zero Cell] (this : DenseMatrix (.dynamicRows none) Identifier Cell)
    (reference : ReferenceMatrix Cell) : Prop where
  rows : this.matrix.rows = reference.rows
  cols : this.matrix.cols = reference.cols
  values : ∀ i j, i < reference.rows → j < reference.cols →
    this.matrix.coeff i j = some (reference.value i j)

variable [Zero Cell] {this : DenseMatrix (.dynamicRows none) Identifier Cell}
  {reference : ReferenceMatrix Cell}

theorem grown_eq_max (size index : Nat) :
    (if size ≤ index then index + 1 else size) = max size (index + 1) := by
  split <;> omega

theorem Shows.set_iff (shows : this.Shows reference) (x y : Nat) (value : Cell) :
    ∃ after, this.set x y value = some after ∧
      (after.Shows (reference.set x y value) ↔
        (MatrixOperation.set x y value).ExposesOnlyItself reference) := by
  have grows : ∃ after, this.set x y value = some after :=
    set_isSome_iff.mpr ⟨.inl rfl, .inl rfl⟩
  obtain ⟨after, done⟩ := grows
  obtain ⟨rows, cols, cells, _⟩ := set_spec done
  rw [grown_eq_max, shows.rows] at rows
  rw [grown_eq_max, shows.cols] at cols
  refine ⟨after, done, ?_, ?_⟩
  · intro exact i j inRow inCol
    by_contra elsewhere
    have held := exact.values i j inRow inCol
    rw [cells, if_neg (fun here => elsewhere (.inr here)), this.matrix.outside] at held
    · cases held
    · rw [shows.rows, shows.cols]
      omega
  · intro only
    refine ⟨rows, cols, ?_⟩
    intro i j inRow inCol
    rw [cells]
    change _ = some (if _ then _ else _)
    by_cases here : i = x ∧ j = y
    · rw [if_pos here, if_pos here]
    · have old := (only i j inRow inCol).resolve_right here
      rw [if_neg here, if_neg here, shows.values i j old.1 old.2]

theorem Shows.remove (shows : this.Shows reference) {x y : Nat}
    (inside : x < reference.rows ∧ y < reference.cols) :
    ∃ after, this.remove x y = some after ∧ after.Shows (reference.remove x y) := by
  rw [← shows.rows, ← shows.cols] at inside
  obtain ⟨matrix, done⟩ := (EigenMatrix.assign_isSome_iff x y 0).mpr inside
  obtain ⟨rows, cols, cells⟩ := EigenMatrix.assign_spec done
  refine ⟨{ this with matrix := matrix }, ?_, rows.trans shows.rows, cols.trans shows.cols, ?_⟩
  · rw [DenseMatrix.remove, done]
    rfl
  · intro i j inRow inCol
    refine (cells i j).trans ?_
    change _ = some (if _ then _ else _)
    split
    · rfl
    · exact shows.values i j inRow inCol

theorem Shows.removeRow (shows : this.Shows reference) {row : Nat}
    (inside : row < reference.rows) :
    ∃ after, this.removeRow row = some after ∧ after.Shows (reference.removeRow row) := by
  have there : row < this.matrix.rows := shows.rows ▸ inside
  obtain ⟨matrix, done, rows, cols, cells⟩ :=
    EigenMatrix.removeRow_eq_some there ⟨rfl, rfl⟩
  refine ⟨{ this with matrix := matrix }, ?_, ?_⟩
  · rw [DenseMatrix.removeRow, if_neg (Nat.not_le.mpr there), done]
    rfl
  rw [ReferenceMatrix.removeRow, dif_pos inside]
  refine ⟨rows.trans (congrArg (· - 1) shows.rows), cols.trans shows.cols, ?_⟩
  intro i j inRow inCol
  apply (cells i j).trans
  apply shows.values _ _ _ inCol
  change i < reference.rows - 1 at inRow
  unfold skip
  split <;> omega

theorem Shows.removeCol (shows : this.Shows reference) {col : Nat}
    (inside : col < reference.cols) :
    ∃ after, this.removeCol col = some after ∧ after.Shows (reference.removeCol col) := by
  have there : col < this.matrix.cols := shows.cols ▸ inside
  obtain ⟨matrix, done, rows, cols, cells⟩ :=
    EigenMatrix.removeCol_eq_some there ⟨rfl, rfl⟩
  refine ⟨{ this with matrix := matrix }, ?_, ?_⟩
  · rw [DenseMatrix.removeCol, if_neg (Nat.not_le.mpr there), done]
    rfl
  rw [ReferenceMatrix.removeCol, dif_pos inside]
  refine ⟨rows.trans shows.rows, cols.trans (congrArg (· - 1) shows.cols), ?_⟩
  intro i j inRow inCol
  apply (cells i j).trans
  apply shows.values _ _ inRow
  change j < reference.cols - 1 at inCol
  unfold skip
  split <;> omega

/-- What an operation does to a matrix that is as it is meant to be. -/
theorem Shows.perform_iff (shows : this.Shows reference) {operation : MatrixOperation Cell}
    (inRange : operation.InRange reference) :
    ∃ after, this.perform operation = some after ∧
      (after.Shows (reference.perform operation) ↔
        operation.ExposesOnlyItself reference) := by
  cases operation with
  | set x y value => exact shows.set_iff x y value
  | remove x y =>
      obtain ⟨after, done, next⟩ := shows.remove inRange
      exact ⟨after, done, iff_of_true next trivial⟩
  | removeRow row =>
      obtain ⟨after, done, next⟩ := shows.removeRow inRange
      exact ⟨after, done, iff_of_true next trivial⟩
  | removeCol col =>
      obtain ⟨after, done, next⟩ := shows.removeCol inRange
      exact ⟨after, done, iff_of_true next trivial⟩

end DenseMatrix

/-! ### Sparse matrices -/

namespace SparseMatrix

variable [Zero Cell] [DecidableEq Cell]

def perform (this : SparseMatrix Identifier Cell) :
    MatrixOperation Cell → Option (SparseMatrix Identifier Cell)
  | .set x y value => some (this.set x y value)
  | .remove x y => this.remove x y
  | .removeRow row => some (this.removeRow row)
  | .removeCol col => some (this.removeCol col)

omit [DecidableEq Cell] in
/-- The matrix has the dimensions and the values that are meant. -/
structure Shows (this : SparseMatrix Identifier Cell) (reference : ReferenceMatrix Cell) :
    Prop where
  rows : this.matrix.rows = reference.rows
  cols : this.matrix.cols = reference.cols
  values : ∀ i j, this.matrix.coeff i j = reference.value i j

variable {this : SparseMatrix Identifier Cell} {reference : ReferenceMatrix Cell}

omit [DecidableEq Cell] in
theorem Shows.set (shows : this.Shows reference) (x y : Nat) (value : Cell) :
    (this.set x y value).Shows (reference.set x y value) where
  rows := (DenseMatrix.grown_eq_max _ _).trans (congrArg (max · (x + 1)) shows.rows)
  cols := (DenseMatrix.grown_eq_max _ _).trans (congrArg (max · (y + 1)) shows.cols)
  values i j := by
    rw [coeff_set, shows.values]
    rfl

theorem Shows.remove (shows : this.Shows reference) {x y : Nat}
    (inside : x < reference.rows ∧ y < reference.cols) :
    ∃ after, this.remove x y = some after ∧ after.Shows (reference.remove x y) := by
  rw [← shows.rows, ← shows.cols] at inside
  refine ⟨_, if_pos inside, ?_, ?_, ?_⟩
  · exact (if_neg (Nat.not_le.mpr inside.1)).trans shows.rows
  · exact (if_neg (Nat.not_le.mpr inside.2)).trans shows.cols
  · intro i j
    apply (SparseEigenMatrix.coeff_pruned _ i j).trans
    rw [coeff_set, shows.values]
    rfl

omit [DecidableEq Cell] in
theorem Shows.removeRow (shows : this.Shows reference) {row : Nat}
    (inside : row < reference.rows) :
    (this.removeRow row).Shows (reference.removeRow row) := by
  have there : row < this.matrix.rows := shows.rows ▸ inside
  rw [SparseMatrix.removeRow, dif_pos there, ReferenceMatrix.removeRow, dif_pos inside]
  refine ⟨congrArg (· - 1) shows.rows, shows.cols, ?_⟩
  intro i j
  exact (SparseEigenMatrix.coeff_removeRow _ there i j).trans (shows.values _ _)

omit [DecidableEq Cell] in
theorem Shows.removeCol (shows : this.Shows reference) {col : Nat}
    (inside : col < reference.cols) :
    (this.removeCol col).Shows (reference.removeCol col) := by
  have there : col < this.matrix.cols := shows.cols ▸ inside
  rw [SparseMatrix.removeCol, dif_pos there, ReferenceMatrix.removeCol, dif_pos inside]
  refine ⟨shows.rows, congrArg (· - 1) shows.cols, ?_⟩
  intro i j
  exact (SparseEigenMatrix.coeff_removeCol _ there i j).trans (shows.values _ _)

theorem Shows.perform (shows : this.Shows reference) {operation : MatrixOperation Cell}
    (inRange : operation.InRange reference) :
    ∃ after, this.perform operation = some after ∧
      after.Shows (reference.perform operation) := by
  cases operation with
  | set x y value => exact ⟨_, rfl, shows.set x y value⟩
  | remove x y => exact shows.remove inRange
  | removeRow row => exact ⟨_, rfl, shows.removeRow inRange⟩
  | removeCol col => exact ⟨_, rfl, shows.removeCol inRange⟩

end SparseMatrix

/-! ### Runs -/

section

variable [Zero Cell] [DecidableEq Cell]

open ReferenceMatrix (performAll)

/-- After the operations both matrices are as they are meant to be. -/
def MatricesAgree (Identifier : Type) (operations : List (MatrixOperation Cell)) : Prop :=
  (∃ dense : DenseMatrix (.dynamicRows none) Identifier Cell,
      TransitionSystem.run DenseMatrix.perform .empty operations = some dense ∧
        dense.Shows (performAll operations)) ∧
    ∃ sparse : SparseMatrix Identifier Cell,
      TransitionSystem.run SparseMatrix.perform .empty operations = some sparse ∧
        sparse.Shows (performAll operations)

theorem agree_nil : MatricesAgree Identifier ([] : List (MatrixOperation Cell)) := by
  constructor
  · refine ⟨.empty, rfl, rfl, rfl, ?_⟩
    intro i j inRow _
    exact absurd inRow (Nat.not_lt_zero i)
  · exact ⟨.empty, rfl, rfl, rfl, fun _ _ => rfl⟩

theorem agree_concat_iff {operations : List (MatrixOperation Cell)}
    (before : MatricesAgree Identifier operations) {operation : MatrixOperation Cell}
    (inRange : operation.InRange (performAll operations)) :
    MatricesAgree Identifier (operations ++ [operation]) ↔
      operation.ExposesOnlyItself (performAll operations) := by
  obtain ⟨⟨dense, denseRun, denseShows⟩, sparse, sparseRun, sparseShows⟩ := before
  obtain ⟨nextDense, denseDone, exact⟩ := denseShows.perform_iff inRange
  obtain ⟨nextSparse, sparseDone, nextShows⟩ := sparseShows.perform inRange
  rw [← exact, ← ReferenceMatrix.performAll_concat]
  rw [← ReferenceMatrix.performAll_concat] at nextShows
  have denseNext : TransitionSystem.run DenseMatrix.perform .empty
      (operations ++ [operation]) = some nextDense := by
    simp only [TransitionSystem.run_append, denseRun, Option.bind_some, TransitionSystem.run,
      denseDone]
  have sparseNext : TransitionSystem.run SparseMatrix.perform .empty
      (operations ++ [operation]) = some nextSparse := by
    simp only [TransitionSystem.run_append, sparseRun, Option.bind_some, TransitionSystem.run,
      sparseDone]
  constructor
  · intro agree
    obtain ⟨⟨other, otherRun, otherShows⟩, _⟩ := agree
    obtain rfl := Option.some.inj (denseNext.symm.trans otherRun)
    exact otherShows
  · intro shows
    exact ⟨⟨nextDense, denseNext, shows⟩, nextSparse, sparseNext, nextShows⟩

/-- The two kinds of matrices are as they are meant to be after every operation if and only
if no cell of a matrix that grows comes up but the one that is set. -/
theorem matrices_agree_iff (operations : List (MatrixOperation Cell))
    (inRange : ∀ before operation, before ++ [operation] <+: operations →
      operation.InRange (performAll before)) :
    (∀ before, before <+: operations → MatricesAgree Identifier before) ↔
      ∀ before operation, before ++ [operation] <+: operations →
        operation.ExposesOnlyItself (performAll before) := by
  apply Transducer.forall_seen_iff agree_nil
  intro before operation within agree
  exact agree_concat_iff agree (inRange before operation within)

/-- A cell is appended to a row, the first column goes, and the cell is removed. -/
theorem matrices_agree_row :
    (performAll [.set 0 0 5, .set 0 1 (7 : Int), .removeCol 0, .remove 0 0]).rows = 1 ∧
      ∀ before, before <+: [.set 0 0 5, .set 0 1 (7 : Int), .removeCol 0, .remove 0 0] →
        MatricesAgree Nat before := by
  refine ⟨rfl, ?_⟩
  apply (matrices_agree_iff
    [.set 0 0 5, .set 0 1 (7 : Int), .removeCol 0, .remove 0 0] ?_).mpr
  · simp only [Transducer.forall_arrivals_cons]
    refine ⟨?_, ?_, trivial, trivial, Transducer.forall_arrivals_nil _⟩
    · intro i j inRow inCol
      change i < 1 at inRow
      change j < 1 at inCol
      omega
    · intro i j inRow inCol
      change i < 1 at inRow
      change j < 2 at inCol
      change (i < 1 ∧ j < 1) ∨ _
      omega
  · simp only [Transducer.forall_arrivals_cons]
    exact ⟨trivial, trivial, Nat.zero_lt_succ 1, ⟨Nat.zero_lt_one, Nat.zero_lt_one⟩,
      Transducer.forall_arrivals_nil _⟩

end

/-- A position away from the others brings up cells without values. -/
theorem not_matrices_agree :
    ¬ ∀ operations : List (MatrixOperation Int),
      (∀ before operation, before ++ [operation] <+: operations →
        operation.InRange (ReferenceMatrix.performAll before)) →
      ∀ before, before <+: operations → MatricesAgree Nat before := by
  intro agree
  have permitted : ∀ before operation,
      before ++ [operation] <+: [MatrixOperation.set 1 1 (5 : Int)] →
        operation.InRange (ReferenceMatrix.performAll before) :=
    Transducer.forall_arrivals_cons.mpr ⟨trivial, Transducer.forall_arrivals_nil _⟩
  obtain ⟨⟨dense, ran, shows⟩, _⟩ := agree _ permitted _ List.prefix_rfl
  have unspecified : (TransitionSystem.run DenseMatrix.perform
      (DenseMatrix.empty : DenseMatrix (.dynamicRows none) Nat Int)
        [.set 1 1 5]).map (fun dense => dense.matrix.coeff 0 0) = some none := by decide
  rw [ran] at unspecified
  have held := shows.values 0 0 (by decide) (by decide)
  exact absurd ((Option.some.inj unspecified).symm.trans held) (by decide)

end PipeFabric
