import PipeFabric.Matrix.DenseMatrix

/-!
# Sparse matrices

`Matrix` stands on a sparse matrix of Eigen, which stores entries column by column and in
each column from the top down.
-/

namespace PipeFabric

variable {Identifier Cell : Type}

/-- The entry is stored before the other one. -/
def Precedes (entry other : Triplet Cell) : Prop :=
  entry.2.1 < other.2.1 ∨ (entry.2.1 = other.2.1 ∧ entry.1 < other.1)

instance (entry other : Triplet Cell) : Decidable (Precedes entry other) :=
  inferInstanceAs (Decidable (_ ∨ _))

/-- The entries after the assignment to `coeffRef`. -/
def assignEntry (entry : Triplet Cell) : List (Triplet Cell) → List (Triplet Cell)
  | [] => [entry]
  | first :: entries =>
      if Precedes entry first then entry :: first :: entries
      else if Precedes first entry then first :: assignEntry entry entries
      else entry :: entries

theorem Precedes.trans {first second third : Triplet Cell} (before : Precedes first second)
    (after : Precedes second third) : Precedes first third := by
  unfold Precedes at *
  omega

theorem mem_assignEntry {entry other : Triplet Cell} {entries : List (Triplet Cell)}
    (member : other ∈ assignEntry entry entries) : other = entry ∨ other ∈ entries := by
  induction entries with
  | nil => exact .inl (List.mem_singleton.mp member)
  | cons first entries induction =>
      rw [assignEntry] at member
      split at member
      · exact List.mem_cons.mp member
      · split at member
        · rcases List.mem_cons.mp member with rfl | later
          · exact .inr List.mem_cons_self
          · exact (induction later).imp_right (List.mem_cons_of_mem _)
        · exact (List.mem_cons.mp member).imp_right (List.mem_cons_of_mem _)

theorem assignEntry_ordered (entry : Triplet Cell) {entries : List (Triplet Cell)}
    (ordered : entries.Pairwise Precedes) : (assignEntry entry entries).Pairwise Precedes := by
  induction entries with
  | nil => exact List.pairwise_singleton _ _
  | cons first entries induction =>
      obtain ⟨least, rest⟩ := List.pairwise_cons.mp ordered
      rw [assignEntry]
      split
      · rename_i before
        apply List.pairwise_cons.mpr ⟨?_, ordered⟩
        intro other member
        rcases List.mem_cons.mp member with rfl | later
        · exact before
        · exact before.trans (least other later)
      · split
        · rename_i _ after
          apply List.pairwise_cons.mpr ⟨?_, induction rest⟩
          intro other member
          rcases mem_assignEntry member with rfl | later
          · exact after
          · exact least other later
        · rename_i notBefore notAfter
          apply List.pairwise_cons.mpr ⟨?_, rest⟩
          intro other member
          have next := least other member
          unfold Precedes at *
          omega

/-- An entry behind all others comes to the end. -/
theorem assignEntry_of_last {entry : Triplet Cell} {entries : List (Triplet Cell)}
    (last : ∀ other ∈ entries, Precedes other entry) :
    assignEntry entry entries = entries ++ [entry] := by
  induction entries with
  | nil => rfl
  | cons first entries induction =>
      obtain ⟨before, later⟩ := List.forall_mem_cons.mp last
      have notAfter : ¬ Precedes entry first := by
        intro after
        unfold Precedes at *
        omega
      rw [assignEntry, if_neg notAfter, if_pos before, induction later, List.cons_append]

/-- `Eigen::SparseMatrix`. -/
structure SparseEigenMatrix (Cell : Type) where
  rows : Nat
  cols : Nat
  entries : List (Triplet Cell)
  ordered : entries.Pairwise Precedes
  inside : ∀ entry ∈ entries, entry.1 < rows ∧ entry.2.1 < cols

namespace SparseEigenMatrix

/-- The constructor with the numbers of rows and columns. -/
def ofSize (rows cols : Nat) : SparseEigenMatrix Cell where
  rows := rows
  cols := cols
  entries := []
  ordered := List.Pairwise.nil
  inside _ member := absurd member List.not_mem_nil

theorem assigned_inside (matrix : SparseEigenMatrix Cell) (x y : Nat) (value : Cell) :
    ∀ entry ∈ assignEntry (x, y, value) matrix.entries,
      entry.1 < (if matrix.rows ≤ x then x + 1 else matrix.rows) ∧
        entry.2.1 < (if matrix.cols ≤ y then y + 1 else matrix.cols) := by
  intro entry member
  rcases mem_assignEntry member with rfl | old
  · constructor
    · dsimp only
      split <;> omega
    · dsimp only
      split <;> omega
  · have before := matrix.inside entry old
    constructor
    · split <;> omega
    · split <;> omega

theorem eq_of_entries {first second : SparseEigenMatrix Cell} (rows : first.rows = second.rows)
    (cols : first.cols = second.cols) (entries : first.entries = second.entries) :
    first = second := by
  obtain ⟨_, _, _, _, _⟩ := first
  obtain ⟨_, _, _, _, _⟩ := second
  cases rows
  cases cols
  cases entries
  rfl

end SparseEigenMatrix

/-- `Matrix`, apart from its observer.  The constructors leave the identifier without a
value. -/
structure SparseMatrix (Identifier Cell : Type) where
  matrix : SparseEigenMatrix Cell
  id : Option Identifier

namespace SparseMatrix

/-- The constructor with the numbers of rows and columns. -/
def ofSize (rows cols : Nat) : SparseMatrix Identifier Cell := ⟨.ofSize rows cols, none⟩

/-- The constructor without arguments. -/
def empty : SparseMatrix Identifier Cell := .ofSize 0 0

/-- The move constructor, which leaves out the identifier. -/
def move (rhs : SparseMatrix Identifier Cell) : SparseMatrix Identifier Cell :=
  ⟨rhs.matrix, none⟩

/-- `setID`. -/
def setID (this : SparseMatrix Identifier Cell) (identifier : Identifier) :
    SparseMatrix Identifier Cell :=
  { this with id := some identifier }

/-- `setMatrix`. -/
def setMatrix (this : SparseMatrix Identifier Cell) (matrix : SparseEigenMatrix Cell) :
    SparseMatrix Identifier Cell :=
  { this with matrix := matrix }

/-- `getNumElements`. -/
def getNumElements (this : SparseMatrix Identifier Cell) : Nat := this.matrix.entries.length

/-- `set`. -/
def set (this : SparseMatrix Identifier Cell) (x y : Nat) (value : Cell) :
    SparseMatrix Identifier Cell :=
  { this with
    matrix :=
      { rows := if this.matrix.rows ≤ x then x + 1 else this.matrix.rows
        cols := if this.matrix.cols ≤ y then y + 1 else this.matrix.cols
        entries := assignEntry (x, y, value) this.matrix.entries
        ordered := assignEntry_ordered (x, y, value) this.matrix.ordered
        inside := this.matrix.assigned_inside x y value } }

/-- The entries in the order of the iteration from `begin` to `end`, which are iterators
of the first and of the last column. -/
def cells (this : SparseMatrix Identifier Cell) : Option (List (Triplet Cell)) :=
  if this.matrix.cols = 0 then none else some this.matrix.entries

/-- `set` for an entry with its position. -/
def setTriplet (triplet : Triplet Cell) (this : SparseMatrix Identifier Cell) :
    SparseMatrix Identifier Cell :=
  this.set triplet.1 triplet.2.1 triplet.2.2

/-- Entries set in their order one after the other. -/
theorem foldl_setTriplet {this : SparseMatrix Identifier Cell}
    {triplets : List (Triplet Cell)}
    (ordered : (this.matrix.entries ++ triplets).Pairwise Precedes)
    (inside : ∀ triplet ∈ triplets,
      triplet.1 < this.matrix.rows ∧ triplet.2.1 < this.matrix.cols) :
    (triplets.foldl (fun this triplet => setTriplet triplet this) this).matrix.entries =
        this.matrix.entries ++ triplets ∧
      (triplets.foldl (fun this triplet => setTriplet triplet this) this).matrix.rows =
        this.matrix.rows ∧
      (triplets.foldl (fun this triplet => setTriplet triplet this) this).matrix.cols =
        this.matrix.cols := by
  induction triplets generalizing this with
  | nil => exact ⟨(List.append_nil _).symm, rfl, rfl⟩
  | cons triplet triplets induction =>
      obtain ⟨here, later⟩ := List.forall_mem_cons.mp inside
      have last : ∀ other ∈ this.matrix.entries, Precedes other triplet :=
        fun other member =>
          (List.pairwise_append.mp ordered).2.2 other member triplet List.mem_cons_self
      have entries : (setTriplet triplet this).matrix.entries =
          this.matrix.entries ++ [triplet] := assignEntry_of_last last
      have rows : (setTriplet triplet this).matrix.rows = this.matrix.rows :=
        if_neg (Nat.not_le_of_lt here.1)
      have cols : (setTriplet triplet this).matrix.cols = this.matrix.cols :=
        if_neg (Nat.not_le_of_lt here.2)
      have onward := @induction (setTriplet triplet this)
        (by rwa [entries, List.append_assoc]) (by rwa [rows, cols])
      rw [entries, rows, cols, List.append_assoc] at onward
      exact onward

end SparseMatrix

end PipeFabric
