import PipeFabric.Library.ScatterGather
import PipeFabric.Matrix.DenseMatrix
import PipeFabric.Matrix.SparseMatrix

/-!
# Slicing and merging matrices

`MatrixSlice` publishes the parts of a matrix, which have an identifier in common, and
`MatrixMerge` puts parts with the same identifier together until it has all of them.
-/

namespace PipeFabric

open ScatterGather (scatter)
open Transducer (tryRun)

/-- What the operators use of the class of the matrices, and their functions that are
overloaded for it. -/
class MatrixClass (M : Type) (Identifier Cell : outParam Type) where
  /-- The constructor without arguments. -/
  empty : M
  /-- The move constructor. -/
  move : M → M
  setID : M → Identifier → M
  /-- `none` if the identifier has no value. -/
  getID : M → Option Identifier
  /-- `MatrixSlice::slice`. -/
  slice : Nat → (Cell → Nat → Nat → Nat) → M → Option (List M)
  /-- `MatrixMerge::merge_to`. -/
  merge_to : M → M → Option M

/-! ### Dense matrices -/

namespace DenseMatrix

variable {layout : Layout} {Identifier Cell : Type}

/-- `slice`. -/
def slice (numParts : Nat) (sliceFun : Cell → Nat → Nat → Nat)
    (matrix : DenseMatrix layout Identifier Cell) :
    Option (List (DenseMatrix layout Identifier Cell)) := do
  let cells ← matrix.cells
  scatter (fun triplet => sliceFun triplet.2.2 triplet.1 triplet.2.1)
    (fun triplet part => part.addIncident triplet.1 triplet.2.1 triplet.2.2)
    (List.replicate numParts empty) cells

/-- `merge_to`. -/
def merge_to (srcMat dstMat : DenseMatrix layout Identifier Cell) :
    Option (DenseMatrix layout Identifier Cell) :=
  (List.range srcMat.getCountIncidents).foldlM
    (fun dstMat i => do
      let triple ← srcMat.getIncident i
      dstMat.set triple.1 triple.2.1 triple.2.2)
    dstMat

instance : MatrixClass (DenseMatrix layout Identifier Cell) Identifier Cell where
  empty := empty
  move := move
  setID := setID
  getID := DenseMatrix.id
  slice := slice
  merge_to := merge_to

end DenseMatrix

/-! ### Sparse matrices -/

namespace SparseMatrix

variable {Identifier Cell : Type}

/-- `slice`. -/
def slice (numParts : Nat) (sliceFun : Cell → Nat → Nat → Nat)
    (matrix : SparseMatrix Identifier Cell) :
    Option (List (SparseMatrix Identifier Cell)) := do
  let cells ← matrix.cells
  scatter (fun triplet => sliceFun triplet.2.2 triplet.1 triplet.2.1)
    (fun triplet part => some (part.set triplet.1 triplet.2.1 triplet.2.2))
    (List.replicate numParts (ofSize matrix.matrix.rows matrix.matrix.cols)) cells

/-- `merge_to`. -/
def merge_to (srcMat dstMat : SparseMatrix Identifier Cell) :
    Option (SparseMatrix Identifier Cell) :=
  if dstMat.getNumElements = 0 then some (dstMat.setMatrix srcMat.matrix)
  else do
    let cells ← srcMat.cells
    return cells.foldl
      (fun dstMat triplet => dstMat.set triplet.1 triplet.2.1 triplet.2.2) dstMat

instance : MatrixClass (SparseMatrix Identifier Cell) Identifier Cell where
  empty := empty
  move := move
  setID := setID
  getID := SparseMatrix.id
  slice := slice
  merge_to := merge_to

end SparseMatrix

/-! ### The operators -/

section

variable {M Identifier Cell : Type} [MatrixClass M Identifier Cell]

/-- `MatrixSlice::processDataElement`, with the identifier that is generated. -/
def MatrixSlice.processDataElement (numParts : Nat) (sliceFun : Cell → Nat → Nat → Nat)
    (partID : Identifier) (rec : M) : Option (List (M × Bool)) := do
  let partitions ← MatrixClass.slice numParts sliceFun rec
  return partitions.map fun m => (MatrixClass.move (MatrixClass.setID m partID), false)

/-- `MatrixSlice` on a stream.  The flag of a matrix is not read; for every matrix
another identifier is generated. -/
def MatrixSlice.step (numParts : Nat) (sliceFun : Cell → Nat → Nat → Nat)
    (generated : Nat → Identifier) (number : Nat) (input : M × Bool) :
    Option (Nat × List (M × Bool)) :=
  (MatrixSlice.processDataElement numParts sliceFun (generated number) input.1).map
    (number + 1, ·)

/-- `MatrixMerge::Partition`. -/
structure Partition (M : Type) where
  countParts : Nat
  matrix : M

/-- A tuple that arrives, and what is in memory where its identifier has no value. -/
structure Arrival (M Identifier : Type) where
  tuple : M
  outdated : Bool
  memory : Identifier

/-- The identifier that `getID` returns. -/
def Arrival.getID (arrival : Arrival M Identifier) : Identifier :=
  (MatrixClass.getID arrival.tuple).getD arrival.memory

variable [DecidableEq Identifier]

/-- `MatrixMerge::processDataElement` -/
def MatrixMerge.processDataElement (numParts : Nat)
    (partitions : Identifier → Option (Partition M)) (arrival : Arrival M Identifier) :
    Option ((Identifier → Option (Partition M)) × List (M × Bool)) := do
  let id := arrival.getID
  let part := (partitions id).getD ⟨0, MatrixClass.empty⟩
  let matrix ← MatrixClass.merge_to arrival.tuple part.matrix
  if part.countParts + 1 = numParts then
    return (Function.update partitions id none, [(MatrixClass.move matrix, arrival.outdated)])
  else
    return (Function.update partitions id (some ⟨part.countParts + 1, matrix⟩), [])

end

end PipeFabric
