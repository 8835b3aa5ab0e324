import PipeFabric.Matrix.DenseSlicing
import Mathlib.Data.List.Nodup

/-!
# Merging undoes slicing

Matrices are sliced, their parts arrive in any order, and the parts with the same
identifier are put together.  Dense matrices come back unless they are row vectors with
two cells in one part.  The parts of sparse matrices lose their identifier on the way.
-/

namespace PipeFabric

open ScatterGather (share mem_share select)
open Transducer (tryRun)

/-- The arguments of the constructors, with a function into `0..numParts - 1`. -/
structure Slicing (Cell : Type) where
  numParts : Nat
  sliceFun : Cell → Nat → Nat → Fin numParts
  positive : 0 < numParts

/-- The function of a slicing as `MatrixSlice` calls it. -/
def Slicing.predicate {Cell : Type} (slicing : Slicing Cell) (value : Cell) (i j : Nat) : Nat :=
  slicing.sliceFun value i j

/-- `random_generator` makes another identifier every time. -/
structure Generator (Identifier : Type) where
  generated : Nat → Identifier
  distinct : Function.Injective generated

/-- Whatever order the parts arrive in, and whatever memory holds where an identifier
has no value, the matrices are published again, each one once and with its flag. -/
def MergeUndoesSlice {M Identifier Cell Content : Type} [MatrixClass M Identifier Cell]
    [DecidableEq Identifier] (content : M → Content) (slicing : Slicing Cell)
    (generator : Generator Identifier) (inputs : List (M × Bool)) : Prop :=
  ∃ number parts,
    tryRun (MatrixSlice.step slicing.numParts slicing.predicate generator.generated) 0 inputs =
      some (number, parts) ∧
    ∀ arrivals : List (Arrival M Identifier),
      (arrivals.map fun arrival => (arrival.tuple, arrival.outdated)).Perm parts →
      ∃ partitions outputs,
        tryRun (MatrixMerge.processDataElement slicing.numParts) (fun _ => none) arrivals =
          some (partitions, outputs) ∧
        (outputs.map fun output => (content output.1, output.2)).Perm
          (inputs.map fun input => (content input.1, input.2))

section

variable {M Identifier Cell : Type} [MatrixClass M Identifier Cell] {slicing : Slicing Cell}
  {generator : Generator Identifier} {inputs parts : List (M × Bool)} {number : Nat}

/-- The parts of a matrix with the identifier generated for it. -/
structure GroupOf (slicing : Slicing Cell) (input : M × Bool)
    (group : Identifier × List (M × Bool)) : Prop where
  published : ∃ partitions,
    MatrixClass.slice slicing.numParts slicing.predicate input.1 = some partitions ∧
      group.2 = partitions.map fun m =>
        (MatrixClass.move (MatrixClass.setID m group.1), false)

/-- The groups of the parts of a stream. -/
theorem exists_groups
    (sliced : tryRun (MatrixSlice.step slicing.numParts slicing.predicate generator.generated)
      0 inputs = some (number, parts)) :
    ∃ groups : List (Identifier × List (M × Bool)), (groups.map Prod.fst).Nodup ∧
      List.Forall₂ (GroupOf slicing) inputs groups ∧ parts = groups.flatMap Prod.snd := by
  obtain ⟨groups, keys, pairs, all⟩ := MatrixSlice.tryRun_groups sliced
  refine ⟨groups, ?_, ?_, all⟩
  · rw [keys]
    exact List.Nodup.map generator.distinct (List.nodup_range' 1)
  · apply pairs.imp
    intro input group published
    obtain ⟨partitions, here, same⟩ := Option.bind_eq_some_iff.mp published
    exact ⟨partitions, here, (Option.some.inj same).symm⟩

end

/-! ### Dense matrices -/

namespace DenseMatrix

variable {layout : Layout} {Identifier Cell : Type} {slicing : Slicing Cell}
  {generator : Generator Identifier}
  {inputs parts : List (DenseMatrix layout Identifier Cell × Bool)} {number : Nat}

/-- What is published for a matrix: what the cells read of its parts give. -/
def Restored (slicing : Slicing Cell) (input : DenseMatrix layout Identifier Cell × Bool)
    (merged : DenseMatrix layout Identifier Cell) : Prop :=
  input.1.matrix.Initialized ∧
    ∃ parts cells triplets, slice slicing.numParts slicing.predicate input.1 = some parts ∧
      input.1.cells = some cells ∧ Written triplets merged.matrix ∧
      ∀ triplet, triplet ∈ triplets ↔ ∃ number, triplet ∈ readShare layout
        (share (partOf slicing.sliceFun) cells number)

theorem GroupOf.labelled {input : DenseMatrix layout Identifier Cell × Bool}
    {group : Identifier × List (DenseMatrix layout Identifier Cell × Bool)}
    (belongs : GroupOf slicing input group) (initialized : input.1.matrix.Initialized) :
    Labelled slicing.numParts group := by
  obtain ⟨partitions, sliced, same⟩ := belongs.published
  obtain ⟨_, _, length, _⟩ := slice_spec initialized sliced
  refine ⟨?_, ?_, ?_⟩
  · rw [same, List.length_map, length]
  · intro part member
    rw [same] at member
    obtain ⟨m, _, rfl⟩ := List.mem_map.mp member
    rfl
  · intro part member
    rw [same] at member
    obtain ⟨m, _, rfl⟩ := List.mem_map.mp member
    rfl

/-- Merging the parts of a group in any order. -/
theorem GroupOf.merges {input : DenseMatrix layout Identifier Cell × Bool}
    {group : Identifier × List (DenseMatrix layout Identifier Cell × Bool)}
    (belongs : GroupOf slicing input group) (initialized : input.1.matrix.Initialized)
    {received : List (DenseMatrix layout Identifier Cell)}
    (perm : received.Perm (group.2.map Prod.fst)) :
    ∃ merged, mergeAll empty received = some merged ∧ Restored slicing input merged := by
  obtain ⟨partitions, sliced, same⟩ := belongs.published
  rw [same, List.map_map] at perm
  obtain ⟨merged, cells, triplets, done, visited, written, members⟩ :=
    mergeAll_spec initialized sliced group.1 perm
  exact ⟨merged, done, initialized, partitions, cells, triplets, sliced, visited, written,
    members⟩

variable [DecidableEq Identifier]

/-- What is published for a stream of matrices. -/
theorem published (initialized : ∀ input ∈ inputs, input.1.matrix.Initialized)
    (sliced : tryRun (MatrixSlice.step slicing.numParts slicing.predicate generator.generated)
      0 inputs = some (number, parts))
    {arrivals : List (Arrival (DenseMatrix layout Identifier Cell) Identifier)}
    (perm : (arrivals.map fun arrival => (arrival.tuple, arrival.outdated)).Perm parts) :
    ∃ partitions outputs matrices,
      tryRun (MatrixMerge.processDataElement slicing.numParts) (fun _ => none) arrivals =
        some (partitions, outputs) ∧
      List.Forall₂ (Restored slicing) inputs matrices ∧
      outputs.Perm (matrices.map fun matrix => (matrix.move, false)) := by
  obtain ⟨groups, distinct, belongs, rfl⟩ := exists_groups sliced
  have pairs := (List.forall₂_and_left inputs groups).mpr ⟨initialized, belongs⟩
  have labelled : ∀ group ∈ groups, Labelled slicing.numParts group := by
    intro group member
    obtain ⟨input, _, known, mine⟩ := ListPairs.exists_of_mem_right pairs member
    exact GroupOf.labelled mine known
  have merges : ∀ group ∈ groups, ∀ received, received.Perm (group.2.map Prod.fst) →
      ∃ matrix : DenseMatrix layout Identifier Cell,
        mergeAll MatrixClass.empty received = some matrix := by
    intro group member received order
    obtain ⟨input, _, known, mine⟩ := ListPairs.exists_of_mem_right pairs member
    obtain ⟨merged, done, _⟩ := GroupOf.merges mine known order
    exact ⟨merged, done⟩
  obtain ⟨⟨partitions, outputs⟩, ran⟩ :=
    MatrixMerge.exists_tryRun labelled slicing.positive distinct perm merges
  obtain ⟨matrices, merged, all⟩ :=
    MatrixMerge.published labelled slicing.positive distinct perm ran
  refine ⟨partitions, outputs, matrices, ran, ?_, all⟩
  apply (ListPairs.forall₂_trans pairs merged).imp
  rintro input matrix ⟨group, ⟨known, mine⟩, received, order, done⟩
  obtain ⟨other, same, restored⟩ := GroupOf.merges mine known order
  obtain rfl := Option.some.inj (done.symm.trans same)
  exact restored

/-- Two cells never go to the same part. -/
def OnePerPart (slicing : Slicing Cell) (matrix : EigenMatrix layout Cell) : Prop :=
  ∀ i j value row col other, matrix.coeff i j = some value →
    matrix.coeff row col = some other →
    slicing.sliceFun value i j = slicing.sliceFun other row col → i = row ∧ j = col

/-- The matrices that come back: the number of their rows is dynamic, or they are row
vectors with at most one cell in each part; an empty matrix has neither rows nor
columns. -/
def ComesBack (slicing : Slicing Cell) (matrix : EigenMatrix layout Cell) : Prop :=
  (matrix.rows = 0 ∧ matrix.cols = 0) ∨
    (0 < matrix.rows ∧ 0 < matrix.cols ∧
      (layout.Rows = none ∨ (layout = .fixedRows 1 ∧ OnePerPart slicing matrix)))

omit [DecidableEq Identifier] in
/-- The cells of a part are read as they are when each part has one cell. -/
theorem readShare_eq {input : DenseMatrix layout Identifier Cell × Bool}
    (initialized : input.1.matrix.Initialized) (back : ComesBack slicing input.1.matrix)
    {cells : List (Triplet Cell)} (visited : input.1.cells = some cells) (number : Nat) :
    readShare layout (share (partOf slicing.sliceFun) cells number) =
      share (partOf slicing.sliceFun) cells number := by
  have member : ∀ i j value, (i, j, value) ∈ share (partOf slicing.sliceFun) cells number →
      input.1.matrix.coeff i j = some value ∧
        (slicing.sliceFun value i j : Nat) = number := by
    intro i j value inside
    obtain ⟨among, here⟩ := mem_share.mp inside
    exact ⟨(mem_cells initialized visited i j value).mp among, here⟩
  cases shape : share (partOf slicing.sliceFun) cells number with
  | nil => rfl
  | cons first rest =>
      rw [shape] at member
      rw [readShare]
      split
      · rename_i row
        obtain ⟨i, j, value⟩ := first
        obtain ⟨found, here⟩ := member i j value List.mem_cons_self
        have inside := EigenMatrix.inside_of_coeff found
        rcases back with ⟨rows, _⟩ | ⟨_, _, dynamic | ⟨_, single⟩⟩
        · omega
        · rw [row] at dynamic
          cases dynamic
        · conv_rhs => rw [← List.map_id ((i, j, value) :: rest)]
          apply List.map_congr_left
          rintro ⟨row, col, other⟩ among
          obtain ⟨there, same⟩ := member row col other among
          obtain ⟨rfl, rfl⟩ := single i j value row col other found there
            (Fin.ext (here.trans same.symm))
          rfl
      · rfl

omit [DecidableEq Identifier] in
/-- A matrix that comes back. -/
theorem Restored.eq {input : DenseMatrix layout Identifier Cell × Bool}
    {merged : DenseMatrix layout Identifier Cell} (restored : Restored slicing input merged)
    (back : ComesBack slicing input.1.matrix) : merged.matrix = input.1.matrix := by
  obtain ⟨initialized, parts, cells, triplets, _, visited, written, members⟩ := restored
  apply written.eq _ initialized (back.imp_right fun both => ⟨both.1, both.2.1⟩)
  intro i j value
  rw [members, ← mem_cells initialized visited]
  constructor
  · rintro ⟨number, read⟩
    rw [readShare_eq initialized back visited] at read
    exact (mem_share.mp read).1
  · intro among
    refine ⟨partOf slicing.sliceFun (i, j, value), ?_⟩
    rw [readShare_eq initialized back visited]
    exact mem_share.mpr ⟨among, rfl⟩

omit [DecidableEq Identifier] in
/-- A row vector that comes back has one cell in each part. -/
theorem Restored.onePerPart {input : DenseMatrix layout Identifier Cell × Bool}
    {merged : DenseMatrix layout Identifier Cell} (restored : Restored slicing input merged)
    (row : layout = .fixedRows 1) (complete : merged.matrix.Initialized)
    (cols : merged.matrix.cols = input.1.matrix.cols) :
    OnePerPart slicing input.1.matrix := by
  obtain ⟨initialized, parts, cells, triplets, _, visited, written, members⟩ := restored
  subst row
  -- every cell is the first one of its part
  have first : ∀ i j value, input.1.matrix.coeff i j = some value →
      ∃ other rest, share (partOf slicing.sliceFun) cells (slicing.sliceFun value i j) =
        (i, j, other) :: rest := by
    intro i j value found
    have inside := EigenMatrix.inside_of_coeff found
    have present : i < merged.matrix.rows ∧ j < merged.matrix.cols := by
      have rows : merged.matrix.rows = input.1.matrix.rows :=
        (rows_fixed merged.matrix).trans (rows_fixed input.1.matrix).symm
      exact ⟨rows ▸ inside.1, cols ▸ inside.2⟩
    obtain ⟨other, holds⟩ := complete i j present.1 present.2
    obtain ⟨number, read⟩ := (members _).mp (written.sound i j other holds)
    cases shape : share (partOf slicing.sliceFun) cells number with
    | nil =>
        rw [shape] at read
        cases read
    | cons head rest =>
        obtain ⟨row, col, origin⟩ := head
        rw [shape, readShare, if_pos rfl] at read
        obtain ⟨_, _, same⟩ := List.mem_map.mp read
        cases same
        have mine : (row, col, origin) ∈ share (partOf slicing.sliceFun) cells number := by
          rw [shape]
          exact List.mem_cons_self
        obtain ⟨among, here⟩ := mem_share.mp mine
        have there := (mem_cells initialized visited row col origin).mp among
        obtain rfl := Option.some.inj (found.symm.trans there)
        have number_eq : (slicing.sliceFun value row col : Nat) = number := here
        exact ⟨value, rest, by rw [number_eq, shape]⟩
  intro i j value row col other left right same
  obtain ⟨one, _, left⟩ := first i j value left
  obtain ⟨two, _, right⟩ := first row col other right
  rw [same, right] at left
  obtain ⟨equal, _⟩ := List.cons.inj left
  cases equal
  exact ⟨rfl, rfl⟩

omit [DecidableEq Identifier] in
/-- What is published is not larger than the matrix. -/
theorem Restored.cols_le {input : DenseMatrix layout Identifier Cell × Bool}
    {merged : DenseMatrix layout Identifier Cell} (restored : Restored slicing input merged) :
    merged.matrix.cols ≤ input.1.matrix.cols := by
  obtain ⟨initialized, parts, cells, triplets, _, visited, written, members⟩ := restored
  apply (written.le _).2
  rintro ⟨i, j, value⟩ member
  obtain ⟨number, read⟩ := (members _).mp member
  obtain ⟨⟨row, col, other⟩, mine, rows, cols⟩ := position_of_readShare read
  obtain rfl : i = row := rows
  obtain rfl : j = col := cols
  exact EigenMatrix.inside_of_coeff
    ((mem_cells initialized visited i j other).mp (mem_share.mp mine).1)

omit [DecidableEq Identifier] in
/-- A matrix that comes back whole comes back for a reason. -/
theorem Restored.comesBack {input : DenseMatrix layout Identifier Cell × Bool}
    {merged : DenseMatrix layout Identifier Cell} (restored : Restored slicing input merged)
    (complete : merged.matrix.Initialized)
    (cols : merged.matrix.cols = input.1.matrix.cols) :
    ComesBack slicing input.1.matrix := by
  have whole := restored
  obtain ⟨initialized, parts, _, _, sliced, _⟩ := restored
  refine ((slice_isSome_iff initialized).mp ⟨parts, sliced⟩).imp_right ?_
  rintro ⟨rows, columns, dynamic | row⟩
  · exact ⟨rows, columns, .inl dynamic⟩
  · exact ⟨rows, columns, .inr ⟨row, whole.onePerPart row complete cols⟩⟩

/-- Dense matrices come back together or not at all. -/
theorem mergeUndoesSlice_iff (initialized : ∀ input ∈ inputs, input.1.matrix.Initialized) :
    MergeUndoesSlice DenseMatrix.matrix slicing generator inputs ↔
      ∀ input ∈ inputs, input.2 = false ∧ ComesBack slicing input.1.matrix := by
  constructor
  · rintro ⟨number, parts, sliced, merges⟩
    have perm : ((parts.map fun part =>
        (⟨part.1, part.2, generator.generated 0⟩ : Arrival _ Identifier)).map fun arrival =>
          (arrival.tuple, arrival.outdated)).Perm parts := by
      rw [List.map_map]
      exact .of_eq (List.map_id _)
    obtain ⟨_, outputs, ran, back⟩ := merges _ perm
    obtain ⟨_, others, matrices, again, restored, all⟩ := published initialized sliced perm
    obtain ⟨_, rfl⟩ := Prod.mk.inj (Option.some.inj (ran.symm.trans again))
    have contents := (all.map fun output : DenseMatrix layout Identifier Cell × Bool =>
      (output.1.matrix, output.2)).symm.trans back
    rw [List.map_map] at contents
    have complete : ∀ matrix ∈ matrices, matrix.matrix.Initialized := by
      intro matrix member
      obtain ⟨input, among, same⟩ :=
        List.mem_map.mp (contents.subset (List.mem_map_of_mem member))
      have equal : input.1.matrix = matrix.matrix := congrArg Prod.fst same
      exact equal ▸ initialized input among
    have sum := (contents.map fun output => output.1.cols).sum_nat
    rw [List.map_map, List.map_map] at sum
    have equally := ListPairs.eq_of_sum_eq restored (fun _ _ holds => holds.cols_le) sum
    intro input member
    constructor
    · obtain ⟨matrix, _, same⟩ := List.mem_map.mp
        (contents.symm.subset (List.mem_map_of_mem member))
      exact (congrArg Prod.snd same).symm
    · obtain ⟨matrix, among, holds, cols⟩ := ListPairs.exists_of_mem_left equally member
      exact holds.comesBack (complete matrix among) cols
  · intro back
    have slices : ∀ input ∈ inputs, ∃ partitions,
        MatrixClass.slice slicing.numParts slicing.predicate input.1 = some partitions := by
      intro input member
      apply (slice_isSome_iff (initialized input member)).mpr
      refine (back input member).2.imp_right fun both => ⟨both.1, both.2.1, ?_⟩
      exact both.2.2.imp_right And.left
    obtain ⟨⟨number, parts⟩, sliced⟩ :=
      @MatrixSlice.exists_tryRun _ _ _ _ _ _ generator.generated 0 _ slices
    refine ⟨number, parts, sliced, ?_⟩
    intro arrivals perm
    obtain ⟨partitions, outputs, matrices, ran, restored, all⟩ :=
      published initialized sliced perm
    refine ⟨partitions, outputs, ran, ?_⟩
    have same : (matrices.map fun matrix => (matrix.matrix, false)) =
        inputs.map fun input => (input.1.matrix, input.2) := by
      rw [← List.forall₂_eq_eq_eq, List.forall₂_map_left_iff, List.forall₂_map_right_iff]
      apply List.Forall₂.flip
      apply ((List.forall₂_and_left inputs matrices).mpr ⟨back, restored⟩).imp
      rintro input matrix ⟨⟨recent, comes⟩, holds⟩
      change (matrix.matrix, false) = (input.1.matrix, input.2)
      rw [holds.eq comes, recent]
    rw [← same]
    have contents := all.map fun output : DenseMatrix layout Identifier Cell × Bool =>
      (output.1.matrix, output.2)
    rwa [List.map_map] at contents

end DenseMatrix

/-! ### Sparse matrices -/

namespace SparseMatrix

variable {Identifier Cell : Type} {slicing : Slicing Cell} {generator : Generator Identifier}
  {inputs parts : List (SparseMatrix Identifier Cell × Bool)} {number : Nat}

theorem addAll_some {Entry Part : Type} (add : Entry → Part → Part) (part : Part)
    (entries : List Entry) :
    ScatterGather.addAll (fun entry part => some (add entry part)) part entries =
      some (entries.foldl (fun part entry => add entry part) part) := by
  induction entries generalizing part with
  | nil => rfl
  | cons entry entries induction => exact induction (add entry part)

/-- Which matrices can be sliced. -/
theorem slice_isSome_iff (matrix : SparseMatrix Identifier Cell) :
    (∃ parts, slice slicing.numParts slicing.predicate matrix = some parts) ↔
      0 < matrix.matrix.cols := by
  rw [slice, cells]
  by_cases none : matrix.matrix.cols = 0
  · rw [if_pos none, none]
    exact iff_of_false (by simp) (Nat.lt_irrefl 0)
  · rw [if_neg none]
    refine iff_of_true ?_ (Nat.pos_of_ne_zero none)
    apply ScatterGather.exists_scatter
    · intro triplet _
      rw [List.length_replicate]
      exact (slicing.sliceFun triplet.2.2 triplet.1 triplet.2.1).isLt
    · intro number part _
      exact ⟨_, addAll_some setTriplet part _⟩

/-- The only part of a matrix is the matrix. -/
theorem slice_single (single : slicing.numParts = 1) {matrix : SparseMatrix Identifier Cell}
    {partitions : List (SparseMatrix Identifier Cell)}
    (sliced : slice slicing.numParts slicing.predicate matrix = some partitions) :
    ∃ part, partitions = [part] ∧ part.matrix = matrix.matrix := by
  rw [slice] at sliced
  obtain ⟨cells, visited, scattered⟩ := Option.bind_eq_some_iff.mp sliced
  obtain ⟨length, fills⟩ := ScatterGather.scatter_share scattered
  rw [List.length_replicate, single] at length
  obtain ⟨part, rfl⟩ := List.length_eq_one_iff.mp length
  refine ⟨part, rfl, ?_⟩
  rw [single] at fills
  obtain ⟨filled, here, added⟩ := fills 0 _ rfl
  obtain rfl : part = filled := Option.some.inj here
  have all : share (fun triplet => slicing.predicate triplet.2.2 triplet.1 triplet.2.1) cells 0 =
      cells := by
    apply List.filter_eq_self.mpr
    intro triplet _
    have below := (slicing.sliceFun triplet.2.2 triplet.1 triplet.2.1).isLt
    apply decide_eq_true
    change (slicing.sliceFun triplet.2.2 triplet.1 triplet.2.1 : Nat) = 0
    omega
  rw [all] at added
  have folded := addAll_some setTriplet
    (ofSize matrix.matrix.rows matrix.matrix.cols : SparseMatrix Identifier Cell) cells
  obtain rfl := Option.some.inj (added.symm.trans folded)
  have entries : cells = matrix.matrix.entries := by
    rw [SparseMatrix.cells] at visited
    split at visited
    · cases visited
    · exact (Option.some.inj visited).symm
  subst entries
  obtain ⟨same, rows, cols⟩ := @foldl_setTriplet Identifier Cell
    (ofSize matrix.matrix.rows matrix.matrix.cols) matrix.matrix.entries
    matrix.matrix.ordered matrix.matrix.inside
  exact SparseEigenMatrix.eq_of_entries rows cols same

variable [DecidableEq Identifier]

/-- With one part for each matrix every arrival is published at once. -/
theorem tryRun_single (arrivals : List (Arrival (SparseMatrix Identifier Cell) Identifier)) :
    tryRun (MatrixMerge.processDataElement 1) (fun _ => none) arrivals =
      some (fun _ => none, arrivals.map fun arrival =>
        (move (setMatrix empty arrival.tuple.matrix), arrival.outdated)) := by
  induction arrivals with
  | nil => rfl
  | cons arrival arrivals induction =>
      have step : MatrixMerge.processDataElement 1 (fun _ => none) arrival =
          some (fun _ => none,
            [(move (setMatrix empty arrival.tuple.matrix), arrival.outdated)]) := by
        have forgets : Function.update (fun _ : Identifier =>
            (none : Option (Partition (SparseMatrix Identifier Cell)))) arrival.getID none =
            fun _ => none := Function.update_eq_self arrival.getID _
        simp only [MatrixMerge.processDataElement, Option.getD_none, if_true, forgets]
        rfl
      rw [tryRun, step, Option.bind_some, induction]
      rfl

/-- Nothing is published while no two parts have the same identifier. -/
theorem tryRun_apart {numParts : Nat} (several : numParts ≠ 1)
    {arrivals : List (Arrival (SparseMatrix Identifier Cell) Identifier)}
    {partitions : Identifier → Option (Partition (SparseMatrix Identifier Cell))}
    (fresh : ∀ arrival ∈ arrivals, partitions arrival.getID = none)
    (apart : (arrivals.map Arrival.getID).Nodup) {final : _}
    (ran : tryRun (MatrixMerge.processDataElement numParts) partitions arrivals = some final) :
    final.2 = [] := by
  induction arrivals generalizing partitions final with
  | nil =>
      cases ran
      rfl
  | cons arrival arrivals induction =>
      obtain ⟨here, later⟩ := List.forall_mem_cons.mp fresh
      obtain ⟨other, rest⟩ := List.nodup_cons.mp apart
      have step : MatrixMerge.processDataElement numParts partitions arrival =
          some (Function.update partitions arrival.getID
            (some ⟨1, setMatrix empty arrival.tuple.matrix⟩), []) := by
        have waits : ¬ (0 + 1 = numParts) := fun same => several same.symm
        simp only [MatrixMerge.processDataElement, here, Option.getD_none, if_neg waits]
        rfl
      rw [tryRun, step, Option.bind_some] at ran
      obtain ⟨last, reached, rfl⟩ := Option.map_eq_some_iff.mp ran
      apply induction _ rest reached
      intro next member
      change Function.update partitions arrival.getID _ next.getID = none
      rw [Function.update_of_ne]
      · exact later next member
      · intro same
        exact other (same ▸ List.mem_map_of_mem member)

omit [DecidableEq Identifier] in
/-- The parts of a stream, which have lost their identifiers. -/
theorem parts_spec
    (sliced : tryRun (MatrixSlice.step slicing.numParts slicing.predicate generator.generated)
      0 inputs = some (number, parts)) :
    (∀ input ∈ inputs, 0 < input.1.matrix.cols) ∧
      (∀ part ∈ parts, part.1.id = none ∧ part.2 = false) ∧
      (slicing.numParts = 1 → parts.map (fun part => (part.1.matrix, part.2)) =
        inputs.map fun input => (input.1.matrix, false)) := by
  obtain ⟨groups, -, belongs, rfl⟩ := exists_groups sliced
  clear sliced
  refine ⟨?_, ?_, ?_⟩
  · intro input member
    obtain ⟨group, _, holds⟩ := ListPairs.exists_of_mem_left belongs member
    obtain ⟨partitions, here, _⟩ := holds.published
    exact (slice_isSome_iff input.1).mp ⟨partitions, here⟩
  · intro part member
    obtain ⟨group, among, inside⟩ := List.mem_flatMap.mp member
    obtain ⟨input, _, holds⟩ := ListPairs.exists_of_mem_right belongs among
    obtain ⟨partitions, _, same⟩ := holds.published
    rw [same] at inside
    obtain ⟨m, _, rfl⟩ := List.mem_map.mp inside
    exact ⟨rfl, rfl⟩
  · intro single
    induction belongs with
    | nil => rfl
    | cons here _ induction =>
        obtain ⟨partitions, part, same⟩ := here.published
        obtain ⟨only, rfl, matrix⟩ := slice_single single part
        rw [List.flatMap_cons, same, List.map_append, induction, List.map_cons]
        exact congrArg₂ List.cons (Prod.ext matrix rfl) rfl

/-- Sparse matrices come back only when they are not cut at all. -/
theorem mergeUndoesSlice_iff :
    MergeUndoesSlice SparseMatrix.matrix slicing generator inputs ↔
      ∀ input ∈ inputs, input.2 = false ∧ 0 < input.1.matrix.cols ∧ slicing.numParts = 1 := by
  constructor
  · rintro ⟨number, parts, sliced, merges⟩
    obtain ⟨cols, marks, whole⟩ := parts_spec sliced
    have single : inputs ≠ [] → slicing.numParts = 1 := by
      intro some
      by_contra several
      -- memory holds another value for every part
      have perm : ((parts.zipIdx.map fun part => (⟨part.1.1, part.1.2, generator.generated part.2⟩ :
          Arrival (SparseMatrix Identifier Cell) Identifier)).map fun arrival =>
            (arrival.tuple, arrival.outdated)).Perm parts := by
        rw [List.map_map]
        exact .of_eq (List.zipIdx_map_fst 0 parts)
      obtain ⟨_, outputs, ran, back⟩ := merges _ perm
      have apart : ((parts.zipIdx.map fun part =>
          (⟨part.1.1, part.1.2, generator.generated part.2⟩ :
            Arrival (SparseMatrix Identifier Cell) Identifier)).map Arrival.getID).Nodup := by
        have ids : (parts.zipIdx.map fun part =>
            (⟨part.1.1, part.1.2, generator.generated part.2⟩ :
              Arrival (SparseMatrix Identifier Cell) Identifier)).map Arrival.getID =
            (parts.zipIdx.map Prod.snd).map generator.generated := by
          rw [List.map_map, List.map_map]
          apply List.map_congr_left
          rintro ⟨part, index⟩ member
          have lost := (marks part (List.fst_mem_of_mem_zipIdx member)).1
          change part.1.id.getD _ = _
          rw [lost]
          rfl
        rw [ids, List.zipIdx_map_snd]
        exact List.Nodup.map generator.distinct (List.nodup_range' 1)
      have nothing := tryRun_apart several (fun _ _ => rfl) apart ran
      rw [show outputs = [] from nothing] at back
      exact some (List.map_eq_nil_iff.mp (List.nil_perm.mp back))
    intro input member
    have one := single (List.ne_nil_of_mem member)
    refine ⟨?_, cols input member, one⟩
    have perm : ((parts.map fun part => (⟨part.1, part.2, generator.generated 0⟩ :
        Arrival (SparseMatrix Identifier Cell) Identifier)).map fun arrival =>
          (arrival.tuple, arrival.outdated)).Perm parts := by
      rw [List.map_map]
      exact .of_eq (List.map_id _)
    obtain ⟨_, outputs, ran, back⟩ := merges _ perm
    rw [one, tryRun_single] at ran
    obtain ⟨_, rfl⟩ := Prod.mk.inj (Option.some.inj ran)
    rw [List.map_map, List.map_map] at back
    have same := back.symm.subset (List.mem_map_of_mem member)
    obtain ⟨part, among, equal⟩ := List.mem_map.mp same
    have flag : part.2 = input.2 := (Prod.mk.inj equal).2
    rw [← flag]
    exact (marks part among).2
  · intro back
    have slices : ∀ input ∈ inputs, ∃ partitions,
        MatrixClass.slice slicing.numParts slicing.predicate input.1 = some partitions :=
      fun input member => (slice_isSome_iff input.1).mpr (back input member).2.1
    obtain ⟨⟨number, parts⟩, sliced⟩ :=
      @MatrixSlice.exists_tryRun _ _ _ _ _ _ generator.generated 0 _ slices
    refine ⟨number, parts, sliced, ?_⟩
    intro arrivals perm
    obtain ⟨_, _, whole⟩ := parts_spec sliced
    cases inputs with
    | nil =>
        cases sliced
        obtain rfl := List.map_eq_nil_iff.mp (List.perm_nil.mp perm)
        exact ⟨fun _ => none, [], rfl, .refl _⟩
    | cons input inputs =>
        have one := (back input List.mem_cons_self).2.2
        refine ⟨_, _, one ▸ tryRun_single arrivals, ?_⟩
        have recent : ((input :: inputs).map fun input => (input.1.matrix, false)) =
            (input :: inputs).map fun input => (input.1.matrix, input.2) := by
          apply List.map_congr_left
          intro other member
          rw [(back other member).1]
        rw [← recent, ← whole one, List.map_map]
        have contents := perm.map fun part : SparseMatrix Identifier Cell × Bool =>
          (part.1.matrix, part.2)
        rwa [List.map_map] at contents

end SparseMatrix

/-! ### All matrices -/

/-- A dense matrix whose cells all have values. -/
structure DenseInput (layout : Layout) (Identifier Cell : Type) extends
    DenseMatrix layout Identifier Cell where
  initialized : matrix.Initialized

/-- What goes through both operators and comes back: recent matrices, dense ones whose
number of rows is dynamic, row vectors with at most one cell in each part, and sparse
ones that are not cut. -/
theorem matrixMerge_undoes_matrixSlice {Identifier Cell : Type} [DecidableEq Identifier]
    (slicing : Slicing Cell) (generator : Generator Identifier) :
    (∀ (layout : Layout) (inputs : List (DenseInput layout Identifier Cell × Bool)),
      MergeUndoesSlice DenseMatrix.matrix slicing generator
          (inputs.map fun input => (input.1.toDenseMatrix, input.2)) ↔
        ∀ input ∈ inputs, input.2 = false ∧
          DenseMatrix.ComesBack slicing input.1.matrix) ∧
    ∀ inputs : List (SparseMatrix Identifier Cell × Bool),
      MergeUndoesSlice SparseMatrix.matrix slicing generator inputs ↔
        ∀ input ∈ inputs, input.2 = false ∧ 0 < input.1.matrix.cols ∧
          slicing.numParts = 1 := by
  constructor
  · intro layout inputs
    rw [DenseMatrix.mergeUndoesSlice_iff, List.forall_mem_map]
    intro input member
    obtain ⟨origin, _, rfl⟩ := List.mem_map.mp member
    exact origin.1.initialized
  · intro inputs
    exact SparseMatrix.mergeUndoesSlice_iff

/-- Every cell in the same part. -/
def uncut : Slicing Nat := ⟨1, fun _ _ _ => ⟨0, Nat.one_pos⟩, Nat.one_pos⟩

/-- Even and odd rows. -/
def halves : Slicing Nat := ⟨2, fun _ i _ => ⟨i % 2, Nat.mod_lt i Nat.two_pos⟩, Nat.two_pos⟩

theorem twoCells_outside :
    ∀ i j, 1 ≤ i ∨ 2 ≤ j → (if i < 1 ∧ j < 2 then some j else none) = (none : Option Nat) := by
  intro i j beyond
  rw [if_neg]
  omega

/-- The row vector with the cells 0 and 1. -/
def twoCells : DenseMatrix (.fixedRows 1) Nat Nat where
  matrix :=
    { rows := 1
      cols := 2
      coeff := fun i j => if i < 1 ∧ j < 2 then some j else none
      admitted := ⟨rfl, rfl⟩
      outside := twoCells_outside }
  id := none
  incidentIndexes := []

theorem twoCells_initialized : twoCells.matrix.Initialized := by
  intro i j row col
  exact ⟨j, if_pos ⟨row, col⟩⟩

/-- A row vector with two cells in one part, a sparse matrix in two parts and a matrix
that is outdated do not come back. -/
theorem not_mergeUndoesSlice :
    ¬ MergeUndoesSlice DenseMatrix.matrix uncut ⟨id, Function.injective_id⟩
        [(twoCells, false)] ∧
    ¬ MergeUndoesSlice SparseMatrix.matrix halves ⟨id, Function.injective_id⟩
        [((SparseMatrix.ofSize 1 1 : SparseMatrix Nat Nat), false)] ∧
    ¬ MergeUndoesSlice SparseMatrix.matrix uncut ⟨id, Function.injective_id⟩
        [((SparseMatrix.ofSize 1 1 : SparseMatrix Nat Nat), true)] := by
  refine ⟨?_, ?_, ?_⟩
  · rw [DenseMatrix.mergeUndoesSlice_iff]
    · intro back
      rcases (back _ List.mem_cons_self).2 with ⟨rows, _⟩ | ⟨_, _, dynamic | ⟨_, single⟩⟩
      · cases rows
      · cases dynamic
      · have same := single 0 0 0 0 1 1 rfl rfl rfl
        cases same.2
    · intro input member
      rw [List.mem_singleton.mp member]
      exact twoCells_initialized
  · rw [SparseMatrix.mergeUndoesSlice_iff]
    intro back
    cases (back _ List.mem_cons_self).2.2
  · rw [SparseMatrix.mergeUndoesSlice_iff]
    intro back
    cases (back _ List.mem_cons_self).1

end PipeFabric
