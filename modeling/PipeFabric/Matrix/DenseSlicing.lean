import PipeFabric.Matrix.DenseParts
import PipeFabric.Qop.MatrixMerge

/-!
# Slices of dense matrices

What `slice` makes of a matrix, and what becomes of the parts when they are put
together again in any order.
-/

namespace PipeFabric

namespace DenseMatrix

open ScatterGather (addAll addAll_cons exists_addAll scatter scatter_share exists_scatter share
  mem_share)

variable {layout : Layout} {Identifier Cell : Type}

/-- `set` for a cell with its position. -/
def setTriplet (triplet : Triplet Cell) (this : DenseMatrix layout Identifier Cell) :
    Option (DenseMatrix layout Identifier Cell) :=
  this.set triplet.1 triplet.2.1 triplet.2.2

/-! ### What is read of a part -/

/-- Merging the part sets these cells. -/
def Reads (part : DenseMatrix layout Identifier Cell) (triplets : List (Triplet Cell)) :
    Prop :=
  ∀ dstMat, merge_to part dstMat = addAll setTriplet dstMat triplets

theorem addAll_concat (part : DenseMatrix layout Identifier Cell)
    (triplets : List (Triplet Cell)) (last : Triplet Cell) :
    addAll setTriplet part (triplets ++ [last]) =
      (addAll setTriplet part triplets).bind (setTriplet last) := by
  rw [addAll, List.foldlM_append]
  simp [addAll]

theorem addAll_append (part : DenseMatrix layout Identifier Cell)
    (triplets later : List (Triplet Cell)) :
    addAll setTriplet part (triplets ++ later) =
      (addAll setTriplet part triplets).bind fun extended =>
        addAll setTriplet extended later := by
  rw [addAll, List.foldlM_append]
  rfl

theorem foldlM_range (part : DenseMatrix layout Identifier Cell)
    {triplets : List (Triplet Cell)}
    (each : ∀ index triplet, triplets[index]? = some triplet →
      part.getIncident index = some triplet)
    (dstMat : DenseMatrix layout Identifier Cell) :
    (List.range triplets.length).foldlM
        (fun dstMat i => do
          let triple ← part.getIncident i
          dstMat.set triple.1 triple.2.1 triple.2.2) dstMat =
      addAll setTriplet dstMat triplets := by
  induction triplets using List.reverseRecOn with
  | nil => rfl
  | append_singleton triplets last induction =>
      have earlier : ∀ index triplet, triplets[index]? = some triplet →
          part.getIncident index = some triplet := by
        intro index triplet here
        apply each
        rw [List.getElem?_append_left (List.getElem?_eq_some_iff.mp here).1]
        exact here
      have newest := each triplets.length last List.getElem?_concat_length
      rw [List.length_append, List.length_singleton, List.range_succ, List.foldlM_append,
        induction earlier, addAll_concat]
      simp [newest]
      rfl

theorem reads_of_getIncident {part : DenseMatrix layout Identifier Cell}
    {triplets : List (Triplet Cell)} (count : part.getCountIncidents = triplets.length)
    (each : ∀ index triplet, triplets[index]? = some triplet →
      part.getIncident index = some triplet) : Reads part triplets := by
  intro dstMat
  rw [merge_to, count]
  exact foldlM_range part each dstMat

/-- The cells of a part as they are read of it. -/
def readShare (layout : Layout) : List (Triplet Cell) → List (Triplet Cell)
  | [] => []
  | first :: rest =>
      if layout = .fixedRows 1 then
        (first :: rest).map fun triplet => (first.1, first.2.1, triplet.2.2)
      else first :: rest

theorem readShare_dynamicRows {Cols : Option Nat} (triplets : List (Triplet Cell)) :
    readShare (.dynamicRows Cols) triplets = triplets := by
  cases triplets with
  | nil => rfl
  | cons first rest =>
      rw [readShare, if_neg]
      intro same
      cases same

theorem HoldsColumn.reads {Cols : Option Nat} {triplets : List (Triplet Cell)}
    {part : DenseMatrix (.dynamicRows Cols) Identifier Cell}
    (holds : HoldsColumn triplets part) : Reads part triplets := by
  apply reads_of_getIncident
  · rw [getCountIncidents, holds.positions, List.length_map]
  · exact fun index triplet here => holds.getIncident here

theorem HoldsRow.reads {triplets : List (Triplet Cell)}
    {part : DenseMatrix (.fixedRows 1) Identifier Cell} (holds : HoldsRow triplets part) :
    Reads part (readShare (.fixedRows 1) triplets) := by
  cases triplets with
  | nil =>
      apply reads_of_getIncident
      · rw [getCountIncidents, holds.positions]
        rfl
      · intro index triplet here
        cases here
  | cons first rest =>
      rw [readShare, if_pos rfl]
      apply reads_of_getIncident
      · rw [getCountIncidents, holds.positions, List.length_map, List.length_map]
      · intro index triplet here
        rw [List.getElem?_map, Option.map_eq_some_iff] at here
        obtain ⟨origin, there, rfl⟩ := here
        exact holds.getIncident there

/-! ### The parts of a matrix -/

/-- The number of the part of a cell. -/
def partOf {numParts : Nat} (sliceFun : Cell → Nat → Nat → Fin numParts)
    (triplet : Triplet Cell) : Nat :=
  sliceFun triplet.2.2 triplet.1 triplet.2.1

section

variable {numParts : Nat} {sliceFun : Cell → Nat → Nat → Fin numParts}
  {matrix : DenseMatrix layout Identifier Cell}

theorem slice_eq (cells : List (Triplet Cell)) (visited : matrix.cells = some cells) :
    slice numParts (fun value i j => sliceFun value i j) matrix =
      scatter (partOf sliceFun) addTriplet (List.replicate numParts empty) cells := by
  rw [slice, visited]
  rfl

theorem partOf_lt (triplet : Triplet Cell) : partOf sliceFun triplet < numParts :=
  (sliceFun triplet.2.2 triplet.1 triplet.2.1).isLt

/-- An empty part has nothing to be read, whatever its type. -/
theorem reads_empty : Reads (empty : DenseMatrix layout Identifier Cell) [] := by
  apply reads_of_getIncident rfl
  intro index triplet here
  cases here

/-- Cells can be added to parts of these types, and can be read of them afterwards. -/
theorem exists_addAll_empty {triplets : List (Triplet Cell)}
    (fits : triplets ≠ [] →
      (layout.Rows = none ∨ layout = .fixedRows 1) ∧ layout.Cols ≠ some 0) :
    ∃ part : DenseMatrix layout Identifier Cell,
      addAll addTriplet empty triplets = some part ∧ Reads part (readShare layout triplets) := by
  by_cases none : triplets = []
  · subst none
    exact ⟨empty, rfl, reads_empty⟩
  · obtain ⟨holds, cols⟩ := fits none
    cases layout with
    | dynamicRows Cols =>
        obtain ⟨part, filled, column⟩ := exists_addAll HoldsColumn
          (fun seen part triplet _ before => HoldsColumn.add before cols triplet)
          (holdsColumn_empty : HoldsColumn [] (empty : DenseMatrix _ Identifier Cell))
        rw [readShare_dynamicRows]
        exact ⟨part, filled, column.reads⟩
    | fixedRows Rows =>
        rcases holds with dynamic | same
        · cases dynamic
        · cases same
          obtain ⟨part, filled, row⟩ := exists_addAll HoldsRow
            (fun seen part triplet _ before => HoldsRow.add before triplet)
            (holdsRow_empty : HoldsRow [] (empty : DenseMatrix _ Identifier Cell))
          exact ⟨part, filled, row.reads⟩

/-- No cell can be added to parts of other types. -/
theorem holds_of_addAll {triplets : List (Triplet Cell)} {triplet : Triplet Cell}
    (member : triplet ∈ triplets) {part : DenseMatrix layout Identifier Cell}
    (filled : addAll addTriplet empty triplets = some part) :
    layout.Rows = none ∨ layout = .fixedRows 1 := by
  cases layout with
  | dynamicRows Cols => exact .inl rfl
  | fixedRows Rows =>
      by_cases row : Rows = 1
      · exact .inr (congrArg _ row)
      · cases triplets with
        | nil => cases member
        | cons first rest =>
            rw [addAll_cons, addTriplet_fixedRows row] at filled
            cases filled

/-- A matrix with a cell has columns. -/
theorem cols_of_coeff {i j : Nat} {value : Cell}
    (holds : matrix.matrix.coeff i j = some value) : layout.Cols ≠ some 0 := by
  intro none
  have fixed := matrix.matrix.admitted.2
  rw [none, Option.getD_some] at fixed
  have inside := EigenMatrix.inside_of_coeff holds
  omega

theorem getElem?_replicate_part {number : Nat} {part : DenseMatrix layout Identifier Cell}
    (here : (List.replicate numParts empty)[number]? = some part) : part = empty :=
  List.eq_of_mem_replicate (List.mem_of_getElem? here)

/-- Which matrices can be sliced. -/
theorem slice_isSome_iff (initialized : matrix.matrix.Initialized) :
    (∃ parts, slice numParts (fun value i j => sliceFun value i j) matrix = some parts) ↔
      (matrix.matrix.rows = 0 ∧ matrix.matrix.cols = 0) ∨
        (0 < matrix.matrix.rows ∧ 0 < matrix.matrix.cols ∧
          (layout.Rows = none ∨ layout = .fixedRows 1)) := by
  constructor
  · rintro ⟨parts, sliced⟩
    have visits : ∃ cells, matrix.cells = some cells := by
      rw [slice] at sliced
      obtain ⟨cells, visited, _⟩ := Option.bind_eq_some_iff.mp sliced
      exact ⟨cells, visited⟩
    obtain ⟨cells, visited⟩ := visits
    refine ((cells_isSome_iff initialized).mp ⟨cells, visited⟩).imp_right ?_
    rintro ⟨rows, cols⟩
    refine ⟨rows, cols, ?_⟩
    obtain ⟨value, first⟩ := initialized 0 0 rows cols
    have member := (mem_cells initialized visited 0 0 value).mpr first
    rw [slice_eq cells visited] at sliced
    obtain ⟨_, fills⟩ := scatter_share sliced
    have there : (List.replicate numParts (empty : DenseMatrix layout Identifier Cell))[
        partOf sliceFun (0, 0, value)]? = some empty := by
      rw [List.getElem?_replicate, if_pos (partOf_lt _)]
    obtain ⟨part, _, filled⟩ := fills _ _ there
    exact holds_of_addAll (mem_share.mpr ⟨member, rfl⟩) filled
  · intro fits
    obtain ⟨cells, visited⟩ := (cells_isSome_iff initialized).mpr
      (fits.imp_right fun both => ⟨both.1, both.2.1⟩)
    rw [slice_eq cells visited]
    apply exists_scatter
    · intro triplet _
      rw [List.length_replicate]
      exact partOf_lt triplet
    · intro number part here
      obtain rfl := getElem?_replicate_part here
      have types : share (partOf sliceFun) cells number ≠ [] →
          (layout.Rows = none ∨ layout = .fixedRows 1) ∧ layout.Cols ≠ some 0 := by
        intro some
        obtain ⟨⟨i, j, value⟩, member⟩ := List.exists_mem_of_ne_nil _ some
        have found := (mem_cells initialized visited i j value).mp (mem_share.mp member).1
        have inside := EigenMatrix.inside_of_coeff found
        refine ⟨?_, cols_of_coeff found⟩
        rcases fits with ⟨rows, _⟩ | ⟨_, _, holds⟩
        · omega
        · exact holds
      obtain ⟨filled, added, _⟩ := exists_addAll_empty types
      exact ⟨filled, added⟩

/-- What the parts of a matrix are. -/
theorem slice_spec (initialized : matrix.matrix.Initialized)
    {parts : List (DenseMatrix layout Identifier Cell)}
    (sliced : slice numParts (fun value i j => sliceFun value i j) matrix = some parts) :
    ∃ cells, matrix.cells = some cells ∧ parts.length = numParts ∧
      ∀ number part, parts[number]? = some part →
        Reads part (readShare layout (share (partOf sliceFun) cells number)) := by
  have original := sliced
  rw [slice] at sliced
  obtain ⟨cells, visited, _⟩ := Option.bind_eq_some_iff.mp sliced
  rw [slice_eq cells visited] at original
  obtain ⟨length, fills⟩ := scatter_share original
  rw [List.length_replicate] at length
  refine ⟨cells, visited, length, ?_⟩
  intro number part here
  have within : number < numParts := length ▸ (List.getElem?_eq_some_iff.mp here).1
  have there : (List.replicate numParts (empty : DenseMatrix layout Identifier Cell))[
      number]? = some empty := by
    rw [List.getElem?_replicate, if_pos within]
  obtain ⟨filled, same, added⟩ := fills _ _ there
  obtain rfl := Option.some.inj (here.symm.trans same)
  have types : share (partOf sliceFun) cells number ≠ [] →
      (layout.Rows = none ∨ layout = .fixedRows 1) ∧ layout.Cols ≠ some 0 := by
    intro some
    obtain ⟨⟨i, j, value⟩, member⟩ := List.exists_mem_of_ne_nil _ some
    have found := (mem_cells initialized visited i j value).mp (mem_share.mp member).1
    exact ⟨holds_of_addAll member added, cols_of_coeff found⟩
  obtain ⟨other, again, reads⟩ := exists_addAll_empty types
  obtain rfl := Option.some.inj (added.symm.trans again)
  exact reads

/-! ### The parts put together again -/

/-- What is read has the position of a cell of the part. -/
theorem position_of_readShare {triplets : List (Triplet Cell)} {triplet : Triplet Cell}
    (member : triplet ∈ readShare layout triplets) :
    ∃ origin ∈ triplets, triplet.1 = origin.1 ∧ triplet.2.1 = origin.2.1 := by
  cases triplets with
  | nil => cases member
  | cons first rest =>
      rw [readShare] at member
      split at member
      · obtain ⟨_, _, rfl⟩ := List.mem_map.mp member
        exact ⟨first, List.mem_cons_self, rfl, rfl⟩
      · exact ⟨triplet, member, rfl, rfl⟩

/-- Fixed numbers of rows and columns leave room for the cells of a matrix of the same
type. -/
theorem fits_of_inside (part : DenseMatrix layout Identifier Cell) {i j : Nat}
    (inside : i < matrix.matrix.rows ∧ j < matrix.matrix.cols) :
    (layout.Rows = none ∨ i < part.matrix.rows) ∧
      (layout.Cols = none ∨ j < part.matrix.cols) := by
  have same : ∀ {fixed : Option Nat} {size other : Nat}, fixed.getD size = size →
      fixed.getD other = other → fixed = none ∨ size = other := by
    intro fixed size other left right
    cases fixed with
    | none => exact .inl rfl
    | some number => exact .inr (left.symm.trans right)
  obtain ⟨rows, cols⟩ := matrix.matrix.admitted
  obtain ⟨partRows, partCols⟩ := part.matrix.admitted
  constructor
  · exact (same rows partRows).imp_right (Nat.lt_of_lt_of_eq inside.1)
  · exact (same cols partCols).imp_right (Nat.lt_of_lt_of_eq inside.2)

theorem mergeAll_eq {parts : List (DenseMatrix layout Identifier Cell)}
    {shares : List (List (Triplet Cell))} (reads : List.Forall₂ Reads parts shares)
    (dstMat : DenseMatrix layout Identifier Cell) :
    mergeAll dstMat parts = addAll setTriplet dstMat shares.flatten := by
  induction reads generalizing dstMat with
  | nil => rfl
  | cons here _ induction =>
      rw [mergeAll_cons, List.flatten_cons, addAll_append]
      change (merge_to _ dstMat).bind _ = _
      rw [here]
      congr 1
      funext extended
      exact induction extended

/-- The parts of a matrix in any order give the cells that are read of them. -/
theorem mergeAll_spec (initialized : matrix.matrix.Initialized)
    {parts : List (DenseMatrix layout Identifier Cell)}
    (sliced : slice numParts (fun value i j => sliceFun value i j) matrix = some parts)
    (id : Identifier) {received : List (DenseMatrix layout Identifier Cell)}
    (perm : received.Perm (parts.map fun part => (part.setID id).move)) :
    ∃ merged cells triplets, mergeAll empty received = some merged ∧
      matrix.cells = some cells ∧ Written triplets merged.matrix ∧
      ∀ triplet, triplet ∈ triplets ↔
        ∃ number, triplet ∈ readShare layout (share (partOf sliceFun) cells number) := by
  obtain ⟨cells, visited, length, spec⟩ := slice_spec initialized sliced
  have pairs : List.Forall₂ Reads (parts.map fun part => (part.setID id).move)
      ((List.range numParts).map fun number =>
        readShare layout (share (partOf sliceFun) cells number)) := by
    apply List.forall₂_iff_get.mpr
    refine ⟨by simp [length], ?_⟩
    intro index left right
    rw [List.length_map] at left
    have here : parts[index]? = some parts[index] := List.getElem?_eq_getElem left
    have reads : Reads ((parts[index].setID id).move)
        (readShare layout (share (partOf sliceFun) cells index)) :=
      spec index parts[index] here
    simpa using reads
  obtain ⟨shares, reads, order⟩ := List.perm_comp_forall₂ perm pairs
  have members : ∀ triplet, triplet ∈ shares.flatten ↔
      ∃ number, triplet ∈ readShare layout (share (partOf sliceFun) cells number) := by
    intro triplet
    rw [List.mem_flatten]
    constructor
    · rintro ⟨triplets, listed, member⟩
      obtain ⟨number, _, rfl⟩ := List.mem_map.mp (order.subset listed)
      exact ⟨number, member⟩
    · rintro ⟨number, member⟩
      obtain ⟨origin, mine, _⟩ := position_of_readShare member
      have within : number < numParts := (mem_share.mp mine).2 ▸ partOf_lt origin
      exact ⟨_, order.symm.subset (List.mem_map_of_mem (List.mem_range.mpr within)), member⟩
  have takes : ∀ seen (part : DenseMatrix layout Identifier Cell) triplet,
      triplet ∈ shares.flatten → Written seen part.matrix →
      ∃ after, setTriplet triplet part = some after ∧
        Written (seen ++ [triplet]) after.matrix := by
    rintro seen part ⟨i, j, value⟩ member written
    obtain ⟨number, read⟩ := (members _).mp member
    obtain ⟨⟨row, col, other⟩, mine, rows, cols⟩ := position_of_readShare read
    have found := (mem_cells initialized visited row col other).mp (mem_share.mp mine).1
    have inside : i < matrix.matrix.rows ∧ j < matrix.matrix.cols := by
      obtain rfl : i = row := rows
      obtain rfl : j = col := cols
      exact EigenMatrix.inside_of_coeff found
    obtain ⟨after, done⟩ : ∃ after, part.set i j value = some after :=
      set_isSome_iff.mpr (fits_of_inside part inside)
    exact ⟨after, done, written.set done⟩
  have initially : Written [] (empty : DenseMatrix layout Identifier Cell).matrix :=
    written_empty
  obtain ⟨merged, folded, written⟩ := exists_addAll
    (fun seen (part : DenseMatrix layout Identifier Cell) => Written seen part.matrix) takes
    initially
  refine ⟨merged, cells, shares.flatten, ?_, visited, written, members⟩
  rw [mergeAll_eq reads]
  exact folded

end

end DenseMatrix

end PipeFabric
