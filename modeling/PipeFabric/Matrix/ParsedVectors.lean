import PipeFabric.Matrix.VectorParser

/-!
# Which texts become the vectors they spell

The last number counts only with a blank behind it.  A sparse vector has the right size
only for the sizes that it grows through, and the numbers stored before it grew last are
gone.
-/

namespace PipeFabric

open NumberStream

namespace VectorParser

variable {Identifier : Type}

/-- The places of a vector hold these values and no others. -/
structure HoldsValues (size : Nat) (place : Nat → Option Int) (values : List Int) : Prop where
  size : size = values.length
  places : ∀ i value, values[i]? = some value → place i = some value

theorem HoldsValues.concat {size : Nat} {place after : Nat → Option Int} {values : List Int}
    (holds : HoldsValues size place values) {value : Int}
    (stored : ∀ i, after i = if i = values.length then some value else place i) :
    HoldsValues (size + 1) after (values ++ [value]) where
  size := by rw [holds.size, List.length_append, List.length_singleton]
  places := by
    intro i other found
    rw [stored]
    by_cases new : i = values.length
    · rw [new, List.getElem?_concat_length] at found
      rw [if_pos new, found]
    · have inside := (List.getElem?_eq_some_iff.mp found).1
      rw [List.length_append, List.length_singleton] at inside
      rw [List.getElem?_append_left (by omega)] at found
      rw [if_neg new, holds.places i other found]

/-- The last number is stored if and only if there is a blank behind it. -/
theorem HoldsValues.values_iff {size : Nat} {place : Nat → Option Int}
    {fields : Fields lowest highest} (separated : fields.Separated)
    (holds : HoldsValues size place fields.ended) :
    HoldsValues size place fields.values ↔ fields.Ended := by
  constructor
  · intro right
    by_contra touching
    obtain ⟨last, all⟩ := Fields.ended_of_not separated touching
    have sizes := holds.size.symm.trans right.size
    rw [all, List.length_append, List.length_singleton] at sizes
    omega
  · intro ended
    rwa [← Fields.ended_eq_values separated ended]

/-! ### Dense vectors -/

def RowHolds (values : List Int) (vector : DenseMatrix (.fixedRows 1) Identifier Int) : Prop :=
  vector.matrix.rows = 1 ∧
    HoldsValues vector.matrix.cols (fun j => vector.matrix.coeff 0 j) values

def ColumnHolds (values : List Int)
    (vector : DenseMatrix (.dynamicRows (some 1)) Identifier Int) : Prop :=
  vector.matrix.cols = 1 ∧
    HoldsValues vector.matrix.rows (fun i => vector.matrix.coeff i 0) values

theorem rowHolds_empty :
    RowHolds [] (DenseMatrix.empty : DenseMatrix (.fixedRows 1) Identifier Int) :=
  ⟨rfl, rfl, fun _ _ found => by cases found⟩

theorem columnHolds_empty :
    ColumnHolds [] (DenseMatrix.empty : DenseMatrix (.dynamicRows (some 1)) Identifier Int) :=
  ⟨rfl, rfl, fun _ _ found => by cases found⟩

theorem storeRow_step (seen : List Int) (value : Int)
    (vector : DenseMatrix (.fixedRows 1) Identifier Int) (before : RowHolds seen vector) :
    ∃ after, storeRow seen.length value vector = some after ∧
      RowHolds (seen ++ [value]) after := by
  obtain ⟨one, holds⟩ := before
  have there : 0 < vector.matrix.rows := by omega
  have grows : ∃ after, vector.set 0 seen.length value = some after :=
    DenseMatrix.set_isSome_iff.mpr ⟨.inr there, .inl rfl⟩
  obtain ⟨after, done⟩ := grows
  obtain ⟨rows, cols, cells, _⟩ := DenseMatrix.set_spec done
  rw [if_neg (Nat.not_le.mpr there)] at rows
  rw [if_pos (Nat.le_of_eq holds.size), ← holds.size] at cols
  refine ⟨after, done, rows.trans one, ?_⟩
  rw [cols]
  apply holds.concat
  intro j
  rw [cells]
  exact if_congr (and_iff_right rfl) rfl rfl

theorem storeColumn_step (seen : List Int) (value : Int)
    (vector : DenseMatrix (.dynamicRows (some 1)) Identifier Int)
    (before : ColumnHolds seen vector) :
    ∃ after, storeColumn seen.length value vector = some after ∧
      ColumnHolds (seen ++ [value]) after := by
  obtain ⟨one, holds⟩ := before
  have there : 0 < vector.matrix.cols := by omega
  have grows : ∃ after, vector.set seen.length 0 value = some after :=
    DenseMatrix.set_isSome_iff.mpr ⟨.inl rfl, .inr there⟩
  obtain ⟨after, done⟩ := grows
  obtain ⟨rows, cols, cells, _⟩ := DenseMatrix.set_spec done
  rw [if_neg (Nat.not_le.mpr there)] at cols
  rw [if_pos (Nat.le_of_eq holds.size), ← holds.size] at rows
  refine ⟨after, done, cols.trans one, ?_⟩
  rw [rows]
  apply holds.concat
  intro i
  rw [cells]
  exact if_congr (and_iff_left rfl) rfl rfl

theorem parsesRow_iff {fields : Fields lowest highest} (separated : fields.Separated) :
    (∃ result : DenseMatrix (.fixedRows 1) Identifier Int,
        ParsesRow fields.text result ∧ RowHolds fields.values result) ↔ fields.Ended := by
  obtain ⟨result, returned, one, holds⟩ :=
    returns_fields (@storeRow_step Identifier) rowHolds_empty separated
  constructor
  · rintro ⟨other, again, right⟩
    obtain rfl := returned.eq again
    exact (holds.values_iff separated).mp right.2
  · intro ended
    exact ⟨result, returned, one, (holds.values_iff separated).mpr ended⟩

theorem parsesColumn_iff {fields : Fields lowest highest} (separated : fields.Separated) :
    (∃ result : DenseMatrix (.dynamicRows (some 1)) Identifier Int,
        ParsesColumn fields.text result ∧ ColumnHolds fields.values result) ↔
      fields.Ended := by
  obtain ⟨result, returned, one, holds⟩ :=
    returns_fields (@storeColumn_step Identifier) columnHolds_empty separated
  constructor
  · rintro ⟨other, again, right⟩
    obtain rfl := returned.eq again
    exact (holds.values_iff separated).mp right.2
  · intro ended
    exact ⟨result, returned, one, (holds.values_iff separated).mpr ended⟩

/-! ### Sparse vectors -/

/-- The size of a sparse vector that grew this often. -/
def capacity : Nat → Nat
  | 0 => 50
  | growths + 1 => capacity growths * 3 / 2

/-- The number of values that were lost when the vector grew. -/
def lost : Nat → Nat
  | 0 => 0
  | growths + 1 => capacity growths

theorem le_capacity (growths : Nat) : 50 ≤ capacity growths := by
  induction growths with
  | zero => exact Nat.le_refl _
  | succ growths induction =>
      rw [capacity]
      omega

theorem capacity_succ (growths : Nat) : capacity growths + 2 ≤ capacity (growths + 1) := by
  have large := le_capacity growths
  rw [capacity]
  omega

theorem capacity_mono {fewer more : Nat} (le : fewer ≤ more) :
    capacity fewer ≤ capacity more := by
  induction le with
  | refl => exact Nat.le_refl _
  | @step size _ induction =>
      have next := capacity_succ size
      rw [Nat.succ_eq_add_one]
      omega

/-- What is known of a sparse vector after these values were stored. -/
structure Grown (growths : Nat) (values : List Int) (vector : SparseVector) : Prop where
  size : vector.size = capacity growths
  fits : values.length ≤ capacity growths
  needed : growths = 0 ∨ lost growths < values.length
  coeff : ∀ i, vector.coeff i = if lost growths ≤ i then values.getD i 0 else 0

theorem getD_concat (values : List Int) (value : Int) (i : Nat) :
    (values ++ [value]).getD i 0 =
      if i = values.length then value else values.getD i 0 := by
  rw [List.getD_eq_getElem?_getD, List.getD_eq_getElem?_getD]
  split
  · rename_i last
    rw [last, List.getElem?_concat_length]
    rfl
  · by_cases inside : i < values.length
    · rw [List.getElem?_append_left inside]
    · rw [List.getElem?_eq_none (by rw [List.length_append, List.length_singleton]; omega),
        List.getElem?_eq_none (by omega)]

theorem grown_empty : Grown 0 [] (.resize 50) where
  size := rfl
  fits := Nat.zero_le _
  needed := .inl rfl
  coeff i := (if_pos (Nat.zero_le i)).symm

def SparseGrown (values : List Int) (vector : SparseVector) : Prop :=
  ∃ growths, Grown growths values vector

theorem storeSparse_step (seen : List Int) (value : Int) (vector : SparseVector)
    (before : SparseGrown seen vector) :
    ∃ after, storeSparse seen.length value vector = some after ∧
      SparseGrown (seen ++ [value]) after := by
  obtain ⟨growths, grown⟩ := before
  have length : (seen ++ [value]).length = seen.length + 1 := by
    rw [List.length_append, List.length_singleton]
  by_cases full : vector.size ≤ seen.length
  · have same : seen.length = capacity growths := by
      have fits := grown.fits
      have size := grown.size
      omega
    have larger := capacity_succ growths
    have inside : seen.length < (SparseVector.resize (vector.size * 3 / 2)).size := by
      change _ < vector.size * 3 / 2
      rw [grown.size]
      rw [capacity] at larger
      omega
    obtain ⟨after, done, size, coeff⟩ := SparseVector.assign_eq_some inside value
    have resized : after.size = capacity (growths + 1) := by
      rw [size, capacity, ← grown.size]
      rfl
    refine ⟨after, ?_, growths + 1, resized, ?_, .inr ?_, ?_⟩
    · rw [storeSparse, if_pos full, done]
    · rw [length]
      omega
    · rw [length, lost]
      omega
    · intro i
      rw [coeff, getD_concat, lost, ← same]
      change (if i = seen.length then value else 0) = _
      by_cases new : i = seen.length
      · rw [if_pos new, if_pos new, if_pos (Nat.le_of_eq new.symm)]
      · rw [if_neg new, if_neg new, List.getD_eq_getElem?_getD]
        split
        · rw [List.getElem?_eq_none (by omega)]
          rfl
        · rfl
  · obtain ⟨after, done, size, coeff⟩ :=
      SparseVector.assign_eq_some (Nat.lt_of_not_le full) value
    refine ⟨after, ?_, growths, size.trans grown.size, ?_, ?_, ?_⟩
    · rw [storeSparse, if_neg full, done]
    · rw [length, ← grown.size]
      omega
    · refine grown.needed.imp_right ?_
      intro less
      rw [length]
      omega
    · intro i
      rw [coeff, getD_concat, grown.coeff]
      by_cases new : i = seen.length
      · rw [if_pos new, if_pos new, if_pos]
        rcases grown.needed with rfl | less
        · exact Nat.zero_le _
        · omega
      · rw [if_neg new, if_neg new]

/-- The numbers that have to be 0: those stored before the vector grew last, and the last
one when nothing stands behind it. -/
structure SparseFits (fields : Fields lowest highest) (growths : Nat) : Prop where
  size : fields.values.length = capacity growths
  zeros : ∀ i < lost growths, ∀ value, fields.values[i]? = some value → value = 0
  last : fields.Ended ∨ fields.values.getLast? = some 0

def SparseHolds (values : List Int) (vector : SparseVector) : Prop :=
  HoldsValues vector.size (fun i => some (vector.coeff i)) values

theorem Grown.eq_growths {growths others : Nat} {stored values : List Int}
    {vector : SparseVector} (grown : Grown growths stored vector)
    (size : values.length = capacity others) (most : values.length ≤ stored.length + 1)
    (least : stored.length ≤ values.length) : growths = others := by
  have fits := grown.fits
  rcases Nat.lt_trichotomy growths others with less | same | more
  · have next := capacity_succ growths
    have upTo := capacity_mono (Nat.succ_le_of_lt less)
    rw [Nat.succ_eq_add_one] at upTo
    omega
  · exact same
  · cases growths with
    | zero => exact absurd more (Nat.not_lt_zero _)
    | succ fewer =>
        have needed := grown.needed.resolve_left (Nat.succ_ne_zero fewer)
        have upTo := capacity_mono (Nat.le_of_lt_succ more)
        rw [lost] at needed
        omega

theorem parsesSparse_iff {fields : Fields lowest highest} (separated : fields.Separated) :
    (∃ result, ParsesSparse fields.text result ∧ SparseHolds fields.values result) ↔
      ∃ growths, SparseFits fields growths := by
  obtain ⟨result, returned, growths, grown⟩ :=
    returns_fields storeSparse_step ⟨0, grown_empty⟩ separated
  constructor
  · rintro ⟨other, again, right⟩
    obtain rfl := returned.eq again
    refine ⟨growths, right.size.symm.trans grown.size, ?_, ?_⟩
    · intro i early value found
      have held := Option.some.inj (right.places i value found)
      rw [← held, grown.coeff, if_neg (Nat.not_le.mpr early)]
    · by_cases ended : fields.Ended
      · exact .inl ended
      · obtain ⟨last, all⟩ := Fields.ended_of_not separated ended
        have found : fields.values[fields.ended.length]? = some last := by
          rw [all, List.getElem?_concat_length]
        have held := Option.some.inj (right.places _ last found)
        have nothing : fields.ended.getD fields.ended.length 0 = 0 := by
          rw [List.getD_eq_getElem?_getD, List.getElem?_eq_none (Nat.le_refl _)]
          rfl
        rw [grown.coeff, nothing, ite_self] at held
        rw [all, List.getLast?_concat, held]
        exact .inr rfl
  · rintro ⟨others, size, zeros, last⟩
    by_cases ended : fields.Ended
    · have same := Fields.ended_eq_values separated ended
      rw [same] at grown
      obtain rfl := grown.eq_growths size (Nat.le_add_right _ _) (Nat.le_refl _)
      refine ⟨result, returned, grown.size.trans size.symm, ?_⟩
      intro i value found
      rw [grown.coeff]
      by_cases early : i < lost growths
      · rw [if_neg (Nat.not_le.mpr early), zeros i early value found]
      · rw [if_pos (Nat.le_of_not_lt early), List.getD_eq_getElem?_getD, found]
        rfl
    · obtain ⟨newest, all⟩ := Fields.ended_of_not separated ended
      have zero := last.resolve_left ended
      rw [all, List.getLast?_concat] at zero
      obtain rfl := Option.some.inj zero
      have length : fields.values.length = fields.ended.length + 1 := by
        rw [all, List.length_append, List.length_singleton]
      obtain rfl := grown.eq_growths size (Nat.le_of_eq length) (by omega)
      refine ⟨result, returned, grown.size.trans size.symm, ?_⟩
      intro i value found
      rw [grown.coeff]
      by_cases early : i < lost growths
      · rw [if_neg (Nat.not_le.mpr early), zeros i early value found]
      · have read : fields.values.getD i 0 = value := by
          rw [List.getD_eq_getElem?_getD, found]
          rfl
        rw [all, getD_concat] at read
        rw [if_pos (Nat.le_of_not_lt early)]
        split at read
        · rename_i behind
          rw [← read, behind, List.getD_eq_getElem?_getD,
            List.getElem?_eq_none (Nat.le_refl _)]
          rfl
        · rw [read]

/-! ### Texts and vectors -/

/-- `parse` returns for exactly the texts from which numbers can be extracted up to the end.
Of the texts of numbers with blanks between them, a dense vector is right if and only if a
blank stands behind the last number, and a sparse one if and only if its size is one that it
grows to and the numbers it loses are 0. -/
theorem vectorParser_parses_iff (Identifier : Type) :
    (∀ input,
      ((∃ result : DenseMatrix (.fixedRows 1) Identifier Int, ParsesRow input result) ↔
        ∃ values, Reads lowest highest input values) ∧
      ((∃ result : DenseMatrix (.dynamicRows (some 1)) Identifier Int,
          ParsesColumn input result) ↔
        ∃ values, Reads lowest highest input values) ∧
      ((∃ result, ParsesSparse input result) ↔
        ∃ values, Reads lowest highest input values)) ∧
    ∀ fields : Fields lowest highest, fields.Separated →
      ((∃ result : DenseMatrix (.fixedRows 1) Identifier Int,
          ParsesRow fields.text result ∧ RowHolds fields.values result) ↔ fields.Ended) ∧
      ((∃ result : DenseMatrix (.dynamicRows (some 1)) Identifier Int,
          ParsesColumn fields.text result ∧ ColumnHolds fields.values result) ↔
        fields.Ended) ∧
      ((∃ result, ParsesSparse fields.text result ∧ SparseHolds fields.values result) ↔
        ∃ growths, SparseFits fields growths) := by
  constructor
  · intro input
    refine ⟨?_, ?_, ?_⟩
    · exact returns_iff storeRow_step rowHolds_empty input
    · exact returns_iff storeColumn_step columnHolds_empty input
    · exact returns_iff storeSparse_step ⟨0, grown_empty⟩ input
  · intro fields separated
    exact ⟨parsesRow_iff separated, parsesColumn_iff separated, parsesSparse_iff separated⟩

theorem digit_inRange {c : Char} (decimal : isDigit c = true) :
    lowest ≤ Sign.none.apply (magnitude [c]) ∧
      Sign.none.apply (magnitude [c]) ≤ highest := by
  have between := isDigit_iff.mp decimal
  have value : magnitude [c] = c.toNat - 48 := by
    rw [magnitude, List.foldl_cons, List.foldl_nil, Nat.mul_zero, Nat.zero_add]
  change lowest ≤ (magnitude [c] : Int) ∧ (magnitude [c] : Int) ≤ highest
  rw [value, lowest, highest]
  constructor
  · omega
  · omega

/-- A number of one digit. -/
def digit (c : Char) (decimal : isDigit c = true) : Numeral lowest highest where
  sign := .none
  digits := [c]
  decimal := List.forall_mem_singleton.mpr decimal
  number := List.cons_ne_nil c []
  inRange := digit_inRange decimal

/-- Two numbers, with a blank behind each. -/
theorem vectorParser_parses_two :
    ∃ result : DenseMatrix (.fixedRows 1) Nat Int,
      ParsesRow (Fields.text [(digit '5' rfl, [' ']), (digit '7' rfl, [' '])]) result ∧
        RowHolds (Fields.values [(digit '5' rfl, [' ']), (digit '7' rfl, [' '])]) result := by
  have blank : ∀ c ∈ [' '], isSpace c = true := List.forall_mem_singleton.mpr rfl
  apply ((vectorParser_parses_iff Nat).2 [(digit '5' rfl, [' ']), (digit '7' rfl, [' '])]
    ?_).1.mpr
  · intro last found
    obtain rfl := Option.some.inj found
    exact List.cons_ne_nil _ _
  · refine ⟨?_, ?_⟩
    · exact List.forall_mem_cons.mpr ⟨blank, List.forall_mem_singleton.mpr blank⟩
    · exact List.forall_mem_singleton.mpr (List.cons_ne_nil _ _)

/-- A letter is never passed. -/
theorem not_vectorParser_parses :
    ¬ ∀ input, ∃ result : DenseMatrix (.fixedRows 1) Nat Int, ParsesRow input result := by
  intro returns
  obtain ⟨result, fuel, returned⟩ := returns ['x']
  cases fuel with
  | zero => cases returned
  | succ fuel =>
      have failed : (TextStream.ofText ['x']).extract lowest highest 0 =
          (⟨['x'], true, false⟩, 0) := rfl
      rw [loop, if_neg (TextStream.not_eofbit_ofText _), failed,
        if_neg Bool.false_ne_true] at returned
      obtain ⟨stored, _, rest⟩ := Option.bind_eq_some_iff.mp returned
      rw [loop_failed rfl rfl] at rest
      cases rest

end VectorParser

end PipeFabric
