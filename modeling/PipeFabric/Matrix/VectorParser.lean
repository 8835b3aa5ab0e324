import PipeFabric.Library.NumberStream
import PipeFabric.Matrix.DenseMatrix

/-!
# The parser of vectors

`VectorParser` extracts numbers from a text until the stream is at its end, and stores each
of them that the end was not noticed with.  A sparse vector begins with 50 places and loses
its entries whenever it grows.
-/

namespace PipeFabric

open NumberStream

/-- `Eigen::SparseVector`.  Places without entries read 0. -/
structure SparseVector where
  size : Nat
  coeff : Nat → Int
  outside : ∀ i, size ≤ i → coeff i = 0

namespace SparseVector

/-- `resize`, which clears the vector. -/
def resize (size : Nat) : SparseVector where
  size := size
  coeff _ := 0
  outside _ _ := rfl

/-- The constructor without arguments. -/
def empty : SparseVector := .resize 0

theorem assigned_outside (vector : SparseVector) {i : Nat} (inside : i < vector.size)
    (value : Int) :
    ∀ j, vector.size ≤ j → (if j = i then value else vector.coeff j) = 0 := by
  intro j beyond
  rw [if_neg (by omega), vector.outside j beyond]

/-- The assignment to `coeffRef`. -/
def assign (vector : SparseVector) (i : Nat) (value : Int) : Option SparseVector :=
  if inside : i < vector.size then
    some
      { size := vector.size
        coeff := fun j => if j = i then value else vector.coeff j
        outside := vector.assigned_outside inside value }
  else none

theorem assign_eq_some {vector : SparseVector} {i : Nat} (inside : i < vector.size)
    (value : Int) :
    ∃ after, vector.assign i value = some after ∧ after.size = vector.size ∧
      ∀ j, after.coeff j = if j = i then value else vector.coeff j := by
  rw [assign, dif_pos inside]
  exact ⟨_, rfl, rfl, fun _ => rfl⟩

end SparseVector

namespace VectorParser

/-- The values of `CellType`, which is `int`. -/
def lowest : Int := -2147483648

def highest : Int := 2147483647

section

variable {V : Type}

/-- The loop of `parse`, which differs only in how a value is stored. -/
def loop (store : Nat → Int → V → Option V) : Nat → TextStream → Int → Nat → V → Option V
  | 0, _, _, _, _ => none
  | fuel + 1, stream, v, i, vector =>
      if stream.eofbit then some vector
      else
        let next := stream.extract lowest highest v
        if next.1.eofbit then some vector
        else
          (store i next.2 vector).bind fun stored =>
            loop store fuel next.1 next.2 (i + 1) stored

/-- `parse` of a text comes to an end with this vector.  The variable `v` has no value at
first, and is not used before it has. -/
def Returns (store : Nat → Int → V → Option V) (input : List Char) (vector result : V) :
    Prop :=
  ∃ fuel, loop store fuel (.ofText input) 0 0 vector = some result

/-- The values stored one after the other. -/
def storeAll (store : Nat → Int → V → Option V) : Nat → List Int → V → Option V
  | _, [], vector => some vector
  | i, value :: values, vector =>
      (store i value vector).bind fun stored => storeAll store (i + 1) values stored

variable {store : Nat → Int → V → Option V}

theorem loop_more {fuel : Nat} {stream : TextStream} {v : Int} {i : Nat} {vector result : V}
    (returned : loop store fuel stream v i vector = some result) {more : Nat}
    (enough : fuel ≤ more) : loop store more stream v i vector = some result := by
  induction fuel generalizing stream v i vector more with
  | zero => cases returned
  | succ fuel induction =>
      cases more with
      | zero => exact absurd enough (Nat.not_succ_le_zero fuel)
      | succ more =>
          rw [loop] at returned ⊢
          by_cases atEnd : stream.eofbit
          · rwa [if_pos atEnd] at returned ⊢
          rw [if_neg atEnd] at returned ⊢
          by_cases ended : (stream.extract lowest highest v).1.eofbit
          · rwa [if_pos ended] at returned ⊢
          rw [if_neg ended] at returned ⊢
          obtain ⟨stored, done, rest⟩ := Option.bind_eq_some_iff.mp returned
          rw [done]
          exact induction rest (Nat.le_of_succ_le_succ enough)

theorem Returns.eq {input : List Char} {vector first second : V}
    (returned : Returns store input vector first)
    (again : Returns store input vector second) : first = second := by
  obtain ⟨fuel, done⟩ := returned
  obtain ⟨other, otherDone⟩ := again
  have firstDone := loop_more done (Nat.le_max_left fuel other)
  have secondDone := loop_more otherDone (Nat.le_max_right fuel other)
  exact Option.some.inj (firstDone.symm.trans secondDone)

/-- When an extraction fails before the end, the loop goes on forever. -/
theorem loop_failed {stream : TextStream} (failed : stream.failbit = true)
    (before : stream.eofbit = false) (fuel : Nat) (v : Int) (i : Nat) (vector : V) :
    loop store fuel stream v i vector = none := by
  induction fuel generalizing i vector with
  | zero => rfl
  | succ fuel induction =>
      have unfinished : ¬ stream.eofbit = true := by
        rw [before]
        exact Bool.false_ne_true
      rw [loop, if_neg unfinished, TextStream.extract_failed failed, if_neg unfinished]
      cases store i v vector with
      | none => rfl
      | some stored => exact induction (i + 1) stored

/-- The loop ends if and only if numbers can be extracted until the end is noticed. -/
theorem loop_iff {input : List Char} {v : Int} {i : Nat} {vector result : V} :
    (∃ fuel, loop store fuel (.ofText input) v i vector = some result) ↔
      ∃ values, Reads lowest highest input values ∧
        storeAll store i values vector = some result := by
  constructor
  · rintro ⟨fuel, returned⟩
    induction fuel generalizing input v i vector with
    | zero => cases returned
    | succ fuel induction =>
        rw [loop, if_neg (TextStream.not_eofbit_ofText _)] at returned
        rcases TextStream.extract_cases lowest highest input v with
          ⟨blanks, sign, digits, blank, decimal, rfl⟩ | ⟨failed, before⟩ |
            ⟨blanks, sign, digits, c, rest, blank, decimal, number, inRange, ended, rfl⟩
        · rw [if_pos (TextStream.extract_last sign blank decimal v)] at returned
          exact ⟨[], .last sign blank decimal, returned⟩
        · have unfinished : ¬ ((TextStream.ofText input).extract lowest highest v).1.eofbit =
              true := by
            rw [before]
            exact Bool.false_ne_true
          rw [if_neg unfinished] at returned
          obtain ⟨stored, _, rest⟩ := Option.bind_eq_some_iff.mp returned
          rw [loop_failed failed before] at rest
          cases rest
        · rw [TextStream.extract_next sign blank decimal number inRange ended v,
            if_neg (TextStream.not_eofbit_ofText _)] at returned
          obtain ⟨stored, done, later⟩ := Option.bind_eq_some_iff.mp returned
          obtain ⟨values, reads, all⟩ := induction later
          refine ⟨_, .next sign blank decimal number inRange ended reads, ?_⟩
          rw [storeAll, done]
          exact all
  · rintro ⟨values, reads, all⟩
    induction reads generalizing v i vector with
    | last sign blank decimal =>
        refine ⟨1, ?_⟩
        rw [loop, if_neg (TextStream.not_eofbit_ofText _),
          if_pos (TextStream.extract_last sign blank decimal v)]
        exact all
    | next sign blank decimal number inRange ended later induction =>
        rw [storeAll, Option.bind_eq_some_iff] at all
        obtain ⟨stored, done, rest⟩ := all
        obtain ⟨fuel, returned⟩ := induction (v := sign.apply (magnitude _)) rest
        refine ⟨fuel + 1, ?_⟩
        rw [loop, if_neg (TextStream.not_eofbit_ofText _),
          TextStream.extract_next sign blank decimal number inRange ended v,
          if_neg (TextStream.not_eofbit_ofText _), done]
        exact returned

/-- What every stored value keeps up holds in the end. -/
theorem storeAll_of_step {holds : List Int → V → Prop}
    (step : ∀ seen value vector, holds seen vector →
      ∃ after, store seen.length value vector = some after ∧ holds (seen ++ [value]) after)
    {seen : List Int} {vector : V} (before : holds seen vector) (values : List Int) :
    ∃ after, storeAll store seen.length values vector = some after ∧
      holds (seen ++ values) after := by
  induction values generalizing seen vector with
  | nil => exact ⟨vector, rfl, (List.append_nil seen).symm ▸ before⟩
  | cons value values induction =>
      obtain ⟨stored, done, next⟩ := step seen value vector before
      obtain ⟨after, all, final⟩ := induction next
      refine ⟨after, ?_, ?_⟩
      · rw [List.length_append, List.length_singleton] at all
        rw [storeAll, done]
        exact all
      · rwa [List.append_assoc] at final

section

variable {holds : List Int → V → Prop} {vector : V}
  (step : ∀ seen value vector, holds seen vector →
    ∃ after, store seen.length value vector = some after ∧ holds (seen ++ [value]) after)
  (initially : holds [] vector)

include step initially

theorem returns_of_reads {input : List Char} {values : List Int}
    (reads : Reads lowest highest input values) :
    ∃ result, Returns store input vector result ∧ holds values result := by
  obtain ⟨result, all, final⟩ := storeAll_of_step step initially values
  exact ⟨result, loop_iff.mpr ⟨values, reads, all⟩, final⟩

theorem returns_iff (input : List Char) :
    (∃ result, Returns store input vector result) ↔
      ∃ values, Reads lowest highest input values := by
  constructor
  · rintro ⟨result, returned⟩
    obtain ⟨values, reads, _⟩ := loop_iff.mp returned
    exact ⟨values, reads⟩
  · rintro ⟨values, reads⟩
    obtain ⟨result, returned, _⟩ := returns_of_reads step initially reads
    exact ⟨result, returned⟩

/-- What a text of numbers with blanks between them becomes. -/
theorem returns_fields {fields : Fields lowest highest} (separated : fields.Separated) :
    ∃ result, Returns store fields.text vector result ∧ holds fields.ended result :=
  returns_of_reads step initially (Fields.reads_text (List.forall_mem_nil _) separated)

end

end

/-! ### The three kinds of vectors -/

variable {Identifier : Type}

/-- How `parse` stores in a sparse vector. -/
def storeSparse (i : Nat) (v : Int) (vector : SparseVector) : Option SparseVector :=
  (if vector.size ≤ i then .resize (vector.size * 3 / 2) else vector).assign i v

/-- How `parse` stores in a dense vector of one row. -/
def storeRow (j : Nat) (v : Int) (vector : DenseMatrix (.fixedRows 1) Identifier Int) :
    Option (DenseMatrix (.fixedRows 1) Identifier Int) :=
  vector.set 0 j v

/-- How `parse` stores in a dense vector of one column. -/
def storeColumn (i : Nat) (v : Int)
    (vector : DenseMatrix (.dynamicRows (some 1)) Identifier Int) :
    Option (DenseMatrix (.dynamicRows (some 1)) Identifier Int) :=
  vector.set i 0 v

/-- `parse` for sparse vectors. -/
def ParsesSparse (input : List Char) (result : SparseVector) : Prop :=
  Returns storeSparse input (.resize 50) result

/-- `parse` for an empty vector of one row. -/
def ParsesRow (input : List Char) (result : DenseMatrix (.fixedRows 1) Identifier Int) :
    Prop :=
  Returns storeRow input .empty result

/-- `parse` for an empty vector of one column. -/
def ParsesColumn (input : List Char)
    (result : DenseMatrix (.dynamicRows (some 1)) Identifier Int) : Prop :=
  Returns storeColumn input .empty result

end VectorParser

end PipeFabric
