import PipeFabric.Core.Tuple
import PipeFabric.Relational.HashMapTable

/-!
# Null flags in tables

A table copies the tuples it is given and those it hands out.  The copy constructor takes
only the attributes along.
-/

namespace PipeFabric.Tables

open FiniteMap

namespace HashMapTable

variable {Key Record : Type} [DecidableEq Key]

/-- The table after some calls. -/
def run (copy : Record → Record) (mDataTable : TableMap Key Record)
    (calls : List (TableOp Key Record Record × Reordering Key Record)) :
    TableMap Key Record :=
  calls.foldl (fun mDataTable call => (step copy call.2 mDataTable call.1).1) mDataTable

/-- None of the calls is on the key. -/
def OnOtherKeys (copy : Record → Record) (key : Key) :
    TableMap Key Record → List (TableOp Key Record Record × Reordering Key Record) → Prop
  | _, [] => True
  | mDataTable, call :: calls =>
      key ∉ call.1.affected (contents mDataTable) ∧
        OnOtherKeys copy key (step copy call.2 mDataTable call.1).1 calls

/-- Calls on other keys leave the record of a key. -/
theorem contents_run {copy : Record → Record} {key : Key} {mDataTable : TableMap Key Record}
    {calls : List (TableOp Key Record Record × Reordering Key Record)}
    (others : OnOtherKeys copy key mDataTable calls) :
    contents (run copy mDataTable calls) key = contents mDataTable key := by
  induction calls generalizing mDataTable with
  | nil => rfl
  | cons call calls induction =>
      obtain ⟨here, later⟩ := others
      rw [← TableOp.affected_stored copy] at here
      rw [run, List.foldl_cons, ← run, induction later, contents_step,
        TableOp.apply_of_notMem_affected here]

section

variable {α : Type} {Base : TupleElements α}

/-- What is read under the key has the attributes and the null flags of the tuple. -/
def ReadsBack (key : Key) (tuple : Tuple Base) (mDataTable : TableMap Key (Tuple Base)) :
    Prop :=
  ∃ read, getByKey Tuple.copy key mDataTable = some read ∧ read.data = tuple.data ∧
    ∀ index < Base.count, read.isNull index = tuple.isNull index

/-- A tuple comes back without its null flags. -/
theorem getByKey_run (key : Key) (tuple : Tuple Base)
    (order : Reordering Key (Tuple Base)) (mDataTable : TableMap Key (Tuple Base))
    {calls : List (TableOp Key (Tuple Base) (Tuple Base) × Reordering Key (Tuple Base))}
    (others : OnOtherKeys Tuple.copy key (insert Tuple.copy order key tuple mDataTable).1
      calls) :
    getByKey Tuple.copy key
        (run Tuple.copy (insert Tuple.copy order key tuple mDataTable).1 calls) =
      some tuple.copy := by
  have found := contents_run others
  rw [contents_insert, Function.update_self] at found
  exact congrArg (Option.map Tuple.copy) found

/-- A tuple that is inserted and then read by its key, after calls on other keys, has its
attributes and null flags if and only if none of its attributes is null. -/
theorem nullFlags_survive_iff (key : Key) (tuple : Tuple Base)
    (order : Reordering Key (Tuple Base)) (mDataTable : TableMap Key (Tuple Base))
    (calls : List (TableOp Key (Tuple Base) (Tuple Base) × Reordering Key (Tuple Base)))
    (others : OnOtherKeys Tuple.copy key (insert Tuple.copy order key tuple mDataTable).1
      calls) :
    ReadsBack key tuple
        (run Tuple.copy (insert Tuple.copy order key tuple mDataTable).1 calls) ↔
      ∀ index < Base.count, tuple.isNull index = false := by
  rw [ReadsBack, getByKey_run key tuple order mDataTable others]
  constructor
  · rintro ⟨read, found, _, flags⟩ index inside
    obtain rfl := Option.some.inj found
    rw [← flags index inside]
    exact tuple.isNull_copy index
  · intro unset
    refine ⟨tuple.copy, rfl, rfl, ?_⟩
    intro index inside
    rw [unset index inside]
    exact tuple.isNull_copy index

end

/-- A number stays while another one is deleted. -/
theorem nullFlags_survive_deletion :
    ReadsBack 1 (.ofData 5 : Tuple (.last (.pod Pod.byte)))
        (run Tuple.copy (insert Tuple.copy .keep 1 (.ofData 5) ∅).1
          [(.insert 2 (.ofData 6), .keep), (.deleteByKey 2, .keep)]) ↔
      ∀ index < 1, (.ofData 5 : Tuple (.last (.pod Pod.byte))).isNull index = false := by
  apply nullFlags_survive_iff
  refine ⟨?_, ?_, trivial⟩
  · intro same
    cases same
  · rintro ⟨same, _⟩
    cases same

/-- The only attribute of a tuple is set to null. -/
theorem not_nullFlags_survive :
    ¬∀ (key : Nat) (tuple : Tuple (.last (.pod Pod.byte)))
      (order : Reordering Nat (Tuple (.last (.pod Pod.byte))))
      (mDataTable : TableMap Nat (Tuple (.last (.pod Pod.byte)))) (calls : List _),
      OnOtherKeys Tuple.copy key (insert Tuple.copy order key tuple mDataTable).1 calls →
      ReadsBack key tuple
        (run Tuple.copy (insert Tuple.copy order key tuple mDataTable).1 calls) := by
  intro always
  obtain ⟨tuple, done⟩ : ∃ tuple,
      (.ofData 5 : Tuple (.last (.pod Pod.byte))).setNull 0 true = some tuple := ⟨_, rfl⟩
  obtain ⟨read, found, _, flags⟩ := always 1 tuple .keep ∅ [] trivial
  have copied : getByKey Tuple.copy 1 (run Tuple.copy
      (insert Tuple.copy .keep 1 tuple ∅).1 []) = some tuple.copy := rfl
  rw [copied] at found
  obtain rfl := Option.some.inj found
  have flag := flags 0 (by decide)
  rw [tuple.isNull_copy, Tuple.isNull_setNull done (by decide), if_pos rfl] at flag
  cases flag

end HashMapTable

end PipeFabric.Tables
