import PipeFabric.Library.Lockstep
import PipeFabric.Relational.HashMapTable

/-!
# Replication of a table through a stream

`FromTable` observes a table and publishes a stream element for every notification;
`ToTable` stores the elements of a stream in a table, or removes them if they are
outdated.  One behind the other they should keep a second table equal to the first.
-/

namespace PipeFabric.Replication

open FiniteMap Tables

variable {Key Record : Type}

/-- `FromTable::tableCallback`: a copy of the record and the outdated flag are put in
the queue; reading a record that does not exist any more is undefined. -/
def tableCallback (copy : Record → Record) (mQueue : List (Record × Bool))
    (notification : Notification Record) : Option (List (Record × Bool)) :=
  notification.record.map fun data =>
    mQueue ++ [(copy data, decide (notification.mode = .Insert))]

/-- `FromTable::producer`: what is published until the queue is empty. -/
def producer : List (Record × Bool) → List (Record × Bool)
  | [] => []
  | tpair :: mQueue => tpair :: producer mQueue

variable [DecidableEq Key]

/-- `ToTable::processDataElement`. -/
def processDataElement (copy : Record → Record) (mKeyFunc : Record → Key)
    (order : Reordering Key Record) (mTable : TableMap Key Record)
    (element : Record × Bool) : TableMap Key Record :=
  let key := mKeyFunc element.1
  if element.2 then (HashMapTable.deleteByKey key mTable).1
  else (HashMapTable.insert copy order key element.1 mTable).1

/-- The observed table and the one behind the stream. -/
structure Pair (Key Record : Type) where
  table : TableMap Key Record
  replica : TableMap Key Record

/-- The empty tables. -/
def Pair.init : Pair Key Record := ⟨∅, ∅⟩

/-- A call on the observed table, with the orders of iteration it leaves. -/
structure Call (Key Record : Type) where
  op : TableOp Key Record Record
  order : Reordering Key Record
  replicaOrder : Reordering Key Record

/-- A call, the stream elements of its notifications and what they do to the second
table. -/
def step (copy : Record → Record) (mKeyFunc : Record → Key) (tables : Pair Key Record)
    (call : Call Key Record) : Option (Pair Key Record × Unit) := do
  let result := HashMapTable.step copy call.order tables.table call.op
  let mQueue ← result.2.notifications.foldlM (tableCallback copy) []
  let replica := (producer mQueue).foldl
    (processDataElement copy mKeyFunc call.replicaOrder) tables.replica
  some (⟨result.1, replica⟩, ())

/-- Every call is legal. -/
def reference (_ : Unit) (_ : Call Key Record) : Option (Unit × Unit) := some ((), ())

/-- The second table holds what the first holds. -/
def Replicated (next : Pair Key Record × Unit) : Prop :=
  contents next.1.table = contents next.1.replica

/-- Whether a call may insert a record into a table without records. -/
def Inserts : TableOp Key Record Record → Prop
  | .insert _ _ | .insertRvalue _ _ => True
  | .updateOrDeleteByKey _ _ ifunc => ifunc.isSome
  | .deleteByKey _ | .deleteWhere _ | .updateByKey _ _ | .updateWhere _ _ => False

/-- Both tables are empty. -/
structure Empty (tables : Pair Key Record) : Prop where
  table : contents tables.table = fun _ => none
  replica : contents tables.replica = fun _ => none

variable {copy : Record → Record} {mKeyFunc : Record → Key}

theorem entries_of_contents {table : TableMap Key Record}
    (empty : contents table = fun _ => none) : table.entries = [] :=
  (perm_entries (empty.trans contents_empty.symm)).eq_nil

/-- Without an insertion an empty table stays empty and sends no notifications. -/
theorem step_empty (copy : Record → Record) {table : TableMap Key Record}
    (empty : contents table = fun _ => none) (order : Reordering Key Record)
    {op : TableOp Key Record Record}
    (inserts : ¬ Inserts op) :
    contents (HashMapTable.step copy order table op).1 = (fun _ => none) ∧
      (HashMapTable.step copy order table op).2.notifications = [] := by
  have absent (key : Key) : table.lookup key = none := congrFun empty key
  have none_entries := entries_of_contents empty
  cases op with
  | insert key rec => exact absurd trivial inserts
  | insertRvalue key rec => exact absurd trivial inserts
  | deleteByKey key =>
      simp only [HashMapTable.step, HashMapTable.deleteByKey, absent]
      exact ⟨empty, trivial⟩
  | deleteWhere func =>
      refine ⟨?_, ?_⟩
      · change contents (HashMapTable.deleteWhere func table).1 = _
        rw [HashMapTable.contents_deleteWhere, empty]
        rfl
      · simp only [HashMapTable.step, HashMapTable.deleteWhere, none_entries]
        rfl
  | updateOrDeleteByKey key ufunc ifunc =>
      cases ifunc with
      | some rec => exact absurd rfl inserts
      | none =>
          simp only [HashMapTable.step, HashMapTable.updateOrDeleteByKey, absent]
          exact ⟨empty, trivial⟩
  | updateByKey key ufunc =>
      simp only [HashMapTable.step, HashMapTable.updateByKey, absent]
      exact ⟨empty, trivial⟩
  | updateWhere pfunc ufunc =>
      refine ⟨?_, ?_⟩
      · change contents (HashMapTable.updateWhere pfunc ufunc table).1 = _
        rw [HashMapTable.contents_updateWhere, empty]
        rfl
      · simp only [HashMapTable.step, HashMapTable.updateWhere, none_entries]
        rfl

/-- An insertion is published as an outdated element and removes the record from the
second table. -/
theorem inserted_not_replicated {tables : Pair Key Record} (empty : Empty tables)
    (order : Reordering Key Record) (replicaOrder : Reordering Key Record) (key : Key)
    (rec : Record) :
    contents (HashMapTable.insert copy order key rec tables.table).1 ≠
      contents (([(copy rec, true)] : List (Record × Bool)).foldl
        (processDataElement copy mKeyFunc replicaOrder) tables.replica) := by
  intro same
  have entry := congrFun same key
  simp only [List.foldl_cons, List.foldl_nil, processDataElement, if_true] at entry
  rw [HashMapTable.contents_insert, HashMapTable.contents_deleteByKey, empty.replica,
    Function.update_self] at entry
  have removed : Function.update (fun _ => none) (mKeyFunc (copy rec)) none =
      (fun _ => none : Key → Option Record) := Function.update_eq_self _ _
  rw [removed] at entry
  cases entry

/-- For every sequence of calls on an observed table, the table behind the stream has
the contents of the observed one after every call if and only if no call inserts. -/
theorem fromTable_toTable_replicates (copy : Record → Record) (mKeyFunc : Record → Key)
    (calls : List (Call Key Record)) :
    Lockstep.Agree (step copy mKeyFunc) reference (fun next _ => Replicated next)
        Pair.init () calls ↔
      ∀ call ∈ calls, ¬ Inserts call.op := by
  have legal : ∀ before (call : Call Key Record), ∃ after,
      reference before call = some after := fun _ _ => ⟨_, rfl⟩
  rw [← Lockstep.along_iff_forall_mem legal ()]
  apply Lockstep.agree_iff fun tables _ => Empty tables
  · intro tables before call after empty legal inserts
    obtain ⟨kept, silent⟩ := step_empty copy empty.table call.order inserts
    refine ⟨_, by rw [step, silent]; rfl, ?_, ⟨kept, empty.replica⟩⟩
    exact kept.trans empty.replica.symm
  · intro tables before call after next empty legal stepped same inserts
    have absent (key : Key) : tables.table.lookup key = none := congrFun empty.table key
    obtain ⟨op, order, replicaOrder⟩ := call
    cases op with
    | insert key rec =>
        cases stepped
        exact inserted_not_replicated empty order replicaOrder key rec same
    | insertRvalue key rec =>
        cases stepped
        exact inserted_not_replicated empty order replicaOrder key rec same
    | updateOrDeleteByKey key ufunc ifunc =>
        cases ifunc with
        | none => cases inserts
        | some rec =>
            simp only [step, HashMapTable.step, HashMapTable.updateOrDeleteByKey,
              absent] at stepped
            cases stepped
            exact inserted_not_replicated empty order replicaOrder key rec same
    | deleteByKey key => exact inserts
    | deleteWhere func => exact inserts
    | updateByKey key ufunc => exact inserts
    | updateWhere pfunc ufunc => exact inserts
  · exact ⟨contents_empty, contents_empty⟩

/-- One inserted record. -/
theorem fromTable_toTable_not_replicates :
    ¬ Lockstep.Agree (step id Prod.fst) reference (fun next _ => Replicated next)
      (Pair.init : Pair Nat (Nat × Nat)) () [⟨.insert 1 (1, 5), .keep, .keep⟩] := by
  intro agree
  obtain ⟨next, inserted, same, _⟩ := agree _ rfl
  cases inserted
  exact absurd (congrFun same 1) (by decide)

end PipeFabric.Replication
