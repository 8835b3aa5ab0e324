import PipeFabric.Core.Tuple
import PipeFabric.Relational.HashMapTable
import PipeFabric.Table.CuckooTable

/-!
# Cuckoo hash tables

`CuckooTable` has the interface of `HashMapTable` on a concurrent map.  It stores
the attributes of a tuple without its null flags, and predicates and updater
functions work on the stored attributes.  An insertion keeps an existing entry,
and what is found in the map is a copy.
-/

namespace PipeFabric.Tables

open FiniteMap

variable {Key α : Type} {Base : TupleElements α}

/-- A call on stored attributes, made on a table that stores tuples. -/
def onTuples : TableOp Key (Tuple Base) α → TableOp Key (Tuple Base) (Tuple Base)
  | .insert key rec => .insert key rec
  | .insertRvalue key rec => .insertRvalue key rec
  | .deleteByKey key => .deleteByKey key
  | .deleteWhere func => .deleteWhere fun rec => func rec.data
  | .updateOrDeleteByKey key ufunc ifunc =>
      .updateOrDeleteByKey key
        (fun rec => ({ rec with data := (ufunc rec.data).1 }, (ufunc rec.data).2)) ifunc
  | .updateByKey key ufunc =>
      .updateByKey key fun rec => { rec with data := ufunc rec.data }
  | .updateWhere pfunc ufunc =>
      .updateWhere (fun rec => pfunc rec.data) fun rec =>
        { rec with data := ufunc rec.data }

namespace CuckooTable

/-- Stored attributes are handed to the observers as a tuple. -/
def toTuple (notification : Notification α) : Notification (Tuple Base) :=
  ⟨notification.mode, notification.record.map Tuple.ofData⟩

/-- The loop of `deleteWhere` over the locked table.  The number is that of the
deleted entries; `erase_fn` waits for locks that the locked table does not give back
before the loop has ended, so that the call does not return. -/
def deleteLoop (func : α → Bool) : List (Sigma fun _ : Key => α) → Option Nat
  | [] => some 0
  | it :: rest => if func it.2 then none else deleteLoop func rest

theorem deleteLoop_eq (func : α → Bool) (entries : List (Sigma fun _ : Key => α)) :
    deleteLoop func entries = if entries.any fun it => func it.2 then none else some 0 := by
  induction entries with
  | nil => rfl
  | cons it entries induction =>
      cases matched : func it.2 with
      | true => simp [deleteLoop, matched]
      | false =>
          rw [List.any_cons, matched, Bool.false_or, ← induction]
          exact if_neg (by simp [matched])

/-- `deleteWhere`. -/
def deleteWhere (func : α → Bool) (mDataTable : TableMap Key α) :
    Option (TableMap Key α × TableAnswer (Tuple Base)) :=
  (deleteLoop func mDataTable.entries).map fun num => (mDataTable, ⟨some num, []⟩)

/-- `updateWhere`, whose loop is that of the hash map. -/
def updateWhere (pfunc : α → Bool) (ufunc : α → α) (mDataTable : TableMap Key α) :
    TableMap Key α × TableAnswer (Tuple Base) :=
  let scanned := HashMapTable.updateWhere pfunc ufunc mDataTable
  (scanned.1, ⟨scanned.2.count, scanned.2.notifications.map toTuple⟩)

variable [DecidableEq Key]

/-- `insert` of the map, which keeps an existing entry and returns whether there was
none; a new entry may come anywhere in the order. -/
def insertEntry (order : Reordering Key α) (key : Key) (value : α)
    (mDataTable : TableMap Key α) : TableMap Key α × Bool :=
  if (mDataTable.lookup key).isSome then (mDataTable, false)
  else (reorder order (AList.insert key value mDataTable), true)

/-- `insert`. -/
def insert (order : Reordering Key α) (key : Key) (rec : Tuple Base)
    (mDataTable : TableMap Key α) :
    TableMap Key α × List (Notification (Tuple Base)) :=
  ((insertEntry order key rec.data mDataTable).1, [⟨.Insert, some rec⟩])

/-- `insert` of a temporary.  Its attributes are moved into a new entry, and the
observers are given what `moved` leaves of them. -/
def insertRvalue (moved : α → α) (order : Reordering Key α) (key : Key) (rec : Tuple Base)
    (mDataTable : TableMap Key α) :
    TableMap Key α × List (Notification (Tuple Base)) :=
  let inserted := insertEntry order key rec.data mDataTable
  (inserted.1,
    [⟨.Insert, some (if inserted.2 then { rec with data := moved rec.data } else rec)⟩])

/-- `deleteByKey`, with observers. -/
def deleteByKey (key : Key) (mDataTable : TableMap Key α) :
    TableMap Key α × TableAnswer (Tuple Base) :=
  match mDataTable.lookup key with
  | some res => (mDataTable.erase key, ⟨some 1, [⟨.Delete, some (.ofData res)⟩]⟩)
  | none => (mDataTable, ⟨some 0, []⟩)

/-- `updateOrDeleteByKey`.  The updater function changes the copy `res`, which is
not written back. -/
def updateOrDeleteByKey (moved : α → α) (order : Reordering Key α) (key : Key)
    (ufunc : α → α × Bool) (ifunc : Option (Tuple Base)) (mDataTable : TableMap Key α) :
    TableMap Key α × TableAnswer (Tuple Base) :=
  match mDataTable.lookup key with
  | some res =>
      let upd := ufunc res
      if upd.2 then (mDataTable, ⟨some 1, [⟨.Update, some (.ofData upd.1)⟩]⟩)
      else (mDataTable.erase key, ⟨some 1, [⟨.Delete, some (.ofData upd.1)⟩]⟩)
  | none =>
      match ifunc with
      | some rec =>
          let inserted := insertRvalue moved order key rec mDataTable
          (inserted.1, ⟨some 1, inserted.2⟩)
      | none => (mDataTable, ⟨some 0, []⟩)

/-- `updateByKey`. -/
def updateByKey (key : Key) (ufunc : α → α) (mDataTable : TableMap Key α) :
    TableMap Key α × TableAnswer (Tuple Base) :=
  match mDataTable.lookup key with
  | some res =>
      (mDataTable.replace key (ufunc res),
        ⟨some 1, [⟨.Update, some (.ofData (ufunc res))⟩]⟩)
  | none => (mDataTable, ⟨some 0, []⟩)

/-- `getByKey`; without the key a `TableException` is thrown. -/
def getByKey (key : Key) (mDataTable : TableMap Key α) : Option (Tuple Base) :=
  (mDataTable.lookup key).map Tuple.ofData

/-- A call on the table, with the order of iteration that it leaves; `none` if it
does not return. -/
def step (moved : α → α) (order : Reordering Key α) (mDataTable : TableMap Key α) :
    TableOp Key (Tuple Base) α → Option (TableMap Key α × TableAnswer (Tuple Base))
  | .insert key rec =>
      let inserted := insert order key rec mDataTable
      some (inserted.1, ⟨none, inserted.2⟩)
  | .insertRvalue key rec =>
      let inserted := insertRvalue moved order key rec mDataTable
      some (inserted.1, ⟨none, inserted.2⟩)
  | .deleteByKey key => some (deleteByKey key mDataTable)
  | .deleteWhere func => deleteWhere func mDataTable
  | .updateOrDeleteByKey key ufunc ifunc =>
      some (updateOrDeleteByKey moved order key ufunc ifunc mDataTable)
  | .updateByKey key ufunc => some (updateByKey key ufunc mDataTable)
  | .updateWhere pfunc ufunc => some (updateWhere pfunc ufunc mDataTable)

omit [DecidableEq Key] in
theorem deleteWhere_eq (func : α → Bool) (mDataTable : TableMap Key α) :
    (deleteWhere func mDataTable : Option (TableMap Key α × TableAnswer (Tuple Base))) =
      if mDataTable.entries.any fun it => func it.2 then none
      else some (mDataTable, ⟨some 0, []⟩) := by
  unfold deleteWhere
  rw [deleteLoop_eq]
  by_cases matched : (mDataTable.entries.any fun it => func it.2) = true
  · rw [if_pos matched, if_pos matched]
    rfl
  · rw [if_neg matched, if_neg matched]
    rfl

theorem insertEntry_inserted (order : Reordering Key α) (key : Key) (value : α)
    (mDataTable : TableMap Key α) :
    (insertEntry order key value mDataTable).2 = (mDataTable.lookup key).isNone := by
  unfold insertEntry
  cases mDataTable.lookup key with
  | some old => rfl
  | none => rfl

/-! ## Contents

The contents of the map are the storage below the transactional tables. -/

theorem contents_insertEntry (order : Reordering Key α) (key : Key) (value : α)
    (mDataTable : TableMap Key α) :
    contents (insertEntry order key value mDataTable).1 =
      (PipeFabric.CuckooTable.insert ⟨contents mDataTable⟩ key value).mDataTable := by
  unfold insertEntry PipeFabric.CuckooTable.insert
  cases found : mDataTable.lookup key with
  | some old =>
      have present : contents mDataTable key = some old := found
      simp [present]
  | none =>
      have absent : contents mDataTable key = none := found
      simp [absent]

theorem contents_deleteByKey (key : Key) (mDataTable : TableMap Key α) :
    contents (deleteByKey key mDataTable : TableMap Key α × TableAnswer (Tuple Base)).1 =
      (PipeFabric.CuckooTable.deleteByKey ⟨contents mDataTable⟩ key).2.mDataTable := by
  unfold deleteByKey PipeFabric.CuckooTable.deleteByKey
  cases found : mDataTable.lookup key with
  | some old =>
      have present : contents mDataTable key = some old := found
      simp [present]
  | none =>
      have absent : contents mDataTable key = none := found
      simp [absent]

end CuckooTable

end PipeFabric.Tables
