import PipeFabric.Relational.Modifications

/-!
# Hash map tables

`HashMapTable` keeps its records in a `std::unordered_map`, which a scan visits in
an order that an insertion may change altogether.  Every operation notifies the
observers on its own path, and `updateOrDeleteByKey` does so through an iterator
that its deletion has invalidated.
-/

namespace PipeFabric.Tables

open FiniteMap

variable {Key Record : Type}

/-- `TableMap`: the entries in the order of iteration. -/
abbrev TableMap (Key Record : Type) := Entries Key Record

namespace HashMapTable

/-- The loop of `deleteWhere`: the entries that stay, the number of the others and
the notifications. -/
def deleteLoop (func : Record → Bool) :
    List (Sigma fun _ : Key => Record) →
      List (Sigma fun _ : Key => Record) × Nat × List (Notification Record)
  | [] => ([], 0, [])
  | it :: rest =>
      let later := deleteLoop func rest
      if func it.2 then (later.1, later.2.1 + 1, ⟨.Delete, some it.2⟩ :: later.2.2)
      else (it :: later.1, later.2.1, later.2.2)

/-- The loop of `updateWhere`. -/
def updateLoop (pfunc : Record → Bool) (ufunc : Record → Record) :
    List (Sigma fun _ : Key => Record) →
      List (Sigma fun _ : Key => Record) × Nat × List (Notification Record)
  | [] => ([], 0, [])
  | it :: rest =>
      let later := updateLoop pfunc ufunc rest
      if pfunc it.2 then
        (⟨it.1, ufunc it.2⟩ :: later.1, later.2.1 + 1,
          ⟨.Update, some (ufunc it.2)⟩ :: later.2.2)
      else (it :: later.1, later.2.1, later.2.2)

theorem deleteLoop_eq (func : Record → Bool)
    (entries : List (Sigma fun _ : Key => Record)) :
    deleteLoop func entries =
      (entries.filter fun it => !func it.2, (entries.filter fun it => func it.2).length,
        (entries.filter fun it => func it.2).map fun it => ⟨.Delete, some it.2⟩) := by
  induction entries with
  | nil => rfl
  | cons it entries induction =>
      by_cases deleted : func it.2 = true
      · simp [deleteLoop, induction, deleted]
      · simp [deleteLoop, induction, deleted]

theorem updateLoop_eq (pfunc : Record → Bool) (ufunc : Record → Record)
    (entries : List (Sigma fun _ : Key => Record)) :
    updateLoop pfunc ufunc entries =
      (entries.map fun it => ⟨it.1, if pfunc it.2 then ufunc it.2 else it.2⟩,
        (entries.filter fun it => pfunc it.2).length,
        (entries.filter fun it => pfunc it.2).map fun it =>
          ⟨.Update, some (ufunc it.2)⟩) := by
  induction entries with
  | nil => rfl
  | cons it entries induction =>
      by_cases updated : pfunc it.2 = true
      · simp [updateLoop, induction, updated]
      · simp [updateLoop, induction, updated]

/-- `deleteWhere`. -/
def deleteWhere (func : Record → Bool) (mDataTable : TableMap Key Record) :
    TableMap Key Record × TableAnswer Record :=
  (⟨(deleteLoop func mDataTable.entries).1, by
      rw [deleteLoop_eq]
      exact mDataTable.nodupKeys.sublist List.filter_sublist⟩,
    ⟨some (deleteLoop func mDataTable.entries).2.1,
      (deleteLoop func mDataTable.entries).2.2⟩)

/-- `updateWhere`. -/
def updateWhere (pfunc : Record → Bool) (ufunc : Record → Record)
    (mDataTable : TableMap Key Record) : TableMap Key Record × TableAnswer Record :=
  (⟨(updateLoop pfunc ufunc mDataTable.entries).1, by
      rw [updateLoop_eq]
      exact (mapValues (fun rec => if pfunc rec then ufunc rec else rec)
        mDataTable).nodupKeys⟩,
    ⟨some (updateLoop pfunc ufunc mDataTable.entries).2.1,
      (updateLoop pfunc ufunc mDataTable.entries).2.2⟩)

variable [DecidableEq Key]

/-- `insert`, which erases an existing entry first; `copy` is the copy constructor
of the record type, and the new entry may come anywhere in the order. -/
def insert (copy : Record → Record) (order : Reordering Key Record) (key : Key)
    (rec : Record) (mDataTable : TableMap Key Record) :
    TableMap Key Record × List (Notification Record) :=
  let erased := if (mDataTable.lookup key).isSome then mDataTable.erase key else mDataTable
  (reorder order (AList.insert key (copy rec) erased), [⟨.Insert, some rec⟩])

/-- `deleteByKey`, with observers. -/
def deleteByKey (key : Key) (mDataTable : TableMap Key Record) :
    TableMap Key Record × TableAnswer Record :=
  match mDataTable.lookup key with
  | some rec => (mDataTable.erase key, ⟨some 1, [⟨.Delete, some rec⟩]⟩)
  | none => (mDataTable, ⟨some 0, []⟩)

/-- `updateOrDeleteByKey`.  After `erase` the iterator `res` that the observers are
notified through does not refer to an entry. -/
def updateOrDeleteByKey (copy : Record → Record) (order : Reordering Key Record)
    (key : Key) (ufunc : Record → Record × Bool) (ifunc : Option Record)
    (mDataTable : TableMap Key Record) : TableMap Key Record × TableAnswer Record :=
  match mDataTable.lookup key with
  | some rec =>
      if (ufunc rec).2 then
        (mDataTable.replace key (ufunc rec).1,
          ⟨some 1, [⟨.Update, some (ufunc rec).1⟩]⟩)
      else (mDataTable.erase key, ⟨some 1, [⟨.Delete, none⟩]⟩)
  | none =>
      match ifunc with
      | some rec =>
          let inserted := insert copy order key rec mDataTable
          (inserted.1, ⟨some 1, inserted.2⟩)
      | none => (mDataTable, ⟨some 0, []⟩)

/-- `updateByKey`. -/
def updateByKey (key : Key) (ufunc : Record → Record)
    (mDataTable : TableMap Key Record) : TableMap Key Record × TableAnswer Record :=
  match mDataTable.lookup key with
  | some rec =>
      (mDataTable.replace key (ufunc rec), ⟨some 1, [⟨.Update, some (ufunc rec)⟩]⟩)
  | none => (mDataTable, ⟨some 0, []⟩)

/-- `getByKey`; without the key a `TableException` is thrown. -/
def getByKey (copy : Record → Record) (key : Key) (mDataTable : TableMap Key Record) :
    Option Record :=
  (mDataTable.lookup key).map copy

/-- `size`. -/
def size (mDataTable : TableMap Key Record) : Nat := mDataTable.entries.length

/-- A call on the table, with the order of iteration that it leaves. -/
def step (copy : Record → Record) (order : Reordering Key Record)
    (mDataTable : TableMap Key Record) :
    TableOp Key Record Record → TableMap Key Record × TableAnswer Record
  | .insert key rec | .insertRvalue key rec =>
      let inserted := insert copy order key rec mDataTable
      (inserted.1, ⟨none, inserted.2⟩)
  | .deleteByKey key => deleteByKey key mDataTable
  | .deleteWhere func => deleteWhere func mDataTable
  | .updateOrDeleteByKey key ufunc ifunc =>
      updateOrDeleteByKey copy order key ufunc ifunc mDataTable
  | .updateByKey key ufunc => updateByKey key ufunc mDataTable
  | .updateWhere pfunc ufunc => updateWhere pfunc ufunc mDataTable

/-! ## Contents -/

variable {copy : Record → Record} {order : Reordering Key Record}

theorem contents_insert (key : Key) (rec : Record) (mDataTable : TableMap Key Record) :
    contents (insert copy order key rec mDataTable).1 =
      Function.update (contents mDataTable) key (some (copy rec)) := by
  simp only [insert, contents_reorder, FiniteMap.contents_insert]
  by_cases present : (mDataTable.lookup key).isSome = true
  · rw [if_pos present, contents_erase, Function.update_idem]
  · rw [if_neg present]

theorem contents_deleteByKey (key : Key) (mDataTable : TableMap Key Record) :
    contents (deleteByKey key mDataTable).1 =
      Function.update (contents mDataTable) key none := by
  unfold deleteByKey
  cases found : mDataTable.lookup key with
  | some rec => exact contents_erase mDataTable key
  | none => exact (Function.update_eq_self_iff.mpr found.symm).symm

theorem contents_deleteWhere (func : Record → Bool) (mDataTable : TableMap Key Record) :
    contents (deleteWhere func mDataTable).1 =
      fun key => (contents mDataTable key).filter fun rec => !func rec := by
  rw [← contents_filterValues]
  congr 1
  apply AList.ext
  change (deleteLoop func mDataTable.entries).1 = _
  rw [deleteLoop_eq]
  rfl

theorem contents_updateWhere (pfunc : Record → Bool) (ufunc : Record → Record)
    (mDataTable : TableMap Key Record) :
    contents (updateWhere pfunc ufunc mDataTable).1 =
      fun key => (contents mDataTable key).map fun rec =>
        if pfunc rec then ufunc rec else rec := by
  rw [← contents_mapValues]
  congr 1
  apply AList.ext
  change (updateLoop pfunc ufunc mDataTable.entries).1 = _
  rw [updateLoop_eq]
  rfl

theorem contents_updateByKey (key : Key) (ufunc : Record → Record)
    (mDataTable : TableMap Key Record) :
    contents (updateByKey key ufunc mDataTable).1 =
      Function.update (contents mDataTable) key ((contents mDataTable key).map ufunc) := by
  unfold updateByKey
  cases found : mDataTable.lookup key with
  | some rec =>
      have present : contents mDataTable key = some rec := found
      rw [present]
      exact contents_replace mDataTable present (ufunc rec)
  | none =>
      have absent : contents mDataTable key = none := found
      rw [absent]
      exact (Function.update_eq_self_iff.mpr absent.symm).symm

theorem contents_updateOrDeleteByKey (key : Key) (ufunc : Record → Record × Bool)
    (ifunc : Option Record) (mDataTable : TableMap Key Record) :
    contents (updateOrDeleteByKey copy order key ufunc ifunc mDataTable).1 =
      (TableOp.updateOrDeleteByKey key ufunc (ifunc.map copy)).apply
        (contents mDataTable) := by
  unfold updateOrDeleteByKey
  cases found : mDataTable.lookup key with
  | some rec =>
      have present : contents mDataTable key = some rec := found
      simp only [TableOp.apply, present]
      by_cases upd : (ufunc rec).2 = true
      · rw [if_pos upd, if_pos upd]
        exact contents_replace mDataTable present (ufunc rec).1
      · rw [if_neg upd, if_neg upd]
        exact contents_erase mDataTable key
  | none =>
      have absent : contents mDataTable key = none := found
      simp only [TableOp.apply, absent]
      cases ifunc with
      | some rec => exact contents_insert key rec mDataTable
      | none => exact (Function.update_eq_self_iff.mpr absent.symm).symm

/-- A call changes the records as it should, but for the copies of the records it
inserts. -/
theorem contents_step (mDataTable : TableMap Key Record) (op : TableOp Key Record Record) :
    contents (step copy order mDataTable op).1 =
      (op.stored copy).apply (contents mDataTable) := by
  cases op with
  | insert key rec => exact contents_insert key rec mDataTable
  | insertRvalue key rec => exact contents_insert key rec mDataTable
  | deleteByKey key => exact contents_deleteByKey key mDataTable
  | deleteWhere func => exact contents_deleteWhere func mDataTable
  | updateOrDeleteByKey key ufunc ifunc =>
      exact contents_updateOrDeleteByKey key ufunc ifunc mDataTable
  | updateByKey key ufunc => exact contents_updateByKey key ufunc mDataTable
  | updateWhere pfunc ufunc => exact contents_updateWhere pfunc ufunc mDataTable

/-- A call returns the number of keys it affects. -/
theorem count_step (mDataTable : TableMap Key Record) (op : TableOp Key Record Record) :
    (step copy order mDataTable op).2.count = op.returned (contents mDataTable) := by
  cases op with
  | insert key rec => rfl
  | insertRvalue key rec => rfl
  | deleteByKey key =>
      simp only [step, deleteByKey, TableOp.returned, TableOp.affected]
      cases found : mDataTable.lookup key with
      | some rec => simp [contents, found]
      | none => simp [contents, found]
  | deleteWhere func =>
      simp only [step, deleteWhere, deleteLoop_eq, TableOp.returned, TableOp.affected]
      rw [length_filter_entries]
  | updateOrDeleteByKey key ufunc ifunc =>
      simp only [step, updateOrDeleteByKey, TableOp.returned, TableOp.affected]
      cases found : mDataTable.lookup key with
      | some rec =>
          by_cases upd : (ufunc rec).2 = true
          · simp [contents, found, upd]
          · simp [contents, found, upd]
      | none =>
          cases ifunc with
          | some rec => simp
          | none => simp [contents, found]
  | updateByKey key ufunc =>
      simp only [step, updateByKey, TableOp.returned, TableOp.affected]
      cases found : mDataTable.lookup key with
      | some rec => simp [contents, found]
      | none => simp [contents, found]
  | updateWhere pfunc ufunc =>
      simp only [step, updateWhere, updateLoop_eq, TableOp.returned, TableOp.affected]
      rw [length_filter_entries]

end HashMapTable

end PipeFabric.Tables
