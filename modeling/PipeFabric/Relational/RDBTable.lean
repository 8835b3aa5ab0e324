import PipeFabric.Core.Tuple
import PipeFabric.Relational.HashMapTable

/-!
# Tables in a key-value store

`RDBTable` keeps its tuples serialized in a RocksDB database, under the object
representation of their keys, and counts them on its own.  The database is a map
from byte strings to byte strings; a scan reads a snapshot of it.
-/

namespace PipeFabric.Tables

open FiniteMap

/-- `RDBTable`; `numRecords` counts fewer than `2 ^ 64` insertions. -/
structure RDBTable where
  db : Entries StreamType StreamType
  numRecords : Nat

namespace RDBTable

variable {Key α : Type}

/-- A table with a new database. -/
def init : RDBTable := ⟨∅, 0⟩

/-- `detail::sliceToTuple`. -/
def sliceToTuple (Base : TupleElements α) (slice : StreamType) : Option (Tuple Base) :=
  Tuple.deserializeFromStream Base slice

/-- `size`. -/
def size (table : RDBTable) : Nat := table.numRecords

variable (Base : TupleElements α)

/-- The loop of `deleteWhere` over the snapshot. -/
def deleteLoop (func : Tuple Base → Bool) :
    List (Sigma fun _ : StreamType => StreamType) → Entries StreamType StreamType →
      Option (Entries StreamType StreamType × Nat × List (Notification (Tuple Base)))
  | [], db => some (db, 0, [])
  | it :: rest, db => do
      let tup ← sliceToTuple Base it.2
      if func tup then do
        let later ← deleteLoop func rest (db.erase it.1)
        some (later.1, later.2.1 + 1, ⟨.Delete, some tup⟩ :: later.2.2)
      else deleteLoop func rest db

/-- The loop of `updateWhere` over the snapshot. -/
def updateLoop (pfunc : Tuple Base → Bool) (ufunc : Tuple Base → Tuple Base) :
    List (Sigma fun _ : StreamType => StreamType) → Entries StreamType StreamType →
      Option (Entries StreamType StreamType × List (Notification (Tuple Base)))
  | [], db => some (db, [])
  | it :: rest, db => do
      let tup ← sliceToTuple Base it.2
      if pfunc tup then do
        let buf ← (ufunc tup).serializeToStream []
        let later ← updateLoop pfunc ufunc rest (AList.insert it.1 buf db)
        some (later.1, ⟨.Update, some (ufunc tup)⟩ :: later.2)
      else updateLoop pfunc ufunc rest db

variable {Base} (keyType : Pod Key)

/-- `detail::valToSlice`. -/
def valToSlice (key : Key) : StreamType := keyType.bytes key

/-- `insert`, which counts a tuple whether or not it replaces one. -/
def insert (key : Key) (rec : Tuple Base) (table : RDBTable) :
    Option (RDBTable × List (Notification (Tuple Base))) := do
  let buf ← rec.serializeToStream []
  some (⟨AList.insert (valToSlice keyType key) buf table.db, table.numRecords + 1⟩,
    [⟨.Insert, some rec⟩])

/-- `deleteByKey`. -/
def deleteByKey (key : Key) (table : RDBTable) :
    Option (RDBTable × TableAnswer (Tuple Base)) :=
  match table.db.lookup (valToSlice keyType key) with
  | some res => do
      let rec ← sliceToTuple Base res
      some (⟨table.db.erase (valToSlice keyType key), table.numRecords - 1⟩,
        ⟨some 1, [⟨.Delete, some rec⟩]⟩)
  | none => some (table, ⟨some 0, []⟩)

/-- `deleteWhere`. -/
def deleteWhere (func : Tuple Base → Bool) (table : RDBTable) :
    Option (RDBTable × TableAnswer (Tuple Base)) := do
  let scanned ← deleteLoop Base func table.db.entries table.db
  some (⟨scanned.1, table.numRecords - scanned.2.1⟩, ⟨some scanned.2.1, scanned.2.2⟩)

/-- `updateOrDeleteByKey`, which does not count a deletion. -/
def updateOrDeleteByKey (key : Key) (ufunc : Tuple Base → Tuple Base × Bool)
    (ifunc : Option (Tuple Base)) (table : RDBTable) :
    Option (RDBTable × TableAnswer (Tuple Base)) :=
  match table.db.lookup (valToSlice keyType key) with
  | some resultData => do
      let rec ← sliceToTuple Base resultData
      let res := ufunc rec
      if res.2 then do
        let buf ← res.1.serializeToStream []
        some ({ table with db := AList.insert (valToSlice keyType key) buf table.db },
          ⟨some 1, [⟨.Update, some res.1⟩]⟩)
      else
        some ({ table with db := table.db.erase (valToSlice keyType key) },
          ⟨some 1, [⟨.Delete, some res.1⟩]⟩)
  | none =>
      match ifunc with
      | some rec => do
          let inserted ← insert keyType key rec table
          some (inserted.1, ⟨some 1, inserted.2⟩)
      | none => some (table, ⟨some 0, []⟩)

/-- `updateByKey`. -/
def updateByKey (key : Key) (ufunc : Tuple Base → Tuple Base) (table : RDBTable) :
    Option (RDBTable × TableAnswer (Tuple Base)) :=
  match table.db.lookup (valToSlice keyType key) with
  | some resultData => do
      let rec ← sliceToTuple Base resultData
      let buf ← (ufunc rec).serializeToStream []
      some ({ table with db := AList.insert (valToSlice keyType key) buf table.db },
        ⟨some 1, [⟨.Update, some (ufunc rec)⟩]⟩)
  | none => some (table, ⟨some 0, []⟩)

/-- `updateWhere`, which returns the `num` it never increments. -/
def updateWhere (pfunc : Tuple Base → Bool) (ufunc : Tuple Base → Tuple Base)
    (table : RDBTable) : Option (RDBTable × TableAnswer (Tuple Base)) := do
  let scanned ← updateLoop Base pfunc ufunc table.db.entries table.db
  some ({ table with db := scanned.1 }, ⟨some 0, scanned.2⟩)

/-- `getByKey`; without the key a `TableException` is thrown. -/
def getByKey (key : Key) (table : RDBTable) : Option (Tuple Base) := do
  let resultData ← table.db.lookup (valToSlice keyType key)
  sliceToTuple Base resultData

/-- A call on the table. -/
def call (table : RDBTable) :
    TableOp Key (Tuple Base) (Tuple Base) → Option (RDBTable × TableAnswer (Tuple Base))
  | .insert key rec | .insertRvalue key rec => do
      let inserted ← insert keyType key rec table
      some (inserted.1, ⟨none, inserted.2⟩)
  | .deleteByKey key => deleteByKey keyType key table
  | .deleteWhere func => deleteWhere func table
  | .updateOrDeleteByKey key ufunc ifunc =>
      updateOrDeleteByKey keyType key ufunc ifunc table
  | .updateByKey key ufunc => updateByKey keyType key ufunc table
  | .updateWhere pfunc ufunc => updateWhere pfunc ufunc table

/-- A call and the order in which the database keeps its entries after it. -/
def step (order : Reordering StreamType StreamType) (table : RDBTable)
    (op : TableOp Key (Tuple Base) (Tuple Base)) :
    Option (RDBTable × TableAnswer (Tuple Base)) :=
  (call keyType table op).map fun result =>
    ({ result.1 with db := reorder order result.1.db }, result.2)

/-! ## What the database stores -/

/-- The serialized records under the slices of their keys. -/
def encoded (records : Key → Option (Tuple Base)) (slice : StreamType) :
    Option StreamType :=
  (keyType.ofBytes slice).bind fun key => (records key).map Tuple.bytes

variable {keyType}

theorem ofBytes_eq_some_iff {slice : StreamType} {key : Key} :
    keyType.ofBytes slice = some key ↔ keyType.bytes key = slice := by
  constructor
  · exact keyType.bytes_of_ofBytes slice key
  · intro same
    rw [← same]
    exact keyType.ofBytes_bytes key

theorem valToSlice_injective : Function.Injective (valToSlice keyType) := by
  intro first second same
  have read := keyType.ofBytes_bytes first
  rw [show keyType.bytes first = keyType.bytes second from same,
    keyType.ofBytes_bytes] at read
  exact (Option.some.inj read).symm

theorem encoded_valToSlice (records : Key → Option (Tuple Base)) (key : Key) :
    encoded keyType records (valToSlice keyType key) = (records key).map Tuple.bytes := by
  rw [encoded, valToSlice, keyType.ofBytes_bytes]
  rfl

theorem encoded_eq_some_iff {records : Key → Option (Tuple Base)}
    {slice value : StreamType} :
    encoded keyType records slice = some value ↔
      ∃ key rec, valToSlice keyType key = slice ∧ rec.bytes = value ∧
        records key = some rec := by
  constructor
  · intro stored
    obtain ⟨key, read, found⟩ := Option.bind_eq_some_iff.mp stored
    obtain ⟨rec, present, same⟩ := Option.map_eq_some_iff.mp found
    exact ⟨key, rec, ofBytes_eq_some_iff.mp read, same, present⟩
  · intro stored
    obtain ⟨key, rec, rfl, rfl, present⟩ := stored
    rw [encoded_valToSlice, present]
    rfl

/-- Writing under the slice of a key. -/
theorem encoded_update [DecidableEq Key] (records : Key → Option (Tuple Base)) (key : Key)
    (written : Option (Tuple Base)) :
    Function.update (encoded keyType records) (valToSlice keyType key)
        (written.map Tuple.bytes) =
      encoded keyType (Function.update records key written) := by
  funext slice
  by_cases here : slice = valToSlice keyType key
  · subst here
    rw [Function.update_self, encoded_valToSlice, Function.update_self]
  · rw [Function.update_of_ne here]
    cases read : keyType.ofBytes slice with
    | none => simp only [encoded, read, Option.bind_none]
    | some other =>
        have apart : other ≠ key := by
          intro same
          subst same
          exact here (ofBytes_eq_some_iff.mp read).symm
        simp only [encoded, read, Option.bind_some, Function.update_of_ne apart]

@[simp] theorem sliceToTuple_bytes (rec : Tuple Base) :
    sliceToTuple Base rec.bytes = some rec := rec.deserializeFromStream_bytes_nil

/-- Whether a scan selects a slice. -/
def selects (func : Tuple Base → Bool) (slice : StreamType) : Bool :=
  (sliceToTuple Base slice).any func

/-- What a scan writes for a slice. -/
def rewritten (ufunc : Tuple Base → Tuple Base) (slice : StreamType) : StreamType :=
  ((sliceToTuple Base slice).map fun tup => (ufunc tup).bytes).getD slice

theorem encoded_filter (records : Key → Option (Tuple Base)) (func : Tuple Base → Bool)
    (slice : StreamType) :
    (encoded keyType records slice).filter (fun value => !selects func value) =
      encoded keyType (fun key => (records key).filter fun rec => !func rec) slice := by
  simp only [encoded]
  cases keyType.ofBytes slice with
  | none => rfl
  | some key =>
      simp only [Option.bind_some]
      cases records key with
      | none => rfl
      | some rec =>
          cases matched : func rec with
          | true => simp [Option.filter, selects, matched]
          | false => simp [Option.filter, selects, matched]

theorem encoded_map (records : Key → Option (Tuple Base)) (pfunc : Tuple Base → Bool)
    (ufunc : Tuple Base → Tuple Base) (slice : StreamType) :
    (encoded keyType records slice).map (fun value =>
        if selects pfunc value then rewritten ufunc value else value) =
      encoded keyType (fun key =>
        (records key).map fun rec => if pfunc rec then ufunc rec else rec) slice := by
  simp only [encoded]
  cases keyType.ofBytes slice with
  | none => rfl
  | some key =>
      simp only [Option.bind_some]
      cases records key with
      | none => rfl
      | some rec =>
          cases matched : pfunc rec with
          | true => simp [selects, rewritten, matched]
          | false => simp [selects, matched]

/-- Every entry is a serialized tuple. -/
def Serialized (Base : TupleElements α)
    (entries : List (Sigma fun _ : StreamType => StreamType)) : Prop :=
  ∀ it ∈ entries, ∃ tup : Tuple Base, it.2 = tup.bytes

theorem deleteLoop_eq (func : Tuple Base → Bool)
    (entries : List (Sigma fun _ : StreamType => StreamType))
    (serialized : Serialized Base entries) (db : Entries StreamType StreamType) :
    ∃ notes, deleteLoop Base func entries db =
      some ((entries.filter fun it => selects func it.2).foldl
          (fun db it => db.erase it.1) db,
        (entries.filter fun it => selects func it.2).length, notes) := by
  induction entries generalizing db with
  | nil => exact ⟨[], rfl⟩
  | cons it entries induction =>
      obtain ⟨first, rest⟩ := List.forall_mem_cons.mp serialized
      obtain ⟨tup, same⟩ := first
      cases matched : func tup with
      | true =>
          obtain ⟨notes, later⟩ := induction rest (db.erase it.1)
          have selected : selects func it.2 = true := by simp [selects, same, matched]
          refine ⟨⟨.Delete, some tup⟩ :: notes, ?_⟩
          rw [List.filter_cons, if_pos selected, List.foldl_cons, List.length_cons]
          simp [deleteLoop, same, matched, later]
      | false =>
          obtain ⟨notes, later⟩ := induction rest db
          have skipped : selects func it.2 = false := by simp [selects, same, matched]
          refine ⟨notes, ?_⟩
          rw [List.filter_cons, if_neg (Bool.eq_false_iff.mp skipped)]
          simp [deleteLoop, same, matched, later]

theorem updateLoop_eq (pfunc : Tuple Base → Bool) (ufunc : Tuple Base → Tuple Base)
    (entries : List (Sigma fun _ : StreamType => StreamType))
    (serialized : Serialized Base entries) (db : Entries StreamType StreamType) :
    ∃ notes, updateLoop Base pfunc ufunc entries db =
      some ((entries.filter fun it => selects pfunc it.2).foldl
          (fun db it => AList.insert it.1 (rewritten ufunc it.2) db) db, notes) := by
  induction entries generalizing db with
  | nil => exact ⟨[], rfl⟩
  | cons it entries induction =>
      obtain ⟨first, rest⟩ := List.forall_mem_cons.mp serialized
      obtain ⟨tup, same⟩ := first
      cases matched : pfunc tup with
      | true =>
          obtain ⟨notes, later⟩ := induction rest (AList.insert it.1 (ufunc tup).bytes db)
          have selected : selects pfunc it.2 = true := by simp [selects, same, matched]
          have written : rewritten ufunc it.2 = (ufunc tup).bytes := by
            simp [rewritten, same]
          refine ⟨⟨.Update, some (ufunc tup)⟩ :: notes, ?_⟩
          rw [List.filter_cons, if_pos selected, List.foldl_cons, written]
          simp [updateLoop, same, matched, later]
      | false =>
          obtain ⟨notes, later⟩ := induction rest db
          have skipped : selects pfunc it.2 = false := by simp [selects, same, matched]
          refine ⟨notes, ?_⟩
          rw [List.filter_cons, if_neg (Bool.eq_false_iff.mp skipped)]
          simp [updateLoop, same, matched, later]

/-! ## What a call leaves in the database -/

/-- The record counter is not off after the call. -/
def Counted (records : Key → Option (Tuple Base)) :
    TableOp Key (Tuple Base) (Tuple Base) → Prop
  | .insert key _ => records key = none
  | .insertRvalue key _ => records key = none
  | .updateOrDeleteByKey key ufunc _ => ∀ rec ∈ records key, (ufunc rec).2 = true
  | .deleteByKey _ | .deleteWhere _ | .updateByKey _ _ | .updateWhere _ _ => True

/-- The call returns the number of tuples it has affected. -/
def Returned (records : Key → Option (Tuple Base)) :
    TableOp Key (Tuple Base) (Tuple Base) → Prop
  | .updateWhere pfunc _ => ∀ key, ∀ rec ∈ records key, pfunc rec = false
  | .insert _ _ | .insertRvalue _ _ | .deleteByKey _ | .deleteWhere _
  | .updateOrDeleteByKey _ _ _ | .updateByKey _ _ => True

variable [DecidableEq Key]

/-- The database follows the call; the counter and the returned number do so in the
cases above. -/
structure Answered (keyType : Pod Key) (records : Key → Option (Tuple Base))
    (op : TableOp Key (Tuple Base) (Tuple Base))
    (result : RDBTable × TableAnswer (Tuple Base)) : Prop where
  contents : contents result.1.db = encoded keyType (op.apply records)
  counted : result.1.numRecords = result.1.db.entries.length ↔ Counted records op
  returned : result.2.count = op.returned records ↔ Returned records op

/-- A table with the given records and the right number of them. -/
structure Holds (keyType : Pod Key) (table : RDBTable)
    (records : Key → Option (Tuple Base)) : Prop where
  contents : contents table.db = encoded keyType records
  counted : table.numRecords = table.db.entries.length

variable {table : RDBTable} {records : Key → Option (Tuple Base)}

omit [DecidableEq Key] in
theorem Holds.lookup (holds : Holds keyType table records) (key : Key) :
    table.db.lookup (valToSlice keyType key) = (records key).map Tuple.bytes := by
  rw [← encoded_valToSlice, ← holds.contents]
  rfl

omit [DecidableEq Key] in
theorem Holds.serialized (holds : Holds keyType table records) :
    Serialized Base table.db.entries := by
  intro it member
  have stored := mem_contents_iff.mpr member
  rw [holds.contents, encoded_eq_some_iff] at stored
  obtain ⟨_, rec, _, same, _⟩ := stored
  exact ⟨rec, same.symm⟩

theorem Holds.put (holds : Holds keyType table records) (key : Key) (rec : Tuple Base) :
    FiniteMap.contents (AList.insert (valToSlice keyType key) rec.bytes table.db) =
      encoded keyType (Function.update records key (some rec)) := by
  rw [contents_insert, holds.contents]
  exact encoded_update records key (some rec)

theorem Holds.delete (holds : Holds keyType table records) (key : Key) :
    FiniteMap.contents (table.db.erase (valToSlice keyType key)) =
      encoded keyType (Function.update records key none) := by
  rw [contents_erase, holds.contents]
  exact encoded_update records key none

omit [DecidableEq Key] in
theorem Holds.present (holds : Holds keyType table records) {key : Key} {rec : Tuple Base}
    (found : records key = some rec) :
    FiniteMap.contents table.db (valToSlice keyType key) = some rec.bytes := by
  rw [holds.contents, encoded_valToSlice, found]
  rfl

omit [DecidableEq Key] in
theorem Holds.absent (holds : Holds keyType table records) {key : Key}
    (missing : records key = none) :
    FiniteMap.contents table.db (valToSlice keyType key) = none := by
  rw [holds.contents, encoded_valToSlice, missing]
  rfl

omit [DecidableEq Key] in
/-- A scan selects as many entries as there are keys with selected records. -/
theorem Holds.length_selected (holds : Holds keyType table records)
    (func : Tuple Base → Bool) :
    (table.db.entries.filter fun it => selects func it.2).length =
      {key | ∃ rec, records key = some rec ∧ func rec}.ncard := by
  have slices : {slice | ∃ value, FiniteMap.contents table.db slice = some value ∧
        selects func value} =
      valToSlice keyType '' {key | ∃ rec, records key = some rec ∧ func rec} := by
    ext slice
    simp only [Set.mem_ofPred_eq, Set.mem_image, holds.contents, encoded_eq_some_iff]
    constructor
    · intro selected
      obtain ⟨_, ⟨key, rec, rfl, rfl, found⟩, matched⟩ := selected
      refine ⟨key, ⟨rec, found, ?_⟩, rfl⟩
      simpa [selects] using matched
    · intro selected
      obtain ⟨key, ⟨rec, found, matched⟩, rfl⟩ := selected
      refine ⟨rec.bytes, ⟨key, rec, rfl, rfl, found⟩, ?_⟩
      simpa [selects] using matched
  rw [length_filter_entries, slices, Set.ncard_image_of_injective _ valToSlice_injective]

omit [DecidableEq Key] in
theorem Holds.nothing_selected_iff (holds : Holds keyType table records)
    (func : Tuple Base → Bool) :
    (table.db.entries.filter fun it => selects func it.2).length = 0 ↔
      ∀ key, ∀ rec ∈ records key, func rec = false := by
  rw [List.length_eq_zero_iff, List.filter_eq_nil_iff]
  constructor
  · intro nothing key rec found
    have skipped := nothing _ (mem_contents_iff.mp (holds.present found))
    simpa [selects] using skipped
  · intro nothing it member
    have stored := mem_contents_iff.mpr member
    rw [holds.contents, encoded_eq_some_iff] at stored
    obtain ⟨key, rec, _, same, found⟩ := stored
    simp [selects, ← same, nothing key rec found]

omit [DecidableEq Key] in
/-- An insertion is counted right if the key is new. -/
theorem Holds.counted_put (holds : Holds keyType table records) (key : Key)
    (rec : Tuple Base) :
    table.numRecords + 1 =
        (AList.insert (valToSlice keyType key) rec.bytes table.db).entries.length ↔
      records key = none := by
  rw [holds.counted]
  cases found : records key with
  | none => exact iff_of_true (length_insert_of_absent (holds.absent found) _).symm rfl
  | some old =>
      rw [length_insert_of_present (holds.present found)]
      simp

theorem deleteByKey_answered (holds : Holds keyType table records) (key : Key) :
    ∃ result : RDBTable × TableAnswer (Tuple Base),
      deleteByKey keyType key table = some result ∧
      Answered keyType records (.deleteByKey key) result := by
  simp only [deleteByKey, holds.lookup]
  cases found : records key with
  | some rec =>
      refine ⟨_, by simp only [Option.map_some, sliceToTuple_bytes]; rfl,
        holds.delete key, ?_, ?_⟩
      · have shorter := length_erase (holds.present found)
        have counted := holds.counted
        simp only [Counted, iff_true]
        omega
      · simp [Returned, TableOp.returned, TableOp.affected, found]
  | none =>
      refine ⟨_, rfl, ?_, iff_of_true holds.counted trivial, ?_⟩
      · rw [holds.contents]
        congr 1
        exact (Function.update_eq_self_iff.mpr found.symm).symm
      · simp [Returned, TableOp.returned, TableOp.affected, found]

theorem deleteWhere_answered (holds : Holds keyType table records)
    (func : Tuple Base → Bool) :
    ∃ result, deleteWhere func table = some result ∧
      Answered keyType records (.deleteWhere func) result := by
  obtain ⟨notes, scanned⟩ := deleteLoop_eq func table.db.entries holds.serialized table.db
  have kept := contents_eraseSelected (selects func) table.db
  refine ⟨_, by rw [deleteWhere, scanned]; rfl, ?_, ?_, ?_⟩
  · rw [kept, holds.contents]
    funext slice
    exact encoded_filter records func slice
  · have remaining : FiniteMap.contents _ =
        FiniteMap.contents (filterValues (fun value => !selects func value) table.db) :=
      kept.trans (contents_filterValues _ table.db).symm
    have left := (perm_entries remaining).length_eq
    have all := List.length_eq_length_filter_add (l := table.db.entries)
      fun it => selects func it.2
    have counted := holds.counted
    simp only [Counted, iff_true, left, filterValues]
    omega
  · exact iff_of_true (congrArg some (holds.length_selected func)) trivial

theorem updateOrDeleteByKey_answered (holds : Holds keyType table records) (key : Key)
    (ufunc : Tuple Base → Tuple Base × Bool) (ifunc : Option (Tuple Base)) :
    ∃ result, updateOrDeleteByKey keyType key ufunc ifunc table = some result ∧
      Answered keyType records (.updateOrDeleteByKey key ufunc ifunc) result := by
  simp only [updateOrDeleteByKey, holds.lookup]
  have counted := holds.counted
  cases found : records key with
  | some rec =>
      by_cases upd : (ufunc rec).2 = true
      · refine ⟨_, by
          simp only [Option.map_some, sliceToTuple_bytes, Option.bind_eq_bind,
            Option.bind_some, upd, if_true, Tuple.serializeToStream_nil]; rfl, ?_, ?_, ?_⟩
        · simp only [TableOp.apply, found, upd, if_true]
          exact holds.put key (ufunc rec).1
        · refine iff_of_true ?_ (by simp [Counted, found, upd])
          exact counted.trans (length_insert_of_present (holds.present found) _).symm
        · simp [Returned, TableOp.returned, TableOp.affected, found]
      · refine ⟨_, by
          simp only [Option.map_some, sliceToTuple_bytes, Option.bind_eq_bind,
            Option.bind_some, upd, Bool.false_eq_true, if_false]; rfl, ?_, ?_, ?_⟩
        · simp only [TableOp.apply, found, upd, Bool.false_eq_true, if_false]
          exact holds.delete key
        · have shorter := length_erase (holds.present found)
          refine iff_of_false ?_ fun kept => upd (kept rec found)
          dsimp only
          omega
        · simp [Returned, TableOp.returned, TableOp.affected, found]
  | none =>
      cases ifunc with
      | some rec =>
          refine ⟨_, by
            simp only [Option.map_none, insert, Tuple.serializeToStream_nil]; rfl,
            ?_, ?_, ?_⟩
          · simp only [TableOp.apply, found]
            exact holds.put key rec
          · refine iff_of_true ?_ (by simp [Counted, found])
            exact (holds.counted_put key rec).mpr found
          · simp [Returned, TableOp.returned, TableOp.affected, found]
      | none =>
          refine ⟨_, rfl, ?_, ?_, ?_⟩
          · simp only [TableOp.apply, found]
            rw [holds.contents]
            congr 1
            exact (Function.update_eq_self_iff.mpr found.symm).symm
          · simp [Counted, found, counted]
          · simp [Returned, TableOp.returned, TableOp.affected, found]

theorem updateByKey_answered (holds : Holds keyType table records) (key : Key)
    (ufunc : Tuple Base → Tuple Base) :
    ∃ result, updateByKey keyType key ufunc table = some result ∧
      Answered keyType records (.updateByKey key ufunc) result := by
  simp only [updateByKey, holds.lookup]
  cases found : records key with
  | some rec =>
      refine ⟨_, by
        simp only [Option.map_some, sliceToTuple_bytes, Option.bind_eq_bind,
          Option.bind_some, Tuple.serializeToStream_nil]; rfl, ?_, ?_, ?_⟩
      · simp only [TableOp.apply, found, Option.map_some]
        exact holds.put key (ufunc rec)
      · refine iff_of_true ?_ trivial
        exact holds.counted.trans (length_insert_of_present (holds.present found) _).symm
      · simp [Returned, TableOp.returned, TableOp.affected, found]
  | none =>
      refine ⟨_, rfl, ?_, iff_of_true holds.counted trivial, ?_⟩
      · simp only [TableOp.apply, found, Option.map_none]
        rw [holds.contents]
        congr 1
        exact (Function.update_eq_self_iff.mpr found.symm).symm
      · simp [Returned, TableOp.returned, TableOp.affected, found]

theorem updateWhere_answered (holds : Holds keyType table records)
    (pfunc : Tuple Base → Bool) (ufunc : Tuple Base → Tuple Base) :
    ∃ result, updateWhere pfunc ufunc table = some result ∧
      Answered keyType records (.updateWhere pfunc ufunc) result := by
  obtain ⟨notes, scanned⟩ :=
    updateLoop_eq pfunc ufunc table.db.entries holds.serialized table.db
  have changed := contents_insertSelected (selects pfunc) (rewritten ufunc) table.db
  refine ⟨_, by rw [updateWhere, scanned]; rfl, ?_, ?_, ?_⟩
  · rw [changed, holds.contents]
    funext slice
    exact encoded_map records pfunc ufunc slice
  · have mapped := changed.trans (contents_mapValues _ table.db).symm
    have same := (perm_entries mapped).length_eq
    simp only [Counted, iff_true, same, holds.counted]
    exact (List.length_map _).symm
  · refine Iff.trans ?_ (holds.nothing_selected_iff pfunc)
    rw [holds.length_selected pfunc]
    exact Option.some_inj.trans eq_comm

/-- The answer to every call. -/
theorem call_answered (holds : Holds keyType table records)
    (op : TableOp Key (Tuple Base) (Tuple Base)) :
    ∃ result, call keyType table op = some result ∧ Answered keyType records op result := by
  cases op with
  | insert key rec =>
      refine ⟨_, by simp only [call, insert, Tuple.serializeToStream_nil]; rfl,
        holds.put key rec, holds.counted_put key rec, iff_of_true rfl trivial⟩
  | insertRvalue key rec =>
      refine ⟨_, by simp only [call, insert, Tuple.serializeToStream_nil]; rfl,
        holds.put key rec, holds.counted_put key rec, iff_of_true rfl trivial⟩
  | deleteByKey key => exact deleteByKey_answered holds key
  | deleteWhere func => exact deleteWhere_answered holds func
  | updateOrDeleteByKey key ufunc ifunc =>
      exact updateOrDeleteByKey_answered holds key ufunc ifunc
  | updateByKey key ufunc => exact updateByKey_answered holds key ufunc
  | updateWhere pfunc ufunc => exact updateWhere_answered holds pfunc ufunc

end RDBTable

end PipeFabric.Tables
