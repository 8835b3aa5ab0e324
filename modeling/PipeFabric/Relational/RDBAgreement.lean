import PipeFabric.Library.Lockstep
import PipeFabric.Relational.RDBTable

/-!
# RocksDB tables in place of hash map tables

The same calls are made on a `HashMapTable` and an `RDBTable`.  The two are
interchangeable if after every call they hold the same records, have returned the
same numbers and report the same size, which is the number of keys.
-/

namespace PipeFabric.Tables.RDBAgreement

open FiniteMap

variable {Key α : Type} {Base : TupleElements α}

/-- The two tables. -/
structure Pair (Key : Type) (Base : TupleElements α) where
  hash : TableMap Key (Tuple Base)
  rdb : RDBTable

/-- The empty tables. -/
def Pair.init : Pair Key Base := ⟨∅, .init⟩

/-- A call with the orders of iteration it leaves. -/
structure Call (Key : Type) (Base : TupleElements α) where
  op : TableOp Key (Tuple Base) (Tuple Base)
  hashOrder : Reordering Key (Tuple Base)
  rdbOrder : Reordering StreamType StreamType

variable [DecidableEq Key]

/-- A call on both tables and the numbers they return. -/
def step (keyType : Pod Key) (tables : Pair Key Base) (call : Call Key Base) :
    Option (Pair Key Base × Option Nat × Option Nat) :=
  (RDBTable.step keyType call.rdbOrder tables.rdb call.op).map fun rdb =>
    let hash := HashMapTable.step Tuple.copy call.hashOrder tables.hash call.op
    (⟨hash.1, rdb.1⟩, hash.2.count, rdb.2.count)

/-- The records that the calls describe. -/
def reference (records : Key → Option (Tuple Base)) (call : Call Key Base) :
    Option ((Key → Option (Tuple Base)) × Unit) :=
  some (call.op.apply records, ())

/-- The tables hold the same records, have returned the same number and report the
number of their keys. -/
structure Interchangeable (keyType : Pod Key)
    (next : Pair Key Base × Option Nat × Option Nat) : Prop where
  contents : ∀ key,
    RDBTable.getByKey keyType key next.1.rdb = contents next.1.hash key
  count : next.2.1 = next.2.2
  size : next.1.rdb.size = HashMapTable.size next.1.hash
  keys : next.1.rdb.size = {key | (FiniteMap.contents next.1.hash key).isSome}.ncard

/-- Tuples are inserted without null flags and under new keys, `updateOrDeleteByKey`
deletes nothing and `updateWhere` finds nothing to update. -/
structure Alike (records : Key → Option (Tuple Base)) (call : Call Key Base) : Prop where
  copied : call.op.KeepsInserted Tuple.copy records
  counted : RDBTable.Counted records call.op
  returned : RDBTable.Returned records call.op

/-- The tables hold the given records. -/
structure Related (keyType : Pod Key) (tables : Pair Key Base)
    (records : Key → Option (Tuple Base)) : Prop where
  hash : FiniteMap.contents tables.hash = records
  rdb : RDBTable.Holds keyType tables.rdb records

omit [DecidableEq Key] in
theorem getByKey_of_contents {keyType : Pod Key} {table : RDBTable}
    {records : Key → Option (Tuple Base)}
    (stored : FiniteMap.contents table.db = RDBTable.encoded keyType records) (key : Key) :
    RDBTable.getByKey keyType key table = records key := by
  have found : table.db.lookup (RDBTable.valToSlice keyType key) =
      (records key).map Tuple.bytes := by
    rw [← RDBTable.encoded_valToSlice, ← stored]
    rfl
  rw [RDBTable.getByKey, found]
  cases records key with
  | none => rfl
  | some rec => exact RDBTable.sliceToTuple_bytes rec

/-- A hash map table and a database with the same records have the same number of
entries. -/
theorem length_db {keyType : Pod Key} {table : RDBTable} {hash : TableMap Key (Tuple Base)}
    {records : Key → Option (Tuple Base)} (held : FiniteMap.contents hash = records)
    (stored : FiniteMap.contents table.db = RDBTable.encoded keyType records) :
    table.db.entries.length = hash.entries.length := by
  have same : FiniteMap.contents table.db = FiniteMap.contents
      (encode (RDBTable.valToSlice keyType) RDBTable.valToSlice_injective Tuple.bytes
        hash) := by
    rw [stored]
    funext slice
    apply Option.ext
    intro value
    rw [RDBTable.encoded_eq_some_iff, contents_encode_eq_some, held]
  rw [(perm_entries same).length_eq]
  exact List.length_map _

/-- The answer of the database table to every call. -/
theorem rdb_step {keyType : Pod Key} {table : RDBTable}
    {records : Key → Option (Tuple Base)}
    (holds : RDBTable.Holds keyType table records) (call : Call Key Base) :
    ∃ result, RDBTable.step keyType call.rdbOrder table call.op = some result ∧
      RDBTable.Answered keyType records call.op result := by
  obtain ⟨result, called, answered⟩ := RDBTable.call_answered holds call.op
  refine ⟨({ result.1 with db := reorder call.rdbOrder result.1.db }, result.2),
    by rw [RDBTable.step, called]; rfl, ?_, ?_, answered.returned⟩
  · rw [contents_reorder]
    exact answered.contents
  · have same := (call.rdbOrder.perm result.1.db.entries).length_eq
    simp only [reorder, same]
    exact answered.counted

/-- A call that is to be treated alike keeps the tables interchangeable. -/
theorem step_alike {keyType : Pod Key} {tables : Pair Key Base}
    {records : Key → Option (Tuple Base)} (related : Related keyType tables records)
    (call : Call Key Base) (alike : Alike records call) :
    ∃ next, step keyType tables call = some next ∧ Interchangeable keyType next ∧
      Related keyType next.1 (call.op.apply records) := by
  obtain ⟨result, called, answered⟩ := rdb_step related.rdb call
  have hash : FiniteMap.contents (HashMapTable.step Tuple.copy call.hashOrder tables.hash
      call.op).1 = call.op.apply records := by
    rw [HashMapTable.contents_step, related.hash]
    exact (TableOp.apply_stored_eq_iff _ _ _).mpr alike.copied
  have count : (HashMapTable.step Tuple.copy call.hashOrder tables.hash
      call.op).2.count = call.op.returned records := by
    rw [HashMapTable.count_step, related.hash]
  have counted := answered.counted.mpr alike.counted
  have length := length_db hash answered.contents
  refine ⟨_, by rw [step, called]; rfl, ⟨?_, ?_, ?_, ?_⟩, ⟨hash, answered.contents, counted⟩⟩
  · intro key
    rw [hash]
    exact getByKey_of_contents answered.contents key
  · exact count.trans (answered.returned.mpr alike.returned).symm
  · exact counted.trans length
  · rw [← length_entries]
    exact counted.trans length

/-- Tables that a call leaves interchangeable treat it alike. -/
theorem alike_of_interchangeable {keyType : Pod Key} {tables : Pair Key Base}
    {records : Key → Option (Tuple Base)} (related : Related keyType tables records)
    (call : Call Key Base) {next : Pair Key Base × Option Nat × Option Nat}
    (stepped : step keyType tables call = some next)
    (same : Interchangeable keyType next) : Alike records call := by
  obtain ⟨result, called, answered⟩ := rdb_step related.rdb call
  rw [step, called] at stepped
  cases stepped
  have stored : FiniteMap.contents (HashMapTable.step Tuple.copy call.hashOrder
      tables.hash call.op).1 = call.op.apply records := by
    funext key
    rw [← same.contents]
    exact getByKey_of_contents answered.contents key
  have length := length_db stored answered.contents
  have count : (HashMapTable.step Tuple.copy call.hashOrder tables.hash
      call.op).2.count = call.op.returned records := by
    rw [HashMapTable.count_step, related.hash]
  rw [HashMapTable.contents_step, related.hash] at stored
  exact ⟨(TableOp.apply_stored_eq_iff _ _ _).mp stored,
    answered.counted.mp (same.size.trans length.symm),
    answered.returned.mp (same.count.symm.trans count)⟩

theorem related_init (keyType : Pod Key) :
    Related keyType (Pair.init : Pair Key Base) fun _ => none := by
  refine ⟨contents_empty, ?_, rfl⟩
  funext slice
  rw [RDBTable.encoded]
  cases keyType.ofBytes slice with
  | none => rfl
  | some key => rfl

/-- For every sequence of calls on two empty tables, the tables hold the same records,
return the same numbers and report the number of their keys after every call if and
only if every call inserts tuples without null flags and under new keys, deletes
nothing through `updateOrDeleteByKey` and updates nothing through `updateWhere`. -/
theorem rdbTable_interchangeable (keyType : Pod Key) (calls : List (Call Key Base)) :
    Lockstep.Agree (step keyType) reference (fun next _ => Interchangeable keyType next)
        Pair.init (fun _ => none) calls ↔
      Lockstep.Along reference Alike (fun _ => none) calls := by
  apply Lockstep.agree_iff (Related keyType)
  · intro tables records call after related legal alike
    cases legal
    exact step_alike related call alike
  · intro tables records call after next related _ stepped same
    exact alike_of_interchangeable related call stepped same
  · exact related_init keyType

/-- A key is inserted twice and counted twice. -/
theorem rdbTable_not_interchangeable :
    ¬ Lockstep.Agree (step Pod.byte) reference
      (fun next _ => Interchangeable Pod.byte next)
      (Pair.init : Pair UInt8 (.last (.pod Pod.byte))) (fun _ => none)
      [⟨.insert 1 (.ofData 5), .keep, .keep⟩, ⟨.insert 1 (.ofData 5), .keep, .keep⟩] := by
  intro agree
  obtain ⟨first, inserted, _, agree⟩ := agree _ rfl
  cases inserted
  obtain ⟨second, again, same, _⟩ := agree _ rfl
  cases again
  exact absurd same.size (by decide)

end PipeFabric.Tables.RDBAgreement
