import PipeFabric.Library.SortUnique
import PipeFabric.Table.GroupCommit

/-!
# Write sets

`MVCCTable` and `BOCCTable` buffer the writes of the current transaction and
apply them when it commits.
-/

namespace PipeFabric

structure WriteSet (K R : Type) where
  txnID : Nat
  set : List (K × R)

namespace WriteSet

variable {K R : Type}

def insert (writeSet : WriteSet K R) (key : K) (rec : R) : WriteSet K R :=
  { writeSet with set := writeSet.set ++ [(key, rec)] }

def clean (_writeSet : WriteSet K R) : WriteSet K R := { txnID := 0, set := [] }

/-- `std::find_if` over the buffered writes. -/
def find [DecidableEq K] (writeSet : WriteSet K R) (key : K) : Option R :=
  (writeSet.set.find? fun e => e.1 = key).map Prod.snd

/-- `std::sort`, `std::unique` on equal keys, `erase`. -/
def removeDuplicates [LinearOrder K] [LinearOrder R] (writeSet : WriteSet K R) :
    WriteSet K R :=
  { writeSet with set := SortUnique.sortUnique writeSet.set }

end WriteSet

/-- A table whose operations before the commit touch its write set only. -/
class BufferedTable (Tbl : Type) (K R : outParam Type) extends
    TransactionalTable Tbl K R where
  writeSet : Tbl → WriteSet K R
  setWriteSet : Tbl → WriteSet K R → Tbl
  writeSet_set : ∀ table ws, writeSet (setWriteSet table ws) = ws
  set_self : ∀ table, setWriteSet table (writeSet table) = table
  set_set : ∀ table ws later,
    setWriteSet (setWriteSet table ws) later = setWriteSet table later
  transactionBegin_eq : ∀ table txnID, transactionBegin table txnID =
    setWriteSet table { writeSet table with txnID := txnID }
  insert_eq : ∀ table txnID key rec, insert table txnID key rec =
    some (setWriteSet table ((writeSet table).insert key rec))
  transactionAbort_eq : ∀ table txnID, transactionAbort table txnID =
    setWriteSet table (writeSet table).clean

attribute [simp] BufferedTable.writeSet_set BufferedTable.set_self
  BufferedTable.set_set

namespace BufferedTable

variable {Tbl K R : Type} [BufferedTable Tbl K R]

/-- The table without the buffered writes. -/
def storage (table : Tbl) : Tbl := setWriteSet table { txnID := 0, set := [] }

@[simp] theorem storage_set (table : Tbl) (ws : WriteSet K R) :
    storage (setWriteSet table ws) = storage table := by
  simp [storage]

end BufferedTable

end PipeFabric
