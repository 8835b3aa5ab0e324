import PipeFabric.Table.CuckooTable
import PipeFabric.Table.GroupCommit

/-!
# The table with strict two-phase locking

Writes go to the storage at once, under an exclusive lock of the key that is
held until the transaction ends.  A reader holds shared locks on the keys it has
read.
-/

namespace PipeFabric

structure RowLock where
  active_readers : Int
  active_writer : Bool
  deriving DecidableEq

/-- The map of locks; a missing entry is created unlocked. -/
structure S2PLLocks (K : Type) where
  locks : K → RowLock

namespace S2PLLocks

variable {K : Type}

def empty : S2PLLocks K :=
  { locks := fun _ => { active_readers := 0, active_writer := false } }

variable [DecidableEq K]

def set (locks : S2PLLocks K) (key : K) (rl : RowLock) : S2PLLocks K :=
  { locks := Function.update locks.locks key rl }

/-- Fails, without waiting, if the exclusive flag is set. -/
def lockShared (locks : S2PLLocks K) (key : K) : Option (S2PLLocks K) :=
  let rl := locks.locks key
  if rl.active_writer then none
  else some (locks.set key { rl with active_readers := rl.active_readers + 1 })

def unlockShared (locks : S2PLLocks K) (key : K) : S2PLLocks K :=
  let rl := locks.locks key
  locks.set key { rl with active_readers := rl.active_readers - 1 }

/-- The first part of `lockExclusive`. -/
def setWriter (locks : S2PLLocks K) (key : K) : S2PLLocks K :=
  locks.set key { locks.locks key with active_writer := true }

/-- `lockExclusive` waits until this holds. -/
def noReaders (locks : S2PLLocks K) (key : K) : Bool :=
  (locks.locks key).active_readers == 0

/-- `lockExclusive` run without interruption: with active readers it waits
forever. -/
def lockExclusive (locks : S2PLLocks K) (key : K) : Option (S2PLLocks K) :=
  let locks := locks.setWriter key
  if locks.noReaders key then some locks else none

def unlockExclusive (locks : S2PLLocks K) (key : K) : S2PLLocks K :=
  locks.set key { locks.locks key with active_writer := false }

@[simp] theorem set_locks (locks : S2PLLocks K) (key other : K) (rl : RowLock) :
    (locks.set key rl).locks other =
      if other = key then rl else locks.locks other := by
  simp [set, Function.update_apply]

theorem setWriter_readers (locks : S2PLLocks K) (key other : K) :
    ((locks.setWriter key).locks other).active_readers =
      (locks.locks other).active_readers := by
  by_cases same : other = key
  · subst same
    simp [setWriter]
  · simp [setWriter, same]

theorem unlockExclusive_readers (locks : S2PLLocks K) (key other : K) :
    ((locks.unlockExclusive key).locks other).active_readers =
      (locks.locks other).active_readers := by
  by_cases same : other = key
  · subst same
    simp [unlockExclusive]
  · simp [unlockExclusive, same]

theorem unlockShared_writer (locks : S2PLLocks K) (key other : K) :
    ((locks.unlockShared key).locks other).active_writer =
      (locks.locks other).active_writer := by
  by_cases same : other = key
  · subst same
    simp [unlockShared]
  · simp [unlockShared, same]

theorem lockShared_eq_some {locks next : S2PLLocks K} {key : K}
    (locked : locks.lockShared key = some next) :
    (locks.locks key).active_writer = false ∧
      next = locks.set key { locks.locks key with
        active_readers := (locks.locks key).active_readers + 1 } := by
  simp only [lockShared] at locked
  split at locked
  case isTrue => cases locked
  case isFalse unset =>
    constructor
    · exact Bool.eq_false_of_not_eq_true unset
    · exact (Option.some.inj locked).symm

end S2PLLocks

structure S2PLTable (K R Tbl : Type) where
  locks : S2PLLocks K
  wKeysLocked : List K
  tbl : Tbl

namespace S2PLTable

variable {K R Tbl : Type} [UnderlyingTable Tbl K R]

def empty : S2PLTable K R Tbl :=
  { locks := .empty, wKeysLocked := [], tbl := UnderlyingTable.empty }

/-- Nothing but a counter for evaluation changes. -/
def transactionBegin (table : S2PLTable K R Tbl) (_txnID : Nat) :
    S2PLTable K R Tbl :=
  table

variable [DecidableEq K]

/-- Locks the key and inserts the record. -/
def insert (table : S2PLTable K R Tbl) (_txnID : Nat) (key : K) (rec : R) :
    Option (S2PLTable K R Tbl) := do
  let locks ← table.locks.lockExclusive key
  return { locks := locks
           wKeysLocked := table.wKeysLocked ++ [key]
           tbl := UnderlyingTable.insert table.tbl key rec }

/-- Locks the key and deletes its record at once. -/
def deleteByKey (table : S2PLTable K R Tbl) (_txnID : Nat) (key : K) :
    Option (Nat × S2PLTable K R Tbl) := do
  let locks ← table.locks.lockExclusive key
  let (count, tbl) := UnderlyingTable.deleteByKey table.tbl key
  return (count, { locks := locks
                   wKeysLocked := table.wKeysLocked ++ [key]
                   tbl := tbl })

/-- Unlocks all written keys. -/
def unlockWritten (table : S2PLTable K R Tbl) : S2PLTable K R Tbl :=
  { table with
    locks := table.wKeysLocked.foldl S2PLLocks.unlockExclusive table.locks
    wKeysLocked := [] }

def transactionCommit (_txnID : Nat) (tblID : TableID)
    (group : TableGroup (S2PLTable K R Tbl)) :
    Option (TableGroup (S2PLTable K R Tbl)) :=
  some (group.setTable tblID (group.regStates tblID).unlockWritten)

/-- Nothing is undone. -/
def transactionAbort (table : S2PLTable K R Tbl) (_txnID : Nat) :
    S2PLTable K R Tbl :=
  table.unlockWritten

instance : TransactionalTable (S2PLTable K R Tbl) K R where
  empty := empty
  transactionBegin := transactionBegin
  insert := insert
  deleteByKey := deleteByKey
  transactionAbort := transactionAbort
  beforeCommit := fun _ group => group
  transactionCommit := fun _ => transactionCommit

def transactionPreCommit (txnID : Nat) (tblID : TableID)
    (group : TableGroup (S2PLTable K R Tbl)) :
    Option (TableGroup (S2PLTable K R Tbl)) :=
  TransactionalTable.transactionPreCommit 0 txnID tblID group

end S2PLTable

end PipeFabric
