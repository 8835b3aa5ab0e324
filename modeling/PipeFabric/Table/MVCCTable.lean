import PipeFabric.Table.ActiveTransactions
import PipeFabric.Table.CuckooTable
import PipeFabric.Table.MVCCObject
import PipeFabric.Table.WriteSet

/-!
# The multi-version table

Writes are buffered in the write set of the table and installed as new versions
when the transaction commits.  The functions below are the member functions of
`MVCCTable`; those with side effects on the state context act on the whole
group of tables.  A result `none` means that the source does not return: it
waits forever or leaves the bounds of an array.
-/

namespace PipeFabric

/-- The tables use the default of two versions. -/
abbrev MVCCTuple (R : Type) := MVCCObject R 2

structure MVCCTable (K R : Type) where
  writeSet : WriteSet K R
  tbl : CuckooTable K (MVCCTuple R)

namespace MVCCTable

variable {K R : Type}

def empty : MVCCTable K R :=
  { writeSet := { txnID := 0, set := [] }, tbl := CuckooTable.empty }

def transactionBegin (table : MVCCTable K R) (txnID : Nat) : MVCCTable K R :=
  { table with writeSet := { table.writeSet with txnID := txnID } }

def insert (table : MVCCTable K R) (_txnID : Nat) (key : K) (rec : R) :
    MVCCTable K R :=
  { table with writeSet := table.writeSet.insert key rec }

def transactionAbort (table : MVCCTable K R) (_txnID : Nat) : MVCCTable K R :=
  { table with writeSet := table.writeSet.clean }

/-- Nothing is deleted, and one tuple is reported. -/
def deleteByKey (table : MVCCTable K R) (_txnID : Nat) (_key : K) :
    Nat × MVCCTable K R :=
  (1, table)

/-! ## Reading -/

/-- The own version of a key, if the transaction has written it. -/
def ownVersion [DecidableEq K] (table : MVCCTable K R) (txnID : Nat) (key : K) :
    Option R :=
  if table.writeSet.txnID = txnID then table.writeSet.find key else none

/-- The read timestamp of the transaction; its first read fixes it to the last
committed transaction. -/
def fetchReadCTS (sCtx : StateContext) (txnID : Nat) :
    Option (Nat × StateContext) := do
  let readCTS ← sCtx.getReadCTS txnID
  if readCTS = 0 then
    let next ← sCtx.setReadCTS txnID sCtx.lastCTS
    return (sCtx.lastCTS, next)
  else
    return (readCTS, sCtx)

/-- The entry of the transaction keeps its timestamp or takes the last commit. -/
theorem fetchReadCTS_replaces {sCtx next : StateContext} {txnID readCTS : Nat}
    {entry : ActiveTx} (wellFormed : sCtx.WellFormed)
    (active : sCtx.activeTx txnID = some entry)
    (fetched : fetchReadCTS sCtx txnID = some (readCTS, next)) :
    readCTS = (if entry.readCTS = 0 then sCtx.lastCTS else entry.readCTS) ∧
      StateContext.Replaces sCtx next txnID
        (some { entry with readCTS := readCTS }) ∧
      next.nextTxID = sCtx.nextTxID := by
  unfold fetchReadCTS at fetched
  rw [StateContext.getReadCTS_of_active active] at fetched
  by_cases unset : entry.readCTS = 0
  · cases set : sCtx.setReadCTS txnID sCtx.lastCTS with
    | none => simp [unset, set] at fetched
    | some changed =>
        simp only [unset, set, Option.bind_eq_bind, Option.bind_some, if_true,
          Option.pure_def, Option.some.injEq, Prod.mk.injEq] at fetched
        obtain ⟨rfl, rfl⟩ := fetched
        exact ⟨by rw [if_pos unset], wellFormed.setReadCTS active set⟩
  · simp only [Option.bind_eq_bind, Option.bind_some, unset, if_false,
      Option.pure_def, Option.some.injEq, Prod.mk.injEq] at fetched
    obtain ⟨rfl, rfl⟩ := fetched
    refine ⟨by rw [if_neg unset], ?_, rfl⟩
    refine
      { lastCTS := rfl
        oldestVisibleVersion := rfl
        wellFormed := wellFormed
        activeTx := ?_ }
    have unchanged : some { entry with readCTS := entry.readCTS } =
        sCtx.activeTx txnID := active.symm
    rw [unchanged, Function.update_eq_self]

/-- The record a reader with this timestamp sees in a copied object. -/
def readVisible (mvcc : MVCCTuple R) (readCTS : Nat) : Option R :=
  (mvcc.getCurrent readCTS).map mvcc.values

/-- `getByKey` run without interruption; the record is `none` when the source
leaves `outValue` alone. -/
def getByKey [DecidableEq K] (group : TableGroup (MVCCTable K R))
    (tblID : TableID) (txnID : Nat) (key : K) :
    Option (Errc × Option R × TableGroup (MVCCTable K R)) :=
  match (group.regStates tblID).ownVersion txnID key with
  | some rec => some (.SUCCESS, some rec, group)
  | none =>
    match (group.regStates tblID).tbl.getByKey key with
    | none => some (.NOT_FOUND, none, group)
    | some mvcc => do
      let (readCTS, sCtx) ← fetchReadCTS group.sCtx txnID
      match readVisible mvcc readCTS with
      | none => return (.NOT_FOUND, none, group.setCtx sCtx)
      | some rec => return (.SUCCESS, some rec, group.setCtx sCtx)

/-! ## Committing -/

/-- One pass of the loop that waits for a free version slot: the new version
if there is one, a clean-up otherwise. -/
def slotStep (txnID : Nat) (dPos : Fin 2) (rec : R) (sCtx : StateContext)
    (mvcc : MVCCTuple R) : StateContext × MVCCTuple R × Bool :=
  match mvcc.freeSlot with
  | some iPos => (sCtx, mvcc.newEntry txnID iPos dPos rec, true)
  | none =>
    let (oldest, next) := sCtx.recalcOldestVisible txnID
    (next, mvcc.cleanUpVersions oldest, false)

/-- The loop, for at most `fuel` passes. -/
def waitForSlot (txnID : Nat) (dPos : Fin 2) (rec : R) :
    Nat → StateContext → MVCCTuple R → Option (StateContext × MVCCTuple R)
  | 0, _, _ => none
  | fuel + 1, sCtx, mvcc =>
    match slotStep txnID dPos rec sCtx mvcc with
    | (next, updated, true) => some (next, updated)
    | (next, cleaned, false) => waitForSlot txnID dPos rec fuel next cleaned

variable [Inhabited R]

/-- Installs one entry of the write set.  A position of -1 for the version to
close indexes the headers out of bounds. -/
def installEntry [DecidableEq K] (fuel txnID : Nat) (tblID : TableID)
    (group : TableGroup (MVCCTable K R)) (e : K × R) :
    Option (TableGroup (MVCCTable K R)) :=
  let table := group.regStates tblID
  match table.tbl.getByKey e.1 with
  | some mvcc => do
    let dPos ← mvcc.getCurrent txnID
    let (sCtx, updated) ← waitForSlot txnID dPos e.2 fuel group.sCtx mvcc
    return (group.setCtx sCtx).setTable tblID
      { table with tbl := table.tbl.update e.1 updated }
  | none =>
    some (group.setTable tblID
      { table with tbl := table.tbl.insert e.1 (.first txnID e.2) })

variable [LinearOrder K] [LinearOrder R]

/-- Applies the write set of one table; it always reports success. -/
def transactionCommit (fuel txnID : Nat) (tblID : TableID)
    (group : TableGroup (MVCCTable K R)) :
    Option (TableGroup (MVCCTable K R)) := do
  let table := group.regStates tblID
  let writeSet := table.writeSet.removeDuplicates
  let group := group.setTable tblID { table with writeSet := writeSet }
  let group ← writeSet.set.foldlM (installEntry fuel txnID tblID) group
  let table := group.regStates tblID
  return group.setTable tblID { table with writeSet := table.writeSet.clean }

instance : BufferedTable (MVCCTable K R) K R where
  empty := empty
  transactionBegin := transactionBegin
  insert := fun table txnID key rec => some (table.insert txnID key rec)
  deleteByKey := fun table txnID key => some (table.deleteByKey txnID key)
  transactionAbort := transactionAbort
  beforeCommit := fun _ group => group
  transactionCommit := transactionCommit
  writeSet := writeSet
  setWriteSet := fun table writeSet => { table with writeSet := writeSet }
  writeSet_set := fun _ _ => rfl
  set_self := fun _ => rfl
  set_set := fun _ _ _ => rfl
  transactionBegin_eq := fun _ _ => rfl
  insert_eq := fun _ _ _ _ => rfl
  transactionAbort_eq := fun _ _ => rfl

def transactionPreCommit (fuel txnID : Nat) (tblID : TableID)
    (group : TableGroup (MVCCTable K R)) :
    Option (TableGroup (MVCCTable K R)) :=
  TransactionalTable.transactionPreCommit fuel txnID tblID group

end MVCCTable

end PipeFabric
