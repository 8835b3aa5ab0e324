import PipeFabric.Library.TransitionSystem
import PipeFabric.Qop.FromTxTables
import PipeFabric.Table.S2PLTable
import PipeFabric.Table.SerialState

/-!
# One stream of writers and any number of readers on two locked tables

The storage below the tables overwrites.  Every critical section of the lock
table is one atomic step, and so is every access to the storage.  Waiting in
`lockExclusive` means that the step is not enabled.

`history`, `written` and `held` are not part of the program: the writes of the
committed transactions, newest first; what the current transaction has written;
and how often a reader has taken a shared lock more often than it has given it
back.
-/

namespace PipeFabric.S2pl

open FromTxTables

variable {ρ K R : Type}

abbrev Table (K R : Type) := S2PLTable K R (OverwritingTable K R)

/-- Program points of `FromTxTables::start`.  `cleanUp` has the keys that are
left to unlock on the first and on the second table; with `again` the query is
restarted afterwards. -/
inductive ReaderPC (K : Type) where
  | idle
  | lockShared (cursor : Cursor)
  | get (cursor : Cursor) (key : K)
  | unlockShared (cursor : Cursor) (key : K)
  | cleanUp (again : Bool) (todo later : List K)
  | restart
  | publish
  | removeTx

structure Reader (K R : Type) where
  pc : ReaderPC K
  query : Query K R
  held : TableID → K → Int

/-- Program points of the writer.  `last` says that the other table has been
unlocked before. -/
inductive WriterPC (K R : Type) where
  | idle
  | active (txnID : Nat)
  | wait (txnID : Nat) (tblID : TableID) (key : K) (rec : R)
  | insert (txnID : Nat) (tblID : TableID) (key : K) (rec : R)
  | unlock (txnID : Nat) (tblID : TableID) (todo : List K) (last : Bool)
  | publish (txnID : Nat)
  | removeTx (txnID : Nat)

structure State (ρ K R : Type) where
  group : TableGroup (Table K R)
  writer : WriterPC K R
  readers : ρ → Reader K R
  published : List (Query K R)
  history : List (Writes K R)
  written : Writes K R

inductive Action (ρ K R : Type) where
  | newTx
  | transactionBegin (tblID : TableID)
  | insert (tblID : TableID) (key : K) (rec : R)
  | transactionPreCommit (tblID : TableID)
  | write
  | start (reader : ρ) (keys : List K)
  | read (reader : ρ)

def initial [DecidableEq K] (clock : Nat) : State ρ K R :=
  { group := { sCtx := .initial clock, regStates := fun _ => .empty }
    writer := .idle
    readers := fun _ =>
      { pc := .idle
        query := { mTxnID := 0, mKeys := [], tpls := fun _ _ => none }
        held := fun _ _ => 0 }
    published := []
    history := []
    written := fun _ => [] }

namespace State

def setReader [DecidableEq ρ] (state : State ρ K R) (reader : ρ)
    (value : Reader K R) : State ρ K R :=
  { state with readers := Function.update state.readers reader value }

def setTable (state : State ρ K R) (tblID : TableID) (table : Table K R) :
    State ρ K R :=
  { state with group := state.group.setTable tblID table }

def setLocks (state : State ρ K R) (tblID : TableID) (locks : S2PLLocks K) :
    State ρ K R :=
  state.setTable tblID { state.group.regStates tblID with locks := locks }

@[simp] theorem setReader_group [DecidableEq ρ] (state : State ρ K R)
    (reader : ρ) (value : Reader K R) :
    (state.setReader reader value).group = state.group := rfl

/-- Writing a table whose storage is the same. -/
theorem setTable_tbl (state : State ρ K R) {tblID : TableID}
    {table : Table K R} (same : table.tbl = (state.group.regStates tblID).tbl)
    (i : TableID) :
    ((state.setTable tblID table).group.regStates i).tbl =
      (state.group.regStates i).tbl := by
  by_cases here : i = tblID
  · subst here
    simpa [setTable] using same
  · simp [setTable, here]

@[simp] theorem setLocks_tbl (state : State ρ K R) (tblID i : TableID)
    (locks : S2PLLocks K) :
    ((state.setLocks tblID locks).group.regStates i).tbl =
      (state.group.regStates i).tbl := by
  apply setTable_tbl
  rfl

@[simp] theorem setLocks_wKeysLocked (state : State ρ K R) (tblID i : TableID)
    (locks : S2PLLocks K) :
    ((state.setLocks tblID locks).group.regStates i).wKeysLocked =
      (state.group.regStates i).wKeysLocked := by
  by_cases here : i = tblID
  · subst here
    simp [setLocks, setTable]
  · simp [setLocks, setTable, here]

/-- Writing a table whose locks are the same. -/
theorem setTable_locks (state : State ρ K R) {tblID : TableID}
    {table : Table K R} (same : table.locks = (state.group.regStates tblID).locks)
    (i : TableID) :
    ((state.setTable tblID table).group.regStates i).locks =
      (state.group.regStates i).locks := by
  by_cases here : i = tblID
  · subst here
    simpa [setTable] using same
  · simp [setTable, here]

/-- Setting locks that agree with those before in a part of every lock. -/
theorem setLocks_part {Part : Type} (part : RowLock → Part) (state : State ρ K R)
    {tblID : TableID} {locks : S2PLLocks K}
    (same : ∀ key, part (locks.locks key) =
      part ((state.group.regStates tblID).locks.locks key))
    (i : TableID) (key : K) :
    part (((state.setLocks tblID locks).group.regStates i).locks.locks key) =
      part ((state.group.regStates i).locks.locks key) := by
  by_cases here : i = tblID
  · subst here
    simpa [setLocks, setTable] using same key
  · simp [setLocks, setTable, here]

end State

/-! ## The writer -/

section Writer

variable [DecidableEq K]

/-- The first part of `insert`: the exclusive flag is set. -/
def lockStep (state : State ρ K R) (txnID : Nat) (tblID : TableID) (key : K)
    (rec : R) : State ρ K R :=
  { state.setLocks tblID ((state.group.regStates tblID).locks.setWriter key) with
    writer := .wait txnID tblID key rec }

/-- `transactionPreCommit` up to the decision. -/
def preCommitStep (state : State ρ K R) (txnID : Nat) (tblID : TableID) :
    Option (State ρ K R) := do
  let sCtx ← state.group.sCtx.setWriteStatus txnID tblID .Commit
  let state := { state with group := state.group.setCtx sCtx }
  let otherState ← sCtx.getWriteStatus txnID (otherID tblID)
  if otherState = .Commit then
    return { state with
      history := state.written :: state.history
      written := fun _ => []
      writer := .unlock txnID tblID (state.group.regStates tblID).wKeysLocked
        false }
  else
    return state

/-- The next atomic step of the writer. -/
def writeStep (state : State ρ K R) : Option (State ρ K R) :=
  match state.writer with
  | .idle => none
  | .active _ => none
  | .wait txnID tblID key rec =>
    let table := state.group.regStates tblID
    if table.locks.noReaders key then
      some { state.setTable tblID
          { table with wKeysLocked := table.wKeysLocked ++ [key] } with
        writer := .insert txnID tblID key rec }
    else none
  | .insert txnID tblID key rec =>
    let table := state.group.regStates tblID
    some { state.setTable tblID { table with tbl := table.tbl.insert key rec } with
      writer := .active txnID
      written := Function.update state.written tblID
        (state.written tblID ++ [(key, rec)]) }
  | .unlock txnID tblID (key :: todo) last =>
    some { state.setLocks tblID
        ((state.group.regStates tblID).locks.unlockExclusive key) with
      writer := .unlock txnID tblID todo last }
  | .unlock txnID tblID [] last =>
    let table := state.group.regStates tblID
    let unlocked := state.setTable tblID { table with wKeysLocked := [] }
    if last then some { unlocked with writer := .publish txnID }
    else
      let other := otherID tblID
      some { unlocked with
        writer := .unlock txnID other (state.group.regStates other).wKeysLocked
          true }
  | .publish txnID =>
    some { state with
      group := state.group.setCtx (state.group.sCtx.setLastCTS txnID)
      writer := .removeTx txnID }
  | .removeTx txnID => do
    let sCtx ← state.group.sCtx.removeTx txnID
    return { state with group := state.group.setCtx sCtx, writer := .idle }

end Writer

/-! ## The readers -/

section Readers

variable [DecidableEq ρ] [DecidableEq K]

/-- The reader takes or gives back a shared lock. -/
def Reader.count (this : Reader K R) (tblID : TableID) (key : K) (n : Int) :
    Reader K R :=
  { this with
    held := Function.update this.held tblID
      (Function.update (this.held tblID) key (this.held tblID key + n)) }

/-- A failed read: the keys to unlock, table by table. -/
def Reader.fail (this : Reader K R) (cursor : Cursor) : Reader K R :=
  { this with
    pc := .cleanUp true (this.query.mKeys.take (cursor.readsOf 0))
      (this.query.mKeys.take (cursor.readsOf 1)) }

/-- Locks the next key.  The loop ends at the first key index out of range. -/
def lockSharedStep (state : State ρ K R) (reader : ρ) (cursor : Cursor) :
    State ρ K R :=
  let this := state.readers reader
  match this.query.mKeys[cursor.j]? with
  | none => state.setReader reader { this with pc := .publish }
  | some key =>
    match (state.group.regStates cursor.i).locks.lockShared key with
    | none => state.setReader reader (this.fail cursor)
    | some locks =>
      (state.setLocks cursor.i locks).setReader reader
        { this.count cursor.i key 1 with pc := .get cursor key }

/-- Gives back the lock of one key. -/
def unlockSharedStep (state : State ρ K R) (reader : ρ) (tblID : TableID)
    (key : K) (pc : ReaderPC K) : State ρ K R :=
  let this := state.readers reader
  (state.setLocks tblID
    ((state.group.regStates tblID).locks.unlockShared key)).setReader reader
      { this.count tblID key (-1) with pc := pc }

/-- The next atomic step of a query. -/
def readStep (state : State ρ K R) (reader : ρ) : Option (State ρ K R) :=
  let this := state.readers reader
  match this.pc with
  | .idle => none
  | .lockShared cursor => some (lockSharedStep state reader cursor)
  | .get cursor key =>
    match (state.group.regStates cursor.i).tbl.getByKey key with
    | none => some (state.setReader reader { this with pc := .unlockShared cursor key })
    | some rec =>
      some (state.setReader reader
        { this with
          pc := .lockShared cursor.next, query := this.query.store cursor rec })
  | .unlockShared cursor key =>
    some (unlockSharedStep state reader cursor.i key (this.fail cursor).pc)
  | .cleanUp again (key :: todo) later =>
    some (unlockSharedStep state reader 0 key (.cleanUp again todo later))
  | .cleanUp again [] (key :: later) =>
    some (unlockSharedStep state reader 1 key (.cleanUp again [] later))
  | .cleanUp again [] [] =>
    some (state.setReader reader
      { this with pc := if again then .restart else .removeTx })
  | .restart => do
    let sCtx ← state.group.sCtx.setReadCTS this.query.mTxnID 0
    return { state with group := state.group.setCtx sCtx }.setReader reader
      { this with pc := .lockShared .first }
  | .publish =>
    some ({ state with published := state.published ++ [this.query] }.setReader
      reader { this with pc := .cleanUp false this.query.mKeys this.query.mKeys })
  | .removeTx => do
    let sCtx ← state.group.sCtx.removeTx this.query.mTxnID
    return { state with group := state.group.setCtx sCtx }.setReader reader
      { this with pc := .idle }

end Readers

/-! ## The system -/

variable [DecidableEq ρ] [DecidableEq K]

def step (state : State ρ K R) : Action ρ K R → Option (State ρ K R)
  | .newTx =>
    match state.writer with
    | .idle => do
      let (txnID, sCtx) ← state.group.sCtx.newTx
      return { state with
        group := state.group.setCtx sCtx, writer := .active txnID }
    | _ => none
  | .transactionBegin tblID =>
    match state.writer with
    | .active txnID =>
      some (state.setTable tblID
        ((state.group.regStates tblID).transactionBegin txnID))
    | _ => none
  | .insert tblID key rec =>
    match state.writer with
    | .active txnID => some (lockStep state txnID tblID key rec)
    | _ => none
  | .transactionPreCommit tblID =>
    match state.writer with
    | .active txnID => preCommitStep state txnID tblID
    | _ => none
  | .write => writeStep state
  | .start reader keys =>
    match (state.readers reader).pc with
    | .idle => do
      let (txnID, sCtx) ← state.group.sCtx.newTx
      return { state with group := state.group.setCtx sCtx }.setReader reader
        { state.readers reader with
          pc := .lockShared .first
          query := { mTxnID := txnID, mKeys := keys, tpls := fun _ _ => none } }
    | _ => none
  | .read reader => readStep state reader

end PipeFabric.S2pl
