import PipeFabric.Library.TransitionSystem
import PipeFabric.Library.VersionedHistory
import PipeFabric.Qop.FromTxTables
import PipeFabric.Table.MVCCTable
import PipeFabric.Table.SlotOwners

/-!
# One writer and any number of readers on two multi-version tables

The atomic steps are a call of `newTx` or `removeTx`, one table lookup that
copies the version array, one fetch of the read timestamp, one pass over the
version slots of a key that is being installed, and `setLastCTS`.  A step is
deterministic once its action is chosen; the actions choose who moves, and what
the writer inserts.

`history` is not part of the program.  It records, newest first, the write sets
of the transactions whose commit has started.
-/

namespace PipeFabric.Mvcc

open FromTxTables

variable {ρ K R : Type}

/-- A transaction with the writes it buffered for each table, in order. -/
structure Commit (K R : Type) where
  txnID : Nat
  writes : TableID → List (K × R)

/-- Program points of `FromTxTables::start`. -/
inductive ReaderPC (R : Type) where
  | idle
  | lookup (cursor : Cursor)
  | fetch (cursor : Cursor) (mvcc : MVCCTuple R)
  | restart
  | publish
  | removeTx

structure Reader (K R : Type) where
  pc : ReaderPC R
  query : Query K R

/-- Program points of the writer.  `last` says that the other table of the
group has been committed before. -/
inductive WriterPC (K R : Type) where
  | idle
  | active (txnID : Nat)
  | install (txnID : Nat) (tblID : TableID) (todo : List (K × R)) (last : Bool)
  | wait (txnID : Nat) (tblID : TableID) (e : K × R) (dPos : Fin 2)
      (todo : List (K × R)) (last : Bool)
  | publish (txnID : Nat)
  | removeTx (txnID : Nat)

structure State (ρ K R : Type) where
  group : TableGroup (MVCCTable K R)
  writer : WriterPC K R
  readers : ρ → Reader K R
  published : List (Publication K R)
  history : List (Commit K R)

inductive Action (ρ K R : Type) where
  | newTx
  | transactionBegin (tblID : TableID)
  | insert (tblID : TableID) (key : K) (rec : R)
  | transactionPreCommit (tblID : TableID)
  | write
  | start (reader : ρ) (keys : List K)
  | read (reader : ρ)

/-- Empty tables and no transaction; the clock gives the first id. -/
def initial (clock : Nat) : State ρ K R :=
  { group := { sCtx := .initial clock, regStates := fun _ => .empty }
    writer := .idle
    readers := fun _ =>
      { pc := .idle, query := { mTxnID := 0, mKeys := [], tpls := fun _ _ => none } }
    published := []
    history := [] }

namespace State

variable [DecidableEq ρ]

def setReader (state : State ρ K R) (reader : ρ) (value : Reader K R) :
    State ρ K R :=
  { state with readers := Function.update state.readers reader value }

end State

/-! ## The writer -/

section Writer

variable [LinearOrder K] [LinearOrder R]

/-- Enters `transactionCommit` of a table: duplicates leave its write set. -/
def startCommit (state : State ρ K R) (txnID : Nat) (tblID : TableID)
    (last : Bool) : State ρ K R :=
  let table := state.group.regStates tblID
  let writeSet := table.writeSet.removeDuplicates
  { state with
    group := state.group.setTable tblID { table with writeSet := writeSet }
    writer := .install txnID tblID writeSet.set last }

/-- `transactionPreCommit` up to the decision; the second vote starts the
commit. -/
def preCommitStep (state : State ρ K R) (txnID : Nat) (tblID : TableID) :
    Option (State ρ K R) := do
  let sCtx ← state.group.sCtx.setWriteStatus txnID tblID .Commit
  let state := { state with group := state.group.setCtx sCtx }
  let otherState ← sCtx.getWriteStatus txnID (otherID tblID)
  if otherState = .Commit then
    let commit : Commit K R :=
      { txnID := txnID
        writes := fun i => (state.group.regStates i).writeSet.set }
    return startCommit { state with history := commit :: state.history }
      txnID tblID false
  else
    return state

variable [Inhabited R]

/-- The next atomic step of a commit. -/
def writeStep (state : State ρ K R) : Option (State ρ K R) :=
  match state.writer with
  | .idle => none
  | .active _ => none
  | .install txnID tblID [] last =>
    let table := state.group.regStates tblID
    let cleaned := { state with
      group := state.group.setTable tblID
        { table with writeSet := table.writeSet.clean } }
    if last then some { cleaned with writer := .publish txnID }
    else some (startCommit cleaned txnID (otherID tblID) true)
  | .install txnID tblID (e :: todo) last =>
    let table := state.group.regStates tblID
    match table.tbl.getByKey e.1 with
    | some mvcc => do
      let dPos ← mvcc.getCurrent txnID
      return { state with writer := .wait txnID tblID e dPos todo last }
    | none =>
      some { state with
        group := state.group.setTable tblID
          { table with tbl := table.tbl.insert e.1 (.first txnID e.2) }
        writer := .install txnID tblID todo last }
  | .wait txnID tblID e dPos todo last => do
    let table := state.group.regStates tblID
    let mvcc ← table.tbl.getByKey e.1
    let (sCtx, updated, done) :=
      MVCCTable.slotStep txnID dPos e.2 state.group.sCtx mvcc
    return { state with
      group := (state.group.setCtx sCtx).setTable tblID
        { table with tbl := table.tbl.update e.1 updated }
      writer := if done then .install txnID tblID todo last
        else .wait txnID tblID e dPos todo last }
  | .publish txnID =>
    some { state with
      group := state.group.setCtx (state.group.sCtx.setLastCTS txnID)
      writer := .removeTx txnID }
  | .removeTx txnID => do
    let sCtx ← state.group.sCtx.removeTx txnID
    return { state with group := state.group.setCtx sCtx, writer := .idle }

end Writer

/-! ## The readers -/

section Readers

variable [DecidableEq ρ] [DecidableEq K]

/-- `getByKey` up to the lookup: an own version is taken at once, a missing key
restarts the query.  The loop ends at the first key index out of range. -/
def lookupStep (state : State ρ K R) (reader : ρ) (query : Query K R)
    (cursor : Cursor) : State ρ K R :=
  match query.mKeys[cursor.j]? with
  | none => state.setReader reader { pc := .publish, query := query }
  | some key =>
    let table := state.group.regStates cursor.i
    match table.ownVersion query.mTxnID key with
    | some rec =>
      state.setReader reader
        { pc := .lookup cursor.next, query := query.store cursor rec }
    | none =>
      match table.tbl.getByKey key with
      | none => state.setReader reader { pc := .restart, query := query }
      | some mvcc =>
        state.setReader reader { pc := .fetch cursor mvcc, query := query }

/-- The rest of `getByKey`: fetch the read timestamp and search the copy. -/
def fetchStep (state : State ρ K R) (reader : ρ) (query : Query K R)
    (cursor : Cursor) (mvcc : MVCCTuple R) : Option (State ρ K R) := do
  let (readCTS, sCtx) ← MVCCTable.fetchReadCTS state.group.sCtx query.mTxnID
  let state := { state with group := state.group.setCtx sCtx }
  match MVCCTable.readVisible mvcc readCTS with
  | none => return state.setReader reader { pc := .restart, query := query }
  | some rec =>
    return state.setReader reader
      { pc := .lookup cursor.next, query := query.store cursor rec }

omit [DecidableEq K] in
/-- A query whose copy has no visible version begins again. -/
theorem fetchStep_cases {state next : State ρ K R} {reader : ρ}
    {query : Query K R} {cursor : Cursor} {mvcc : MVCCTuple R}
    (stepped : fetchStep state reader query cursor mvcc = some next) :
    ∃ readCTS sCtx,
      MVCCTable.fetchReadCTS state.group.sCtx query.mTxnID =
          some (readCTS, sCtx) ∧
        (MVCCTable.readVisible mvcc readCTS = none ∧
            next = { state with group := state.group.setCtx sCtx }.setReader
              reader { pc := .restart, query := query } ∨
          ∃ rec, MVCCTable.readVisible mvcc readCTS = some rec ∧
            next = { state with group := state.group.setCtx sCtx }.setReader
              reader { pc := .lookup cursor.next,
                       query := query.store cursor rec }) := by
  obtain ⟨⟨readCTS, sCtx⟩, fetched, ended⟩ := Option.bind_eq_some_iff.mp stepped
  refine ⟨readCTS, sCtx, fetched, ?_⟩
  cases visible : MVCCTable.readVisible mvcc readCTS with
  | none =>
      simp only [visible, Option.pure_def, Option.some.injEq] at ended
      exact Or.inl ⟨rfl, ended.symm⟩
  | some rec =>
      simp only [visible, Option.pure_def, Option.some.injEq] at ended
      exact Or.inr ⟨rec, rfl, ended.symm⟩

/-- The next atomic step of a query. -/
def readStep (state : State ρ K R) (reader : ρ) : Option (State ρ K R) :=
  let query := (state.readers reader).query
  match (state.readers reader).pc with
  | .idle => none
  | .lookup cursor => some (lookupStep state reader query cursor)
  | .fetch cursor mvcc => fetchStep state reader query cursor mvcc
  | .restart => do
    let sCtx ← state.group.sCtx.setReadCTS query.mTxnID 0
    return { state with group := state.group.setCtx sCtx }.setReader reader
      { pc := .lookup .first, query := query }
  | .publish => do
    let readCTS ← state.group.sCtx.getReadCTS query.mTxnID
    let publication : Publication K R :=
      { readCTS := readCTS, mKeys := query.mKeys, tpls := query.tpls }
    return { state with published := state.published ++ [publication] }.setReader
      reader { pc := .removeTx, query := query }
  | .removeTx => do
    let sCtx ← state.group.sCtx.removeTx query.mTxnID
    return { state with group := state.group.setCtx sCtx }.setReader reader
      { pc := .idle, query := query }

end Readers

/-! ## The system -/

variable [DecidableEq ρ] [LinearOrder K] [LinearOrder R] [Inhabited R]

def step (state : State ρ K R) : Action ρ K R → Option (State ρ K R)
  | .newTx =>
    match state.writer with
    | .idle => do
      let (txnID, sCtx) ← beginTx state.group.sCtx
      return { state with
        group := state.group.setCtx sCtx, writer := .active txnID }
    | _ => none
  | .transactionBegin tblID =>
    match state.writer with
    | .active txnID =>
      some { state with
        group := state.group.setTable tblID
          ((state.group.regStates tblID).transactionBegin txnID) }
    | _ => none
  | .insert tblID key rec =>
    match state.writer with
    | .active txnID =>
      some { state with
        group := state.group.setTable tblID
          ((state.group.regStates tblID).insert txnID key rec) }
    | _ => none
  | .transactionPreCommit tblID =>
    match state.writer with
    | .active txnID => preCommitStep state txnID tblID
    | _ => none
  | .write => writeStep state
  | .start reader keys =>
    match (state.readers reader).pc with
    | .idle => do
      let (txnID, sCtx) ← beginTx state.group.sCtx
      return { state with group := state.group.setCtx sCtx }.setReader reader
        { pc := .lookup .first
          query := { mTxnID := txnID, mKeys := keys, tpls := fun _ _ => none } }
    | _ => none
  | .read reader => readStep state reader

end PipeFabric.Mvcc
