import PipeFabric.Library.TransitionSystem
import PipeFabric.Qop.FromTxTables
import PipeFabric.Table.BOCCTable
import PipeFabric.Table.SerialState
import PipeFabric.Table.SlotOwners

/-!
# One writer and any number of readers on two optimistic tables

The storage below the tables overwrites.  The atomic steps are a call of `newTx`
or `removeTx`, one read, one fetch of a timestamp, one insert of a committing
transaction, storing a completion timestamp, pushing or dropping write sets, the
search for the oldest active transaction, one validation scan and `setLastCTS`.

`history` and `since` are not part of the program.  The first records, newest
first, the writes of the transactions that have saved both write sets; the
second is the history at the moment a reader began its transaction.
-/

namespace PipeFabric.Bocc

open FromTxTables

variable {ρ K R : Type}

abbrev Table (K R : Type) := BOCCTable K R (OverwritingTable K R)

/-- Program points of `FromTxTables::start`.  `ok` says that no validation has
failed so far. -/
inductive ReaderPC where
  | idle
  | lookup (cursor : Cursor)
  | restart
  | firstTS (tblID : TableID) (ok : Bool)
  | fetchValTS (tblID : TableID) (ok : Bool)
  | scan (tblID : TableID) (valTS : Nat) (ok : Bool)
  | publish
  | abort
  | newTx
  | removeTx

structure Reader (K R : Type) where
  pc : ReaderPC
  query : Query K R
  since : List (Writes K R)

/-- Program points of the writer.  `last` says that the other table has passed
the same stage before. -/
inductive WriterPC (K R : Type) where
  | idle
  | active (txnID : Nat)
  | fetchValTS (txnID : Nat) (tblID : TableID) (last : Bool)
  | push (txnID : Nat) (tblID : TableID) (valTS : Nat) (last : Bool)
  | insert (txnID : Nat) (tblID : TableID) (todo : List (K × R)) (last : Bool)
  | fetchEndTS (txnID : Nat) (tblID : TableID) (last : Bool)
  | storeEndTS (txnID : Nat) (tblID : TableID) (endTS : Nat) (last : Bool)
  | getOldest (txnID : Nat) (tblID : TableID) (last : Bool)
  | erase (txnID : Nat) (tblID : TableID) (oldestTx : Nat) (last : Bool)
  | publish (txnID : Nat)
  | removeTx (txnID : Nat)

structure State (ρ K R : Type) where
  group : TableGroup (Table K R)
  writer : WriterPC K R
  readers : ρ → Reader K R
  published : List (Query K R)
  history : List (Writes K R)

inductive Action (ρ K R : Type) where
  | newTx
  | transactionBegin (tblID : TableID)
  | insert (tblID : TableID) (key : K) (rec : R)
  | transactionPreCommit (tblID : TableID)
  | write
  | start (reader : ρ) (keys : List K)
  | read (reader : ρ)

section Initial

variable [DecidableEq K]

def initial (clock : Nat) : State ρ K R :=
  { group := { sCtx := .initial clock, regStates := fun _ => .empty }
    writer := .idle
    readers := fun _ =>
      { pc := .idle
        query := { mTxnID := 0, mKeys := [], tpls := fun _ _ => none }
        since := [] }
    published := []
    history := [] }

end Initial

def State.setReader [DecidableEq ρ] (state : State ρ K R) (reader : ρ)
    (value : Reader K R) : State ρ K R :=
  { state with readers := Function.update state.readers reader value }

/-! ## The writer -/

section Writer

variable [DecidableEq K]

/-- `transactionPreCommit` up to the decision. -/
def preCommitStep (state : State ρ K R) (txnID : Nat) (tblID : TableID) :
    Option (State ρ K R) := do
  let sCtx ← state.group.sCtx.setWriteStatus txnID tblID .Commit
  let state := { state with group := state.group.setCtx sCtx }
  let otherState ← sCtx.getWriteStatus txnID (otherID tblID)
  if otherState = .Commit then
    return { state with writer := .fetchValTS txnID tblID false }
  else
    return state

/-- Pushes a write set; with the second one the transaction enters the
history. -/
def pushStep (state : State ρ K R) (txnID : Nat) (tblID : TableID) (valTS : Nat)
    (last : Bool) : State ρ K R :=
  let pushed := { state with
    group := state.group.setTable tblID
      ((state.group.regStates tblID).pushWriteSet valTS) }
  if last then
    let writes : Writes K R := fun i => (state.group.regStates i).writeSet.set
    { pushed with
      history := writes :: state.history
      writer := .insert txnID (otherID tblID) (writes (otherID tblID)) false }
  else { pushed with writer := .fetchValTS txnID (otherID tblID) true }

/-- The next atomic step of a commit. -/
def writeStep (state : State ρ K R) : Option (State ρ K R) :=
  match state.writer with
  | .idle => none
  | .active _ => none
  | .fetchValTS txnID tblID last => do
    let (valTS, sCtx) ← fetchTS state.group.sCtx
    return { state with
      group := state.group.setCtx sCtx, writer := .push txnID tblID valTS last }
  | .push txnID tblID valTS last => some (pushStep state txnID tblID valTS last)
  | .insert txnID tblID [] last =>
    some { state with writer := .fetchEndTS txnID tblID last }
  | .insert txnID tblID (e :: todo) last =>
    let table := state.group.regStates tblID
    some { state with
      group := state.group.setTable tblID
        { table with tbl := table.tbl.insert e.1 e.2 }
      writer := .insert txnID tblID todo last }
  | .fetchEndTS txnID tblID last => do
    let (endTS, sCtx) ← fetchTS state.group.sCtx
    return { state with
      group := state.group.setCtx sCtx
      writer := .storeEndTS txnID tblID endTS last }
  | .storeEndTS txnID tblID endTS last =>
    let table := (state.group.regStates tblID).storeEndTS endTS
    some { state with
      group := state.group.setTable tblID
        { table with writeSet := table.writeSet.clean }
      writer := .getOldest txnID tblID last }
  | .getOldest txnID tblID last => do
    let ws ← (state.group.regStates tblID).committedWSs.head?
    let oldestTx := BOCCTable.cleanUpBound state.group.sCtx txnID ws
    return { state with writer := .erase txnID tblID oldestTx last }
  | .erase txnID tblID oldestTx last =>
    let erased := { state with
      group := state.group.setTable tblID
        ((state.group.regStates tblID).eraseFrom oldestTx) }
    if last then some { erased with writer := .publish txnID }
    else
      let other := otherID tblID
      some { erased with
        writer := .insert txnID other
          (state.group.regStates other).writeSet.set true }
  | .publish txnID =>
    some { state with
      group := state.group.setCtx (state.group.sCtx.setLastCTS txnID)
      writer := .removeTx txnID }
  | .removeTx txnID => do
    let sCtx ← state.group.sCtx.removeTx txnID
    return { state with group := state.group.setCtx sCtx, writer := .idle }

end Writer

/-! ## The readers -/

section Readers

variable [DecidableEq ρ] [DecidableEq K]

/-- One read.  The loop ends at the first key index out of range. -/
def lookupStep (state : State ρ K R) (reader : ρ) (cursor : Cursor) :
    State ρ K R :=
  let this := state.readers reader
  match this.query.mKeys[cursor.j]? with
  | none => state.setReader reader { this with pc := .firstTS 0 true }
  | some key =>
    match (state.group.regStates cursor.i).getByKey this.query.mTxnID key with
    | none => state.setReader reader { this with pc := .restart }
    | some rec =>
      state.setReader reader
        { this with
          pc := .lookup cursor.next, query := this.query.store cursor rec }

/-- Both tables are validated before the outcome is looked at. -/
def afterScan (tblID : TableID) (ok : Bool) : ReaderPC :=
  if tblID = 0 then .firstTS 1 ok else if ok then .publish else .abort

def scanStep (state : State ρ K R) (reader : ρ) (tblID : TableID) (valTS : Nat)
    (ok : Bool) : State ρ K R :=
  let this := state.readers reader
  let status := (state.group.regStates tblID).validate this.query.mTxnID valTS
    this.query.mKeys
  state.setReader reader
    { this with pc := afterScan tblID (ok && status == .SUCCESS) }

/-- Registers a transaction and goes to the first read. -/
def beginStep (state : State ρ K R) (reader : ρ) (query : Query K R) :
    Option (State ρ K R) := do
  let (txnID, sCtx) ← beginTx state.group.sCtx
  return { state with group := state.group.setCtx sCtx }.setReader reader
    { pc := .lookup .first
      query := { query with mTxnID := txnID }
      since := state.history }

/-- The next atomic step of a query. -/
def readStep (state : State ρ K R) (reader : ρ) : Option (State ρ K R) :=
  let this := state.readers reader
  match this.pc with
  | .idle => none
  | .lookup cursor => some (lookupStep state reader cursor)
  | .restart => do
    let sCtx ← state.group.sCtx.setReadCTS this.query.mTxnID 0
    return { state with group := state.group.setCtx sCtx }.setReader reader
      { this with pc := .lookup .first }
  | .firstTS tblID ok => do
    let (_, sCtx) ← fetchTS state.group.sCtx
    return { state with group := state.group.setCtx sCtx }.setReader reader
      { this with pc := .fetchValTS tblID ok }
  | .fetchValTS tblID ok => do
    let (valTS, sCtx) ← fetchTS state.group.sCtx
    return { state with group := state.group.setCtx sCtx }.setReader reader
      { this with pc := .scan tblID valTS ok }
  | .scan tblID valTS ok => some (scanStep state reader tblID valTS ok)
  | .publish =>
    some ({ state with published := state.published ++ [this.query] }.setReader
      reader { this with pc := .removeTx })
  | .abort => do
    let sCtx ← state.group.sCtx.removeTx this.query.mTxnID
    return { state with group := state.group.setCtx sCtx }.setReader reader
      { this with pc := .newTx }
  | .newTx => beginStep state reader this.query
  | .removeTx => do
    let sCtx ← state.group.sCtx.removeTx this.query.mTxnID
    return { state with group := state.group.setCtx sCtx }.setReader reader
      { this with pc := .idle }

end Readers

/-! ## The system -/

variable [DecidableEq ρ] [DecidableEq K]

def step (state : State ρ K R) : Action ρ K R → Option (State ρ K R)
  | .newTx =>
    match state.writer with
    | .idle => do
      let (txnID, sCtx) ← beginTx state.group.sCtx
      return { state with
        group := state.group.setCtx sCtx, writer := .active txnID }
    | _ => none
  | .transactionBegin tblID =>
    match state.writer with
    | .active txnID =>
      some { state with
        group := state.group.setTable tblID
          ((state.group.regStates tblID).transactionBegin txnID) }
    | _ => none
  | .insert tblID key rec =>
    match state.writer with
    | .active txnID =>
      some { state with
        group := state.group.setTable tblID
          ((state.group.regStates tblID).insert txnID key rec) }
    | _ => none
  | .transactionPreCommit tblID =>
    match state.writer with
    | .active txnID => preCommitStep state txnID tblID
    | _ => none
  | .write => writeStep state
  | .start reader keys =>
    match (state.readers reader).pc with
    | .idle =>
      beginStep state reader
        { mTxnID := 0, mKeys := keys, tpls := fun _ _ => none }
    | _ => none
  | .read reader => readStep state reader

end PipeFabric.Bocc
