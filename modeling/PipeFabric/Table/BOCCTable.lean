import PipeFabric.Table.ActiveTransactions
import PipeFabric.Table.CuckooTable
import PipeFabric.Table.WriteSet

/-!
# The table with backward-oriented concurrency control

Writes are buffered and inserted when the transaction commits.  The keys of a
commit are kept, with the period in which it wrote, until no reader needs them
to validate its reads.  The buffer (`ActiveWriteSet`) has the operations of the
write set of the multi-version table, except that it keeps duplicates.
-/

namespace PipeFabric

/-- The keys a commit writes, with its validation and completion timestamps. -/
structure CommittedWS (K : Type) where
  valTS : Nat
  endTS : Nat
  keys : List K

structure BOCCTable (K R Tbl : Type) where
  writeSet : WriteSet K R
  /-- The newest write set is in front. -/
  committedWSs : List (CommittedWS K)
  tbl : Tbl

namespace BOCCTable

variable {K R Tbl : Type}

section Operations

variable [UnderlyingTable Tbl K R]

def empty : BOCCTable K R Tbl :=
  { writeSet := { txnID := 0, set := [] }
    committedWSs := []
    tbl := UnderlyingTable.empty }

def transactionBegin (table : BOCCTable K R Tbl) (txnID : Nat) :
    BOCCTable K R Tbl :=
  { table with writeSet := { table.writeSet with txnID := txnID } }

def insert (table : BOCCTable K R Tbl) (_txnID : Nat) (key : K) (rec : R) :
    BOCCTable K R Tbl :=
  { table with writeSet := table.writeSet.insert key rec }

/-- Nothing is deleted, and one tuple is reported. -/
def deleteByKey (table : BOCCTable K R Tbl) (_txnID : Nat) (_key : K) :
    Nat × BOCCTable K R Tbl :=
  (1, table)

def transactionAbort (table : BOCCTable K R Tbl) (_txnID : Nat) :
    BOCCTable K R Tbl :=
  { table with writeSet := table.writeSet.clean }

/-! ## Reading -/

/-- The own version of a key or else the stored record; `none` is NOT_FOUND. -/
def getByKey [DecidableEq K] (table : BOCCTable K R Tbl) (txnID : Nat)
    (key : K) : Option R :=
  match if table.writeSet.txnID = txnID then table.writeSet.find key else none with
  | some rec => some rec
  | none => UnderlyingTable.getByKey table.tbl key

/-- The test of the validation loop for one write set. -/
def conflicts [DecidableEq K] (txnID valTS : Nat) (keys : List K)
    (ws : CommittedWS K) : Bool :=
  decide (txnID < ws.endTS) && decide (valTS > ws.valTS) &&
    keys.any fun key => ws.keys.contains key

/-- The scan of `readCommit` over the committed write sets. -/
def validate [DecidableEq K] (table : BOCCTable K R Tbl) (txnID valTS : Nat)
    (keys : List K) : Errc :=
  if table.committedWSs.any (conflicts txnID valTS keys) then .ABORT
  else .SUCCESS

/-! ## Committing -/

/-- `committedWSs.emplace_front` with the keys of the write set. -/
def pushWriteSet (table : BOCCTable K R Tbl) (valTS : Nat) :
    BOCCTable K R Tbl :=
  { table with
    committedWSs :=
      { valTS := valTS
        endTS := DTS_INF
        keys := table.writeSet.set.map Prod.fst } :: table.committedWSs }

/-- `committedWSs.front().endTS = endTS` -/
def storeEndTS (table : BOCCTable K R Tbl) (endTS : Nat) : BOCCTable K R Tbl :=
  { table with
    committedWSs := table.committedWSs.modifyHead fun ws =>
      { ws with endTS := endTS } }

/-- Erases from the first write set that ended before the given id. -/
def eraseFrom (table : BOCCTable K R Tbl) (oldestTx : Nat) :
    BOCCTable K R Tbl :=
  { table with
    committedWSs := table.committedWSs.takeWhile fun ws =>
      !decide (ws.endTS ≤ oldestTx) }

/-- The bound of the clean-up. -/
def cleanUpBound (sCtx : StateContext) (txnID : Nat) (ws : CommittedWS K) : Nat :=
  let oldestTx := sCtx.getOldestActiveTx
  if oldestTx = txnID then ws.valTS else oldestTx

def saveWriteSet (tblID : TableID) (group : TableGroup (BOCCTable K R Tbl)) :
    TableGroup (BOCCTable K R Tbl) :=
  let (valTS, sCtx) := group.sCtx.getNewTS
  (group.setCtx sCtx).setTable tblID
    ((group.regStates tblID).pushWriteSet valTS)

/-- Applies the write set.  There must be a saved write set in front. -/
def transactionCommit (txnID : Nat) (tblID : TableID)
    (group : TableGroup (BOCCTable K R Tbl)) :
    Option (TableGroup (BOCCTable K R Tbl)) :=
  let table := group.regStates tblID
  let tbl := UnderlyingTable.insertAll table.tbl table.writeSet.set
  match table.committedWSs with
  | [] => none
  | ws :: _ =>
    let (endTS, sCtx) := group.sCtx.getNewTS
    let ended := { table with tbl := tbl, writeSet := table.writeSet.clean }
    let oldestTx := cleanUpBound sCtx txnID ws
    some ((group.setCtx sCtx).setTable tblID
      ((ended.storeEndTS endTS).eraseFrom oldestTx))

/-- The deciding vote saves both write sets before the commits. -/
instance : BufferedTable (BOCCTable K R Tbl) K R where
  empty := empty
  transactionBegin := transactionBegin
  insert := fun table txnID key rec => some (table.insert txnID key rec)
  deleteByKey := fun table txnID key => some (table.deleteByKey txnID key)
  transactionAbort := transactionAbort
  beforeCommit := saveWriteSet
  transactionCommit := fun _ => transactionCommit
  writeSet := writeSet
  setWriteSet := fun table writeSet => { table with writeSet := writeSet }
  writeSet_set := fun _ _ => rfl
  set_self := fun _ => rfl
  set_set := fun _ _ _ => rfl
  transactionBegin_eq := fun _ _ => rfl
  insert_eq := fun _ _ _ _ => rfl
  transactionAbort_eq := fun _ _ => rfl

def transactionPreCommit (txnID : Nat) (tblID : TableID)
    (group : TableGroup (BOCCTable K R Tbl)) :
    Option (TableGroup (BOCCTable K R Tbl)) :=
  TransactionalTable.transactionPreCommit 0 txnID tblID group

end Operations

/-! ## The list of committed write sets -/

/-- Completion timestamps decrease along the list. -/
def NewestFirst (committedWSs : List (CommittedWS K)) : Prop :=
  committedWSs.Pairwise fun newer older => older.endTS < newer.endTS

/-- Erasing from the first old write set erases the old write sets only. -/
theorem mem_eraseFrom {table : BOCCTable K R Tbl} {oldestTx : Nat}
    (newestFirst : NewestFirst table.committedWSs) (ws : CommittedWS K) :
    ws ∈ (table.eraseFrom oldestTx).committedWSs ↔
      ws ∈ table.committedWSs ∧ oldestTx < ws.endTS := by
  have general : ∀ list : List (CommittedWS K), NewestFirst list →
      (ws ∈ list.takeWhile (fun ws => !decide (ws.endTS ≤ oldestTx)) ↔
        ws ∈ list ∧ oldestTx < ws.endTS) := by
    intro list sorted
    induction list with
    | nil => simp
    | cons head tail induction =>
        obtain ⟨headNewest, tailSorted⟩ := List.pairwise_cons.mp sorted
        rw [List.takeWhile_cons]
        by_cases old : head.endTS ≤ oldestTx
        · simp only [old, decide_true, Bool.not_true, Bool.false_eq_true,
            if_false, List.not_mem_nil, false_iff, not_and, Nat.not_lt]
          intro member
          rcases List.mem_cons.mp member with same | later
          · rw [same]
            exact old
          · exact Nat.le_trans (Nat.le_of_lt (headNewest ws later)) old
        · simp only [old, decide_false, Bool.not_false, if_true,
            List.mem_cons, induction tailSorted]
          constructor
          · rintro (rfl | ⟨member, kept⟩)
            · exact ⟨Or.inl rfl, Nat.lt_of_not_le old⟩
            · exact ⟨Or.inr member, kept⟩
          · rintro ⟨rfl | member, kept⟩
            · exact Or.inl rfl
            · exact Or.inr ⟨member, kept⟩
  exact general table.committedWSs newestFirst

theorem NewestFirst.eraseFrom {table : BOCCTable K R Tbl}
    (newestFirst : NewestFirst table.committedWSs) (oldestTx : Nat) :
    NewestFirst (table.eraseFrom oldestTx).committedWSs :=
  newestFirst.sublist (List.takeWhile_sublist _)

theorem conflicts_iff [DecidableEq K] {txnID valTS : Nat} {keys : List K}
    {ws : CommittedWS K} :
    conflicts txnID valTS keys ws = true ↔
      txnID < ws.endTS ∧ ws.valTS < valTS ∧ ∃ key ∈ keys, key ∈ ws.keys := by
  simp [conflicts, and_assoc]

/-- Validation fails exactly if some write set conflicts. -/
theorem validate_eq_success [DecidableEq K] {table : BOCCTable K R Tbl}
    {txnID valTS : Nat} {keys : List K} :
    table.validate txnID valTS keys = .SUCCESS ↔
      ∀ ws ∈ table.committedWSs, ¬ (txnID < ws.endTS ∧ ws.valTS < valTS ∧
        ∃ key ∈ keys, key ∈ ws.keys) := by
  unfold validate
  by_cases conflict : table.committedWSs.any (conflicts txnID valTS keys) = true
  · rw [if_pos conflict]
    obtain ⟨ws, member, found⟩ := List.any_eq_true.mp conflict
    constructor
    · intro impossible
      cases impossible
    · intro none
      exact absurd (conflicts_iff.mp found) (none ws member)
  · rw [if_neg conflict]
    simp only [true_iff]
    intro ws member found
    exact conflict (List.any_eq_true.mpr ⟨ws, member, conflicts_iff.mpr found⟩)

end BOCCTable

end PipeFabric
