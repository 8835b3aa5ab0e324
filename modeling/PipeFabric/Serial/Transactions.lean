import PipeFabric.Table.OccupiedSlots
import PipeFabric.Table.WriteSet

/-!
# Transactions without interruption

A transaction begins on both tables, inserts records into them in any order and
lets both tables vote for commit.
-/

namespace PipeFabric.TransactionalTable

section Transaction

variable {Tbl K R : Type} [TransactionalTable Tbl K R]

/-- Two empty tables and no transaction. -/
def emptyGroup (clock : Nat) : TableGroup Tbl :=
  { sCtx := .initial clock, regStates := fun _ => TransactionalTable.empty }

def beginBoth (group : TableGroup Tbl) (txnID : Nat) : TableGroup Tbl :=
  let group := group.setTable 0 (transactionBegin (group.regStates 0) txnID)
  group.setTable 1 (transactionBegin (group.regStates 1) txnID)

def insertInto (txnID : Nat) (group : TableGroup Tbl)
    (e : TableID × K × R) : Option (TableGroup Tbl) := do
  let table ← insert (group.regStates e.1) txnID e.2.1 e.2.2
  return group.setTable e.1 table

def insertAll (txnID : Nat) (inserts : List (TableID × K × R))
    (group : TableGroup Tbl) : Option (TableGroup Tbl) :=
  inserts.foldlM (insertInto txnID) group

/-- Both tables vote, `first` before the other one. -/
def voteBoth (fuel txnID : Nat) (first : TableID) (group : TableGroup Tbl) :
    Option (TableGroup Tbl) := do
  let voted ← transactionPreCommit fuel txnID first group
  transactionPreCommit fuel txnID (otherID first) voted

/-- One transaction: it begins, writes and is voted for. -/
def transaction (fuel : Nat) (first : TableID)
    (inserts : List (TableID × K × R)) (group : TableGroup Tbl) :
    Option (TableGroup Tbl) := do
  let begun ← group.sCtx.newTx
  let written ← insertAll begun.1 inserts
    (beginBoth (group.setCtx begun.2) begun.1)
  voteBoth fuel begun.1 first written

/-- Transactions one after the other, each given by the table that votes first
and its inserts. -/
def serialHistory (fuel : Nat)
    (history : List (TableID × List (TableID × K × R)))
    (group : TableGroup Tbl) : Option (TableGroup Tbl) :=
  history.foldlM (fun group e => transaction fuel e.1 e.2 group) group

/-- What the inserts write to one table. -/
def writesTo (inserts : List (TableID × K × R)) (i : TableID) : List (K × R) :=
  (inserts.filter fun e => e.1 = i).map Prod.snd

omit [TransactionalTable Tbl K R] in
theorem writesTo_cons (e : TableID × K × R) (inserts : List (TableID × K × R))
    (i : TableID) :
    writesTo (e :: inserts) i =
      if e.1 = i then e.2 :: writesTo inserts i else writesTo inserts i := by
  unfold writesTo
  by_cases same : e.1 = i
  · simp [same]
  · simp [same]

omit [TransactionalTable Tbl K R] in
theorem writesTo_append (inserts later : List (TableID × K × R)) (i : TableID) :
    writesTo (inserts ++ later) i = writesTo inserts i ++ writesTo later i := by
  simp [writesTo]

theorem beginBoth_regStates (group : TableGroup Tbl) (txnID : Nat)
    (i : TableID) :
    (beginBoth group txnID).regStates i =
      transactionBegin (group.regStates i) txnID := by
  rcases Fin.exists_fin_two.mp ⟨i, rfl⟩ with zero | one
  · subst zero
    simp [beginBoth]
  · subst one
    simp [beginBoth]

/-- The votes of a fresh transaction lead to the commit of both tables. -/
theorem voteBoth_eq (fuel : Nat) (first : TableID) {txnID : Nat}
    {group : TableGroup Tbl} (wellFormed : group.sCtx.WellFormed)
    (active : group.sCtx.activeTx txnID =
      some (StateContext.freshTx txnID)) :
    ∃ sCtx entry,
      StateContext.Replaces group.sCtx sCtx txnID (some entry) ∧
      entry.readCTS = 0 ∧ sCtx.nextTxID = group.sCtx.nextTxID ∧
      sCtx.usedSlots = group.sCtx.usedSlots ∧
      voteBoth fuel txnID first group =
        commitBoth fuel txnID (otherID first) (group.setCtx sCtx) := by
  obtain ⟨middle, voted, counter, slots, waits⟩ :=
    transactionPreCommit_eq fuel first wellFormed active
  have undecided : (StateContext.freshTx txnID).writeInfo (otherID first) ≠
      .Commit := Status.noConfusion
  rw [if_neg undecided] at waits
  have stillActive : (group.setCtx middle).sCtx.activeTx txnID = some
      { StateContext.freshTx txnID with
        writeInfo := Function.update (fun _ => .Active) first .Commit } := by
    rw [TableGroup.setCtx_sCtx, voted.activeTx, Function.update_self]
    rfl
  have middleWellFormed : (group.setCtx middle).sCtx.WellFormed :=
    voted.wellFormed
  obtain ⟨sCtx, decided, later, laterSlots, commits⟩ :=
    transactionPreCommit_eq fuel (otherID first) middleWellFormed stillActive
  rw [otherID_otherID, if_pos (Function.update_self _ _ _)] at commits
  refine ⟨sCtx, _, voted.trans decided, ?_, ?_, ?_, ?_⟩
  · rfl
  · exact later.trans counter
  · exact laterSlots.trans slots
  · rw [voteBoth, waits]
    exact commits

/-- A transaction that begins in a free slot and whose inserts return ends with
the commit of both tables. -/
theorem transaction_eq (fuel : Nat) (first : TableID)
    (inserts : List (TableID × K × R)) {group : TableGroup Tbl}
    (wellFormed : group.sCtx.WellFormed)
    (room : group.sCtx.occupied.card < 64) :
    ∃ txnID sCtx, ∀ written,
      insertAll txnID inserts (beginBoth (group.setCtx sCtx) txnID) =
        some written →
      written.sCtx = sCtx →
      ∃ voted entry, StateContext.WellFormed voted ∧
        voted.activeTx txnID = some entry ∧
        voted.occupied.card = group.sCtx.occupied.card + 1 ∧
        transaction fuel first inserts group =
          commitBoth fuel txnID (otherID first) (written.setCtx voted) := by
  obtain ⟨sCtx, begun⟩ := StateContext.newTx_eq_some_iff.mpr room
  obtain ⟨_, _, started⟩ := wellFormed.newTx begun
  refine ⟨group.sCtx.nextTxID, sCtx, ?_⟩
  intro written inserted context
  have active : written.sCtx.activeTx group.sCtx.nextTxID =
      some (StateContext.freshTx group.sCtx.nextTxID) := by
    rw [context, started.activeTx, Function.update_self]
  obtain ⟨voted, entry, replaces, _, _, slots, commits⟩ :=
    voteBoth_eq fuel first (context ▸ started.wellFormed) active
  refine ⟨voted, entry, replaces.wellFormed, ?_, ?_, ?_⟩
  · rw [replaces.activeTx, Function.update_self]
  · rw [← StateContext.occupied_newTx begun, ← context]
    exact congrArg Finset.card (StateContext.occupied_congr slots)
  · simp only [transaction, begun, Option.bind_eq_bind, Option.bind_some,
      inserted, commits]

/-- If every transaction returns, applies its writes to the storage of the tables
and keeps `between`, then so does every history. -/
theorem serialHistory_returns {Store : Type} (storage : Tbl → Store)
    {apply : Store → List (K × R) → Store}
    (between : TableGroup Tbl → Prop) {fuel : Nat}
    (composes : ∀ store writes later,
      apply store (writes ++ later) = apply (apply store writes) later)
    (nothing : ∀ store, apply store [] = store)
    (one : ∀ group first inserts, between group →
      ∃ next, transaction fuel first inserts group = some next ∧
        between next ∧ ∀ i, storage (next.regStates i) =
          apply (storage (group.regStates i)) (writesTo inserts i))
    (history : List (TableID × List (TableID × K × R)))
    {group : TableGroup Tbl} (start : between group) :
    ∃ final, serialHistory fuel history group = some final ∧ between final ∧
      ∀ i, storage (final.regStates i) = apply (storage (group.regStates i))
        (writesTo (history.flatMap Prod.snd) i) := by
  induction history generalizing group with
  | nil =>
      refine ⟨group, rfl, start, ?_⟩
      intro i
      exact (nothing _).symm
  | cons head history induction =>
      obtain ⟨next, returned, after, applied⟩ := one group head.1 head.2 start
      obtain ⟨final, rest, ended, contents⟩ := induction after
      refine ⟨final, ?_, ended, ?_⟩
      · rw [serialHistory, List.foldlM_cons, returned]
        exact rest
      · intro i
        rw [contents, applied, List.flatMap_cons, writesTo_append, composes]

end Transaction

/-! ## Buffered writes -/

section Buffered

variable {Tbl K R : Type} [BufferedTable Tbl K R]

open BufferedTable

/-- Inserts only append to the write sets. -/
theorem insertAll_buffered (txnID : Nat) (inserts : List (TableID × K × R))
    (group : TableGroup Tbl) :
    ∃ next, insertAll txnID inserts group = some next ∧
      next.sCtx = group.sCtx ∧
      ∀ i, next.regStates i = setWriteSet (group.regStates i)
        { writeSet (group.regStates i) with
          set := (writeSet (group.regStates i)).set ++ writesTo inserts i } := by
  induction inserts generalizing group with
  | nil =>
      refine ⟨group, rfl, rfl, ?_⟩
      intro i
      have unchanged : (writeSet (group.regStates i)).set ++ writesTo [] i =
          (writeSet (group.regStates i)).set := List.append_nil _
      rw [unchanged]
      exact (set_self (group.regStates i)).symm
  | cons e inserts induction =>
      have first : insertInto txnID group e = some (group.setTable e.1
          (setWriteSet (group.regStates e.1)
            ((writeSet (group.regStates e.1)).insert e.2.1 e.2.2))) := by
        simp [insertInto, insert_eq]
      obtain ⟨next, rest, sCtx, tables⟩ := induction (group.setTable e.1
        (setWriteSet (group.regStates e.1)
          ((writeSet (group.regStates e.1)).insert e.2.1 e.2.2)))
      refine ⟨next, ?_, sCtx, ?_⟩
      · rw [insertAll, List.foldlM_cons, first]
        exact rest
      · intro i
        rw [tables, writesTo_cons]
        by_cases here : e.1 = i
        · subst here
          simp [WriteSet.insert]
        · have different : i ≠ e.1 := fun same => here same.symm
          simp [here, different]

/-- A transaction appends its writes to what the write sets hold. -/
theorem insertAll_begun (txnID : Nat) (inserts : List (TableID × K × R))
    (group : TableGroup Tbl) :
    ∃ written, insertAll txnID inserts (beginBoth group txnID) = some written ∧
      written.sCtx = group.sCtx ∧
      ∀ i, written.regStates i = setWriteSet (group.regStates i)
        { txnID := txnID
          set := (writeSet (group.regStates i)).set ++ writesTo inserts i } := by
  obtain ⟨written, ran, context, tables⟩ :=
    insertAll_buffered txnID inserts (beginBoth group txnID)
  refine ⟨written, ran, context, ?_⟩
  intro i
  rw [tables i, beginBoth_regStates, transactionBegin_eq, writeSet_set, set_set]

end Buffered

end PipeFabric.TransactionalTable
