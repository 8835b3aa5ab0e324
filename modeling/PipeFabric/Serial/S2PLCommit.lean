import PipeFabric.Serial.Transactions
import PipeFabric.Table.S2PLTable

/-!
# A locking transaction, without interruption

Without readers no lock is waited for, and every insert goes to the storage at
once.
-/

namespace PipeFabric.S2PLTable

open StateContext TransactionalTable

variable {K R Tbl : Type} [UnderlyingTable Tbl K R] [DecidableEq K]

/-- No key has active readers. -/
def NoReaders (locks : S2PLLocks K) : Prop :=
  ∀ key, (locks.locks key).active_readers = 0

theorem NoReaders.lockExclusive {locks : S2PLLocks K} (free : NoReaders locks)
    (key : K) :
    locks.lockExclusive key = some (locks.setWriter key) ∧
      NoReaders (locks.setWriter key) := by
  have after : NoReaders (locks.setWriter key) := by
    intro other
    rw [S2PLLocks.setWriter, S2PLLocks.set_locks]
    split
    · exact free key
    · exact free other
  refine ⟨?_, after⟩
  simp only [S2PLLocks.lockExclusive, S2PLLocks.noReaders, after key]
  rfl

theorem NoReaders.unlockExclusive {locks : S2PLLocks K} (free : NoReaders locks)
    (key : K) : NoReaders (locks.unlockExclusive key) := by
  intro other
  rw [S2PLLocks.unlockExclusive, S2PLLocks.set_locks]
  split
  · exact free key
  · exact free other

theorem NoReaders.unlockAll {locks : S2PLLocks K} (free : NoReaders locks)
    (keys : List K) :
    NoReaders (keys.foldl S2PLLocks.unlockExclusive locks) := by
  induction keys generalizing locks with
  | nil => exact free
  | cons key keys induction => exact induction (free.unlockExclusive key)

/-- Nobody reads, in either table. -/
def Unread (group : TableGroup (S2PLTable K R Tbl)) : Prop :=
  ∀ i, NoReaders (group.regStates i).locks

/-- Inserts return and are applied at once. -/
theorem Unread.insertAll (txnID : Nat) (inserts : List (TableID × K × R))
    {group : TableGroup (S2PLTable K R Tbl)} (unread : Unread group) :
    ∃ written, insertAll txnID inserts group = some written ∧
      written.sCtx = group.sCtx ∧ Unread written ∧
      ∀ i, (written.regStates i).tbl = UnderlyingTable.insertAll
        (group.regStates i).tbl (writesTo inserts i) := by
  induction inserts generalizing group with
  | nil => exact ⟨group, rfl, rfl, unread, fun _ => rfl⟩
  | cons e inserts induction =>
      obtain ⟨locked, free⟩ := (unread e.1).lockExclusive e.2.1
      have first : insertInto txnID group e = some (group.setTable e.1
          { locks := (group.regStates e.1).locks.setWriter e.2.1
            wKeysLocked := (group.regStates e.1).wKeysLocked ++ [e.2.1]
            tbl := UnderlyingTable.insert (group.regStates e.1).tbl e.2.1
              e.2.2 }) := by
        simp [insertInto, TransactionalTable.insert, S2PLTable.insert, locked]
      have middle : Unread (group.setTable e.1
          { locks := (group.regStates e.1).locks.setWriter e.2.1
            wKeysLocked := (group.regStates e.1).wKeysLocked ++ [e.2.1]
            tbl := UnderlyingTable.insert (group.regStates e.1).tbl e.2.1
              e.2.2 }) := by
        intro i
        by_cases here : i = e.1
        · subst i
          simpa using free
        · simpa [here] using unread i
      obtain ⟨written, rest, context, after, applied⟩ := induction middle
      refine ⟨written, ?_, context, after, ?_⟩
      · rw [TransactionalTable.insertAll, List.foldlM_cons, first]
        exact rest
      · intro i
        rw [applied, writesTo_cons]
        by_cases here : e.1 = i
        · subst here
          simp [UnderlyingTable.insertAll]
        · have different : i ≠ e.1 := fun same => here same.symm
          simp [here, different]

/-- Both tables release the locks of their written keys. -/
def unlockBoth (tblID : TableID) (group : TableGroup (S2PLTable K R Tbl)) :
    TableGroup (S2PLTable K R Tbl) :=
  let group := group.setTable tblID (group.regStates tblID).unlockWritten
  group.setTable (otherID tblID) (group.regStates (otherID tblID)).unlockWritten

omit [UnderlyingTable Tbl K R] in
theorem unlockBoth_regStates (tblID : TableID)
    (group : TableGroup (S2PLTable K R Tbl)) (i : TableID) :
    (unlockBoth tblID group).regStates i =
      (group.regStates i).unlockWritten := by
  rcases eq_or_eq_otherID i tblID with here | there
  · subst here
    simp [unlockBoth, (otherID_ne i).symm]
  · subst there
    simp [unlockBoth, otherID_ne]

/-- A commit changes neither storage. -/
theorem Unread.commitBoth (fuel : Nat) {txnID : Nat} (tblID : TableID)
    {group : TableGroup (S2PLTable K R Tbl)} (unread : Unread group)
    {entry : ActiveTx} (wellFormed : group.sCtx.WellFormed)
    (active : group.sCtx.activeTx txnID = some entry) :
    ∃ next, commitBoth fuel txnID tblID group = some next ∧
      next.sCtx.WellFormed ∧
      next.sCtx.occupied.card + 1 = group.sCtx.occupied.card ∧ Unread next ∧
      ∀ i, (next.regStates i).tbl = (group.regStates i).tbl := by
  have published : (group.sCtx.setLastCTS txnID).WellFormed :=
    wellFormed.congr rfl rfl (le_refl _)
  have ending : (group.sCtx.setLastCTS txnID).activeTx txnID = some entry := by
    rw [← active]
    exact congrFun (activeTx_congr rfl rfl) txnID
  obtain ⟨sCtx, removed⟩ := removeTx_isSome ending
  obtain ⟨replaces, _⟩ := published.removeTx ending removed
  refine ⟨(unlockBoth tblID group).setCtx sCtx, ?_, ?_, ?_, ?_, ?_⟩
  · simp only [TransactionalTable.commitBoth, TransactionalTable.beforeCommit,
      TransactionalTable.transactionCommit, transactionCommit,
      Option.bind_eq_bind, Option.bind_some, TableGroup.setTable_sCtx, removed]
    rfl
  · exact replaces.wellFormed
  · rw [TableGroup.setCtx_sCtx, occupied_removeTx ending removed]
    exact congrArg Finset.card (occupied_congr rfl)
  · intro i
    rw [TableGroup.setCtx_regStates, unlockBoth_regStates]
    exact (unread i).unlockAll _
  · intro i
    rw [TableGroup.setCtx_regStates, unlockBoth_regStates]
    rfl

/-- The group can begin a transaction. -/
structure Ready (group : TableGroup (S2PLTable K R Tbl)) : Prop where
  wellFormed : group.sCtx.WellFormed
  room : group.sCtx.occupied.card < 64
  unread : Unread group

/-- A transaction applies its writes. -/
theorem Ready.transaction {group : TableGroup (S2PLTable K R Tbl)}
    (ready : Ready group) (fuel : Nat) (first : TableID)
    (inserts : List (TableID × K × R)) :
    ∃ next, transaction fuel first inserts group = some next ∧ Ready next ∧
      ∀ i, (next.regStates i).tbl = UnderlyingTable.insertAll
        (group.regStates i).tbl (writesTo inserts i) := by
  obtain ⟨txnID, sCtx, ends⟩ :=
    transaction_eq fuel first inserts ready.wellFormed ready.room
  have begunTables : ∀ i, (beginBoth (group.setCtx sCtx) txnID).regStates i =
      group.regStates i := by
    intro i
    rw [beginBoth_regStates]
    rfl
  have begunUnread : Unread (beginBoth (group.setCtx sCtx) txnID) := by
    intro i
    rw [begunTables i]
    exact ready.unread i
  obtain ⟨written, inserted, context, unread, applied⟩ :=
    begunUnread.insertAll txnID inserts
  obtain ⟨voted, entry, wellFormed, active, taken, commits⟩ :=
    ends written inserted context
  have votedUnread : Unread (written.setCtx voted) := unread
  have votedWellFormed : (written.setCtx voted).sCtx.WellFormed := wellFormed
  obtain ⟨next, returned, ended, count, after, kept⟩ :=
    votedUnread.commitBoth fuel (otherID first) votedWellFormed active
  refine ⟨next, commits.trans returned, ⟨ended, ?_, after⟩, ?_⟩
  · have room := ready.room
    rw [TableGroup.setCtx_sCtx] at count
    omega
  · intro i
    rw [kept i, TableGroup.setCtx_regStates, applied i, begunTables i]

end PipeFabric.S2PLTable
