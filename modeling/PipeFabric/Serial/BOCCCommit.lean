import PipeFabric.Serial.Transactions
import PipeFabric.Table.BOCCTable

/-!
# A commit with backward validation, without interruption

The deciding vote saves both write sets and applies them, so that the loop that
erases old write sets never meets an empty list.
-/

namespace PipeFabric.BOCCTable

open StateContext TransactionalTable

variable {K R Tbl : Type} [UnderlyingTable Tbl K R]

/-- Only timestamps were taken. -/
def Ticks (ctx next : StateContext) : Prop :=
  ∃ later, ctx.nextTxID ≤ later ∧ next = { ctx with nextTxID := later }

omit [UnderlyingTable Tbl K R] in
theorem Ticks.getNewTS (ctx : StateContext) : Ticks ctx ctx.getNewTS.2 :=
  ⟨ctx.nextTxID + 1, Nat.le_succ _, rfl⟩

theorem Ticks.trans {ctx middle next : StateContext} (first : Ticks ctx middle)
    (second : Ticks middle next) : Ticks ctx next := by
  obtain ⟨early, grows, rfl⟩ := first
  obtain ⟨late, laterGrows, rfl⟩ := second
  exact ⟨late, Nat.le_trans grows laterGrows, rfl⟩

theorem Ticks.wellFormed {ctx next : StateContext} (ticks : Ticks ctx next)
    (wellFormed : ctx.WellFormed) : next.WellFormed := by
  obtain ⟨later, grows, rfl⟩ := ticks
  exact wellFormed.congr rfl rfl grows

theorem Ticks.activeTx {ctx next : StateContext} (ticks : Ticks ctx next) :
    next.activeTx = ctx.activeTx := by
  obtain ⟨later, _, rfl⟩ := ticks
  exact activeTx_congr rfl rfl

theorem Ticks.occupied {ctx next : StateContext} (ticks : Ticks ctx next) :
    next.occupied = ctx.occupied := by
  obtain ⟨later, _, rfl⟩ := ticks
  exact occupied_congr rfl

theorem transactionCommit_returns (txnID : Nat) {tblID : TableID}
    {group : TableGroup (BOCCTable K R Tbl)} {ws : CommittedWS K}
    {older : List (CommittedWS K)}
    (saved : (group.regStates tblID).committedWSs = ws :: older) :
    ∃ next, transactionCommit txnID tblID group = some next ∧
      Ticks group.sCtx next.sCtx ∧
      next.regStates (otherID tblID) = group.regStates (otherID tblID) ∧
      (next.regStates tblID).writeSet = { txnID := 0, set := [] } ∧
      (next.regStates tblID).tbl =
        UnderlyingTable.insertAll (group.regStates tblID).tbl
          (group.regStates tblID).writeSet.set := by
  simp only [transactionCommit, saved]
  refine ⟨_, rfl, Ticks.getNewTS group.sCtx, ?_, ?_, ?_⟩
  · simp [otherID_ne]
  · simp [eraseFrom, storeEndTS, WriteSet.clean]
  · simp [eraseFrom, storeEndTS]

omit [UnderlyingTable Tbl K R] in
/-- Both write sets are saved before the first table commits. -/
theorem saveWriteSet_both (tblID : TableID)
    (group : TableGroup (BOCCTable K R Tbl)) :
    Ticks group.sCtx
        (saveWriteSet (otherID tblID) (saveWriteSet tblID group)).sCtx ∧
      ∀ i, ∃ valTS,
        (saveWriteSet (otherID tblID) (saveWriteSet tblID group)).regStates i =
          (group.regStates i).pushWriteSet valTS := by
  have ticks : Ticks group.sCtx group.sCtx.getNewTS.2 :=
    Ticks.getNewTS group.sCtx
  refine ⟨ticks.trans (Ticks.getNewTS _), ?_⟩
  intro i
  rcases eq_or_eq_otherID i tblID with here | there
  · subst here
    refine ⟨group.sCtx.nextTxID, ?_⟩
    simp [saveWriteSet, StateContext.getNewTS, (otherID_ne i).symm]
  · subst there
    refine ⟨group.sCtx.nextTxID + 1, ?_⟩
    simp [saveWriteSet, StateContext.getNewTS, otherID_ne]

/-- What is left of a transaction that has committed. -/
structure Committed (txnID : Nat)
    (group next : TableGroup (BOCCTable K R Tbl)) : Prop where
  wellFormed : next.sCtx.WellFormed
  activeTx : next.sCtx.activeTx =
    Function.update group.sCtx.activeTx txnID none
  occupied : next.sCtx.occupied.card + 1 = group.sCtx.occupied.card
  lastCTS : next.sCtx.lastCTS = txnID
  clean : ∀ i, (next.regStates i).writeSet = { txnID := 0, set := [] }
  applied : ∀ i, (next.regStates i).tbl = UnderlyingTable.insertAll
    (group.regStates i).tbl (group.regStates i).writeSet.set

theorem commitBoth_returns (fuel : Nat) {txnID : Nat} (tblID : TableID)
    {group : TableGroup (BOCCTable K R Tbl)} {entry : ActiveTx}
    (wellFormed : group.sCtx.WellFormed)
    (active : group.sCtx.activeTx txnID = some entry) :
    ∃ next, commitBoth fuel txnID tblID group = some next ∧
      Committed txnID group next := by
  obtain ⟨savedTicks, saved⟩ := saveWriteSet_both tblID group
  obtain ⟨valTS, here⟩ := saved tblID
  obtain ⟨otherTS, there⟩ := saved (otherID tblID)
  obtain ⟨middle, first, firstTicks, other, firstClean, firstApplied⟩ :=
    transactionCommit_returns txnID
      (congrArg BOCCTable.committedWSs here)
  obtain ⟨last, second, lastTicks, kept, lastClean, lastApplied⟩ :=
    transactionCommit_returns txnID
      (congrArg BOCCTable.committedWSs (other.trans there))
  rw [otherID_otherID] at kept
  have ticks := (savedTicks.trans firstTicks).trans lastTicks
  have published : (last.sCtx.setLastCTS txnID).WellFormed :=
    (ticks.wellFormed wellFormed).congr rfl rfl (le_refl _)
  have stillActive : (last.sCtx.setLastCTS txnID).activeTx =
      group.sCtx.activeTx := by
    rw [← ticks.activeTx]
    exact activeTx_congr rfl rfl
  have ending : (last.sCtx.setLastCTS txnID).activeTx txnID = some entry := by
    rw [stillActive]
    exact active
  obtain ⟨sCtx, removed⟩ := removeTx_isSome ending
  obtain ⟨replaces, _⟩ := published.removeTx ending removed
  refine ⟨last.setCtx sCtx, ?_, ?_⟩
  · simp only [commitBoth, Option.bind_eq_bind, Option.bind_eq_some_iff]
    exact ⟨middle, first, last, second, sCtx, removed, rfl⟩
  · constructor
    · exact replaces.wellFormed
    · rw [TableGroup.setCtx_sCtx, replaces.activeTx, stillActive]
    · rw [TableGroup.setCtx_sCtx, occupied_removeTx ending removed,
        ← ticks.occupied]
      exact congrArg Finset.card (occupied_congr rfl)
    · exact replaces.lastCTS
    · intro i
      rcases eq_or_eq_otherID i tblID with same | different
      · subst same
        rw [TableGroup.setCtx_regStates, kept]
        exact firstClean
      · subst different
        exact lastClean
    · intro i
      rcases eq_or_eq_otherID i tblID with same | different
      · subst same
        rw [TableGroup.setCtx_regStates, kept, firstApplied, here]
        rfl
      · subst different
        rw [TableGroup.setCtx_regStates, lastApplied, other, there]
        rfl

/-- The group can begin a transaction. -/
structure Ready (group : TableGroup (BOCCTable K R Tbl)) : Prop where
  wellFormed : group.sCtx.WellFormed
  room : group.sCtx.occupied.card < 64

/-- A transaction applies its writes after those the write sets held before. -/
theorem Ready.transaction {group : TableGroup (BOCCTable K R Tbl)}
    (ready : Ready group) (fuel : Nat) (first : TableID)
    (inserts : List (TableID × K × R)) :
    ∃ next, transaction fuel first inserts group = some next ∧ Ready next ∧
      (∀ i, (next.regStates i).writeSet = { txnID := 0, set := [] }) ∧
      ∀ i, (next.regStates i).tbl = UnderlyingTable.insertAll
        (group.regStates i).tbl
        ((group.regStates i).writeSet.set ++ writesTo inserts i) := by
  obtain ⟨txnID, sCtx, ends⟩ :=
    transaction_eq fuel first inserts ready.wellFormed ready.room
  obtain ⟨written, inserted, context, tables⟩ :=
    insertAll_begun txnID inserts (group.setCtx sCtx)
  obtain ⟨voted, entry, wellFormed, active, taken, commits⟩ :=
    ends written inserted context
  have votedWellFormed : (written.setCtx voted).sCtx.WellFormed := wellFormed
  obtain ⟨next, returned, committed⟩ := commitBoth_returns fuel (otherID first)
    votedWellFormed active
  refine ⟨next, commits.trans returned, ⟨committed.wellFormed, ?_⟩,
    committed.clean, ?_⟩
  · have count := committed.occupied
    have room := ready.room
    rw [TableGroup.setCtx_sCtx] at count
    omega
  · intro i
    rw [committed.applied i, TableGroup.setCtx_regStates, tables i]
    rfl

/-- The group can begin a transaction, and nothing is buffered. -/
structure Between (group : TableGroup (BOCCTable K R Tbl)) : Prop extends
    Ready group where
  clean : ∀ i, (group.regStates i).writeSet = { txnID := 0, set := [] }

theorem Between.transaction {group : TableGroup (BOCCTable K R Tbl)}
    (between : Between group) (fuel : Nat) (first : TableID)
    (inserts : List (TableID × K × R)) :
    ∃ next, TransactionalTable.transaction fuel first inserts group = some next ∧
      Between next ∧
      ∀ i, (next.regStates i).tbl = UnderlyingTable.insertAll
        (group.regStates i).tbl (writesTo inserts i) := by
  obtain ⟨next, returned, ready, clean, applied⟩ :=
    between.toReady.transaction fuel first inserts
  refine ⟨next, returned, ⟨ready, clean⟩, ?_⟩
  intro i
  rw [applied i, between.clean i]
  rfl

end PipeFabric.BOCCTable
