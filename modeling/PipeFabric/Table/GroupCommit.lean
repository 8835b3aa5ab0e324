import PipeFabric.Table.ActiveTransactions

/-!
# Committing a group of tables

The transactional tables share one protocol for the two tables of a group.
Each table votes in `transactionPreCommit`, and the vote that finds the other
table ready commits both tables, publishes the transaction and removes it from
the context.  The tables differ in what they do before and in
`transactionCommit`.
-/

namespace PipeFabric

/-- The operations `ToTxTable` uses.  A result `none` means that the call does
not return.  `fuel` bounds the passes of a waiting loop. -/
class TransactionalTable (Tbl : Type) (K R : outParam Type) where
  empty : Tbl
  transactionBegin : Tbl → Nat → Tbl
  insert : Tbl → Nat → K → R → Option Tbl
  /-- Also returns the number of deleted tuples. -/
  deleteByKey : Tbl → Nat → K → Option (Nat × Tbl)
  transactionAbort : Tbl → Nat → Tbl
  /-- What the deciding vote does on each table before the commits. -/
  beforeCommit : TableID → TableGroup Tbl → TableGroup Tbl
  transactionCommit : (fuel : Nat) → Nat → TableID → TableGroup Tbl →
    Option (TableGroup Tbl)

namespace TransactionalTable

variable {Tbl K R : Type} [TransactionalTable Tbl K R]

/-- What the deciding vote does: both tables commit, then the transaction is
published and removed from the context. -/
def commitBoth (fuel txnID : Nat) (tblID : TableID) (group : TableGroup Tbl) :
    Option (TableGroup Tbl) := do
  let group := beforeCommit (otherID tblID) (beforeCommit tblID group)
  let group ← transactionCommit fuel txnID tblID group
  let group ← transactionCommit fuel txnID (otherID tblID) group
  let sCtx ← (group.sCtx.setLastCTS txnID).removeTx txnID
  return group.setCtx sCtx

/-- Votes for commit; the second vote decides. -/
def transactionPreCommit (fuel txnID : Nat) (tblID : TableID)
    (group : TableGroup Tbl) : Option (TableGroup Tbl) := do
  let sCtx ← group.sCtx.setWriteStatus txnID tblID .Commit
  let group := group.setCtx sCtx
  let otherState ← sCtx.getWriteStatus txnID (otherID tblID)
  if otherState = .Commit then commitBoth fuel txnID tblID group
  else return group

/-- A vote is stored, and the stored vote of the other table decides. -/
theorem transactionPreCommit_eq (fuel : Nat) (tblID : TableID) {txnID : Nat}
    {group : TableGroup Tbl} {entry : ActiveTx}
    (wellFormed : group.sCtx.WellFormed)
    (active : group.sCtx.activeTx txnID = some entry) :
    ∃ sCtx, StateContext.Replaces group.sCtx sCtx txnID
        (some { entry with
          writeInfo := Function.update entry.writeInfo tblID .Commit }) ∧
      sCtx.nextTxID = group.sCtx.nextTxID ∧
      sCtx.usedSlots = group.sCtx.usedSlots ∧
      transactionPreCommit fuel txnID tblID group =
        if entry.writeInfo (otherID tblID) = .Commit then
          commitBoth fuel txnID tblID (group.setCtx sCtx)
        else some (group.setCtx sCtx) := by
  obtain ⟨sCtx, set⟩ := StateContext.setWriteStatus_isSome active tblID .Commit
  obtain ⟨replaces, counter⟩ := wellFormed.setWriteStatus active set
  have slots : sCtx.usedSlots = group.sCtx.usedSlots := by
    unfold StateContext.setWriteStatus at set
    obtain ⟨pos, _, rfl⟩ := Option.map_eq_some_iff.mp set
    rfl
  have voted : sCtx.activeTx txnID = some { entry with
      writeInfo := Function.update entry.writeInfo tblID .Commit } := by
    rw [replaces.activeTx, Function.update_self]
  have other : sCtx.getWriteStatus txnID (otherID tblID) =
      some (entry.writeInfo (otherID tblID)) := by
    rw [StateContext.getWriteStatus_of_active voted]
    exact congrArg some (Function.update_of_ne (otherID_ne tblID) _ _)
  refine ⟨sCtx, replaces, counter, slots, ?_⟩
  simp only [transactionPreCommit, set, other, Option.bind_eq_bind,
    Option.bind_some]
  rfl

end TransactionalTable

end PipeFabric
