import PipeFabric.Table.MVCCTable
import PipeFabric.Table.OccupiedSlots

/-!
# What a new reader is told

A transaction that begins after the last commit reads the versions that are
valid at `lastCTS`.
-/

namespace PipeFabric.MVCCTable

variable {K R : Type} [DecidableEq K]

/-- `getByKey` by a transaction that begins now. -/
def newRead (group : TableGroup (MVCCTable K R)) (tblID : TableID) (key : K) :
    Option (Errc × Option R) := do
  let (reader, sCtx) ← group.sCtx.newTx
  let (code, rec, _) ← getByKey (group.setCtx sCtx) tblID reader key
  return (code, rec)

omit [DecidableEq K] in
/-- The record visible at the last commit. -/
def committedRecord (group : TableGroup (MVCCTable K R)) (tblID : TableID)
    (key : K) : Option R :=
  ((group.regStates tblID).tbl.getByKey key).bind fun mvcc =>
    readVisible mvcc group.sCtx.lastCTS

/-- The result of a read. -/
def answer : Option R → Errc × Option R
  | some rec => (.SUCCESS, some rec)
  | none => (.NOT_FOUND, none)

omit [DecidableEq K] in
theorem answer_injective {left right : Option R}
    (same : answer left = answer right) : left = right := by
  cases left with
  | none =>
      cases right with
      | none => rfl
      | some rec => cases same
  | some rec =>
      cases right with
      | none => cases same
      | some other =>
          cases same
          rfl

theorem newRead_eq {group : TableGroup (MVCCTable K R)}
    (wellFormed : group.sCtx.WellFormed)
    (room : group.sCtx.occupied.card < 64) {tblID : TableID} (key : K)
    (foreign : (group.regStates tblID).writeSet.txnID ≠ group.sCtx.nextTxID) :
    newRead group tblID key =
      some (answer (committedRecord group tblID key)) := by
  obtain ⟨begun, started⟩ := StateContext.newTx_eq_some_iff.mpr room
  obtain ⟨_, _, replaces⟩ := wellFormed.newTx started
  have active : begun.activeTx group.sCtx.nextTxID =
      some (StateContext.freshTx group.sCtx.nextTxID) := by
    rw [replaces.activeTx, Function.update_self]
  have own : (group.regStates tblID).ownVersion group.sCtx.nextTxID key =
      none := by
    rw [ownVersion, if_neg foreign]
  simp only [newRead, started, Option.bind_eq_bind, Option.bind_some, getByKey,
    TableGroup.setCtx_regStates, own]
  cases found : (group.regStates tblID).tbl.getByKey key with
  | none =>
      simp [committedRecord, found, answer]
  | some mvcc =>
      obtain ⟨fixed, set⟩ := StateContext.setReadCTS_isSome active
        group.sCtx.lastCTS
      have fetched : fetchReadCTS begun group.sCtx.nextTxID =
          some (group.sCtx.lastCTS, fixed) := by
        simp [fetchReadCTS, StateContext.getReadCTS_of_active active,
          StateContext.freshTx, set, replaces.lastCTS]
      cases visible : readVisible mvcc group.sCtx.lastCTS with
      | none =>
          simp [committedRecord, found, fetched, visible, answer]
      | some rec =>
          simp [committedRecord, found, fetched, visible, answer]

end PipeFabric.MVCCTable
