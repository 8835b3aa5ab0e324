import PipeFabric.Table.BOCCTable
import PipeFabric.Table.MVCCTable
import PipeFabric.Table.S2PLTable

/-!
# What a commit of one table leaves alone

`transactionCommit` of a table neither takes nor releases a transaction slot, and
does not touch the other table of the group.
-/

namespace PipeFabric

open StateContext TransactionalTable

/-- The frame of `transactionCommit`. -/
class CommitFrame (Tbl : Type) {K R : outParam Type} [TransactionalTable Tbl K R] :
    Prop where
  usedSlots : ∀ (fuel txnID : Nat) (tblID : TableID) (group next : TableGroup Tbl),
    transactionCommit fuel txnID tblID group = some next →
      next.sCtx.usedSlots = group.sCtx.usedSlots
  other : ∀ (fuel txnID : Nat) (tblID : TableID) (group next : TableGroup Tbl),
    transactionCommit fuel txnID tblID group = some next →
      next.regStates (otherID tblID) = group.regStates (otherID tblID)

namespace MVCCTable

variable {K R : Type}

theorem waitForSlot_usedSlots {txnID : Nat} {dPos : Fin 2} {rec : R} {fuel : Nat}
    {sCtx next : StateContext} {mvcc updated : MVCCTuple R}
    (returned : waitForSlot txnID dPos rec fuel sCtx mvcc = some (next, updated)) :
    next.usedSlots = sCtx.usedSlots := by
  induction fuel generalizing sCtx mvcc with
  | zero => cases returned
  | succ fuel induction =>
      simp only [waitForSlot, slotStep] at returned
      cases free : mvcc.freeSlot with
      | some iPos =>
          simp only [free, Option.some.injEq, Prod.mk.injEq] at returned
          rw [← returned.1]
      | none =>
          simp only [free] at returned
          rw [induction returned, StateContext.recalcOldestVisible]
          split <;> rfl

variable [LinearOrder K] [LinearOrder R] [Inhabited R]

omit [LinearOrder R] in
theorem installEntry_frame {fuel txnID : Nat} {tblID : TableID}
    {group next : TableGroup (MVCCTable K R)} {e : K × R}
    (returned : installEntry fuel txnID tblID group e = some next) :
    next.sCtx.usedSlots = group.sCtx.usedSlots ∧
      next.regStates (otherID tblID) = group.regStates (otherID tblID) := by
  simp only [installEntry] at returned
  cases found : (group.regStates tblID).tbl.getByKey e.1 with
  | none =>
      simp only [found, Option.some.injEq] at returned
      subst next
      exact ⟨rfl, by simp [otherID_ne]⟩
  | some mvcc =>
      simp only [found, Option.bind_eq_bind, Option.bind_eq_some_iff,
        Option.pure_def, Option.some.injEq] at returned
      obtain ⟨dPos, _, waited, ended, rfl⟩ := returned
      exact ⟨waitForSlot_usedSlots ended, by simp [otherID_ne]⟩

omit [LinearOrder R] in
theorem installAll_frame {fuel txnID : Nat} {tblID : TableID} {set : List (K × R)}
    {group next : TableGroup (MVCCTable K R)}
    (returned : set.foldlM (installEntry fuel txnID tblID) group = some next) :
    next.sCtx.usedSlots = group.sCtx.usedSlots ∧
      next.regStates (otherID tblID) = group.regStates (otherID tblID) := by
  induction set generalizing group with
  | nil =>
      cases returned
      exact ⟨rfl, rfl⟩
  | cons e set induction =>
      rw [List.foldlM_cons] at returned
      obtain ⟨middle, first, rest⟩ := Option.bind_eq_some_iff.mp returned
      obtain ⟨slots, other⟩ := installEntry_frame first
      obtain ⟨laterSlots, laterOther⟩ := induction rest
      exact ⟨laterSlots.trans slots, laterOther.trans other⟩

theorem transactionCommit_frame {fuel txnID : Nat} {tblID : TableID}
    {group next : TableGroup (MVCCTable K R)}
    (returned : transactionCommit fuel txnID tblID group = some next) :
    next.sCtx.usedSlots = group.sCtx.usedSlots ∧
      next.regStates (otherID tblID) = group.regStates (otherID tblID) := by
  simp only [transactionCommit, Option.bind_eq_bind, Option.bind_eq_some_iff,
    Option.pure_def, Option.some.injEq] at returned
  obtain ⟨middle, installs, rfl⟩ := returned
  obtain ⟨slots, other⟩ := installAll_frame installs
  refine ⟨slots, ?_⟩
  simpa [otherID_ne] using other

instance : CommitFrame (MVCCTable K R) where
  usedSlots := fun _ _ _ _ _ returned => (transactionCommit_frame returned).1
  other := fun _ _ _ _ _ returned => (transactionCommit_frame returned).2

end MVCCTable

namespace BOCCTable

variable {K R Tbl : Type} [UnderlyingTable Tbl K R]

theorem transactionCommit_frame {txnID : Nat} {tblID : TableID}
    {group next : TableGroup (BOCCTable K R Tbl)}
    (returned : transactionCommit txnID tblID group = some next) :
    next.sCtx.usedSlots = group.sCtx.usedSlots ∧
      next.regStates (otherID tblID) = group.regStates (otherID tblID) := by
  simp only [transactionCommit] at returned
  split at returned
  · cases returned
  · cases returned
    exact ⟨rfl, by simp [otherID_ne]⟩

instance : CommitFrame (BOCCTable K R Tbl) where
  usedSlots := fun _ _ _ _ _ returned => (transactionCommit_frame returned).1
  other := fun _ _ _ _ _ returned => (transactionCommit_frame returned).2

end BOCCTable

namespace S2PLTable

variable {K R Tbl : Type} [UnderlyingTable Tbl K R] [DecidableEq K]

omit [UnderlyingTable Tbl K R] in
theorem transactionCommit_frame {txnID : Nat} {tblID : TableID}
    {group next : TableGroup (S2PLTable K R Tbl)}
    (returned : transactionCommit txnID tblID group = some next) :
    next.sCtx.usedSlots = group.sCtx.usedSlots ∧
      next.regStates (otherID tblID) = group.regStates (otherID tblID) := by
  cases returned
  exact ⟨rfl, by simp [otherID_ne]⟩

instance : CommitFrame (S2PLTable K R Tbl) where
  usedSlots := fun _ _ _ _ _ returned => (transactionCommit_frame returned).1
  other := fun _ _ _ _ _ returned => (transactionCommit_frame returned).2

end S2PLTable

end PipeFabric
