import PipeFabric.Serial.BOCCCommit
import PipeFabric.Serial.GroupAtomic
import PipeFabric.Serial.LastWrite

/-!
# Histories of group commits on empty tables

The tables with versions and those with backward validation keep the promise of group
commits on the same histories.
-/

namespace PipeFabric

open StateContext TransactionalTable BufferedTable

namespace MVCCTable

variable {D K R : Type} [LinearOrder K] [LinearOrder R]

/-- The group between two transactions of a writer.  Those that were not committed are
still active, but none of them reads. -/
structure Kept (kept ids : Nat) (group : TableGroup (MVCCTable K R)) : Prop where
  wellFormed : group.sCtx.WellFormed
  quiet : Quiet group.sCtx
  settled : ∀ i, TableSettled group.sCtx.lastCTS (group.regStates i).tbl
  lastOld : group.sCtx.lastCTS < group.sCtx.nextTxID
  occupied : group.sCtx.occupied.card = kept
  counter : group.sCtx.nextTxID + ids ≤ DTS_INF

theorem Kept.empty [Inhabited R] {clock ids : Nat} (positive : 0 < clock)
    (fits : clock + ids ≤ DTS_INF) :
    Kept 0 ids (emptyGroup clock : TableGroup (MVCCTable K R)) where
  wellFormed := initial_wellFormed positive
  quiet := by
    intro id entry active
    obtain ⟨pos, used, _⟩ := (initial_wellFormed positive).activeTx_eq_some.mp active
    simp [StateContext.initial] at used
  settled := by
    intro i key mvcc found
    cases found
  lastOld := positive
  occupied := by
    rw [emptyGroup, occupied_initial]
    rfl
  counter := fits

/-- The group while a transaction of the writer is buffered. -/
structure KeptActive (kept ids txnID : Nat) (group current : TableGroup (MVCCTable K R)) :
    Prop where
  owners : Owners current.sCtx fun _ : Unit => some txnID
  quiet : Quiet current.sCtx
  lastCTS : current.sCtx.lastCTS = group.sCtx.lastCTS
  newer : group.sCtx.lastCTS < txnID
  nextTxID : current.sCtx.nextTxID = txnID + 1
  occupied : current.sCtx.occupied.card = kept + 1
  counter : txnID + 1 + ids ≤ DTS_INF
  stored : ∀ i, (current.regStates i).tbl = (group.regStates i).tbl

/-- A transaction has begun, and its items so far have decided nothing. -/
theorem Kept.begun [Inhabited R] {kept ids txnID : Nat} {sCtx : StateContext}
    {group current : TableGroup (MVCCTable K R)} {buffered : TableID → WriteSet K R}
    {status : TableID → Status} (ready : Kept kept (ids + 1) group)
    (begun : group.sCtx.newTx = some (txnID, sCtx))
    (delivered : Delivered txnID (group.setCtx sCtx) current buffered status) :
    KeptActive kept ids txnID group current := by
  obtain ⟨new, counter, started⟩ := ready.wellFormed.newTx begun
  have context := delivered.context
  rw [TableGroup.setCtx_sCtx] at context
  have activeTx : current.sCtx.activeTx = Function.update group.sCtx.activeTx txnID
      (some { freshTx txnID with writeInfo := status }) := by
    rw [context.activeTx, started.activeTx, Function.update_idem]
  have quiet : Quiet current.sCtx := by
    intro id entry active
    rw [activeTx, Function.update_apply] at active
    split at active
    · cases active
      rfl
    · exact ready.quiet id entry active
  have nextTxID : current.sCtx.nextTxID = txnID + 1 := by
    rw [delivered.nextTxID, TableGroup.setCtx_sCtx, counter, new]
  have room := ready.counter
  have ids_left : txnID + 1 + ids ≤ DTS_INF := by omega
  exact
    { owners :=
        { wellFormed := context.wellFormed
          counter := by omega
          snapshots := by
            intro id entry active
            rw [quiet id entry active]
            exact Nat.zero_le _
          live := by
            intro _ id owned
            cases owned
            exact ⟨_, by rw [activeTx, Function.update_self]⟩
          distinct := fun _ _ _ _ _ => rfl }
      quiet := quiet
      lastCTS := context.lastCTS.trans started.lastCTS
      newer := by
        rw [new]
        exact ready.lastOld
      nextTxID := nextTxID
      occupied := by
        rw [occupied_congr delivered.usedSlots, TableGroup.setCtx_sCtx,
          occupied_newTx begun, ready.occupied]
      counter := ids_left
      stored := by
        intro i
        rw [delivered.tables i]
        rfl }

omit [LinearOrder K] [LinearOrder R] in
/-- A transaction that is not committed stays active. -/
theorem KeptActive.abandoned {kept ids txnID : Nat}
    {group current : TableGroup (MVCCTable K R)}
    (active : KeptActive kept ids txnID group current)
    (settled : ∀ i, TableSettled group.sCtx.lastCTS (group.regStates i).tbl) :
    Kept (kept + 1) ids current where
  wellFormed := active.owners.wellFormed
  quiet := active.quiet
  settled := by
    intro i
    rw [active.lastCTS, active.stored i]
    exact settled i
  lastOld := by
    rw [active.lastCTS, active.nextTxID]
    exact Nat.lt_succ_of_lt active.newer
  occupied := active.occupied
  counter := by
    rw [active.nextTxID]
    exact active.counter

variable [Inhabited R]

/-- A transaction that is committed releases its slot. -/
theorem KeptActive.committed {kept ids txnID : Nat}
    {group current : TableGroup (MVCCTable K R)}
    (active : KeptActive kept ids txnID group current)
    (settled : ∀ i, TableSettled group.sCtx.lastCTS (group.regStates i).tbl)
    (fuel : Nat) (last : TableID) :
    ∃ next, commitBoth (fuel + 2) txnID last current = some next ∧
      Kept kept ids next ∧ Committed txnID current next := by
  have still : ∀ i, TableSettled current.sCtx.lastCTS (current.regStates i).tbl := by
    intro i
    rw [active.lastCTS, active.stored i]
    exact settled i
  have newer : current.sCtx.lastCTS < txnID := by
    rw [active.lastCTS]
    exact active.newer
  obtain ⟨next, returned⟩ := commitBoth_returns fuel last () active.owners rfl
    active.quiet still newer
  obtain ⟨owners, committed⟩ := commitBoth_effect () active.owners rfl still newer newer
    returned
  refine ⟨next, returned, ?_, committed⟩
  exact
    { wellFormed := owners.wellFormed
      quiet := by
        intro id entry found
        rw [committed.activeTx, Function.update_apply] at found
        split at found
        · cases found
        · exact active.quiet id entry found
      settled := by
        intro i
        rw [committed.lastCTS]
        exact (committed.installed i).settled (still i) (Nat.le_of_lt newer)
      lastOld := by
        rw [committed.lastCTS, committed.nextTxID, active.nextTxID]
        exact Nat.lt_succ_self _
      occupied := by
        have freed := committed.occupied
        have taken := active.occupied
        omega
      counter := by
        rw [committed.nextTxID, active.nextTxID]
        exact active.counter }

/-- A commit stores the record that is left of the writes to a key. -/
def applyWrites (store : K → Option R) (writes : List (K × R)) (key : K) : Option R :=
  (leastWrite writes key).or (store key)

theorem groupCommits (fuel : Nat) :
    GroupCommits (fuel + 2)
      (committedRecord : TableGroup (MVCCTable K R) → TableID → K → Option R)
      applyWrites Kept where
  wellFormed := Kept.wellFormed
  occupied := Kept.occupied
  deletes := fun _ _ _ => rfl
  saves := fun _ _ _ => rfl
  abandon := by
    intro kept ids group txnID sCtx next buffered voted ready begun delivered
    have active := ready.begun begun delivered
    refine ⟨active.abandoned ready.settled, ?_⟩
    intro i
    funext key
    rw [committedRecord, active.lastCTS, active.stored i]
    rfl
  commit := by
    intro kept ids group txnID sCtx current buffered voted last ready begun delivered
    have active := ready.begun begun delivered
    obtain ⟨next, returned, after, committed⟩ :=
      active.committed ready.settled fuel last
    refine ⟨next, returned, after, ?_, ?_⟩
    · intro i
      exact congrArg WriteSet.set (committed.clean i)
    · intro i
      funext key
      have installed := committed.installed i
      have finite := (active.owners.bounds () rfl).2.2
      have newer := active.newer
      have own : (current.regStates i).writeSet = buffered i := by
        rw [delivered.tables i]
        rfl
      rw [own, active.stored i] at installed
      rw [← committed.lastCTS] at installed finite newer
      exact installed.committedRecord (ready.settled i) newer finite key

end MVCCTable

namespace BOCCTable

variable {K R Tbl : Type} [UnderlyingTable Tbl K R]

/-- The group between two transactions of a writer. -/
structure Kept (kept _ids : Nat) (group : TableGroup (BOCCTable K R Tbl)) : Prop where
  wellFormed : group.sCtx.WellFormed
  occupied : group.sCtx.occupied.card = kept

theorem Kept.empty {clock : Nat} (positive : 0 < clock) (ids : Nat) :
    Kept 0 ids (emptyGroup clock : TableGroup (BOCCTable K R Tbl)) where
  wellFormed := initial_wellFormed positive
  occupied := by
    rw [emptyGroup, occupied_initial]
    rfl

theorem groupCommits (fuel : Nat) :
    GroupCommits fuel (fun (group : TableGroup (BOCCTable K R Tbl)) i =>
      (group.regStates i).tbl) UnderlyingTable.insertAll Kept where
  wellFormed := Kept.wellFormed
  occupied := Kept.occupied
  deletes := fun _ _ _ => rfl
  saves := by
    intro tblID group i
    change ((saveWriteSet tblID group).regStates i).writeSet = _
    by_cases here : i = tblID
    · subst here
      simp [saveWriteSet, pushWriteSet, BufferedTable.writeSet]
    · simp [saveWriteSet, here, BufferedTable.writeSet]
  abandon := by
    intro kept ids group txnID sCtx next buffered voted ready begun delivered
    refine ⟨⟨delivered.context.wellFormed, ?_⟩, ?_⟩
    · rw [occupied_congr delivered.usedSlots, TableGroup.setCtx_sCtx,
        occupied_newTx begun, ready.occupied]
    · intro i
      rw [delivered.tables i]
      rfl
  commit := by
    intro kept ids group txnID sCtx current buffered voted last ready begun delivered
    obtain ⟨next, returned, committed⟩ := BOCCTable.commitBoth_returns fuel last
      delivered.context.wellFormed delivered.active
    refine ⟨next, returned, ⟨committed.wellFormed, ?_⟩, ?_, ?_⟩
    · have freed := committed.occupied
      have taken := occupied_newTx begun
      rw [occupied_congr delivered.usedSlots, TableGroup.setCtx_sCtx, taken,
        ready.occupied] at freed
      omega
    · intro i
      exact congrArg WriteSet.set (committed.clean i)
    · intro i
      rw [committed.applied i, delivered.tables i]
      rfl

end BOCCTable

namespace TransactionalTable

variable {D K R Tbl : Type} [LinearOrder K] [LinearOrder R] [Inhabited R]
  [UnderlyingTable Tbl K R]

/-- A transaction without tuples that both tables vote for. -/
def emptyTx : GroupTx (Nat × Nat × Nat) :=
  .streamByStream (fun _ => []) fun _ => true

end TransactionalTable

end PipeFabric
