import PipeFabric.Mvcc.Invariant

/-!
# The writer keeps the store invariant

One lemma for each kind of writer step.  The steps that matter are installing a
key, as a new object or as a new version of an old one, and cleaning up the
versions of an object.
-/

namespace PipeFabric.Mvcc

variable {K R : Type}

namespace StoreInv

variable {tables : TableID → MVCCTable K R} {history : List (Commit K R)}
  {lastCTS nextTxID txnID : Nat} {tblID : TableID}

/-! ## What the steps leave alone -/

/-- Replacing the write set of a table leaves the stored objects alone. -/
private theorem update_writeSet_tbl (writeSet : WriteSet K R) (i : TableID) :
    (Function.update tables tblID
      { tables tblID with writeSet := writeSet } i).tbl = (tables i).tbl := by
  by_cases here : i = tblID
  · subst i
    simp
  · simp [here]

theorem getByKey_store [DecidableEq K]
    {stored : CuckooTable K (MVCCTuple R)} {key : K}
    {updated : MVCCTuple R}
    (effect : ∀ other, stored.getByKey other =
      if other = key then some updated else (tables tblID).tbl.getByKey other)
    (i : TableID) (other : K) :
    (Function.update tables tblID
      { tables tblID with tbl := stored } i).tbl.getByKey other =
      if i = tblID ∧ other = key then some updated
      else (tables i).tbl.getByKey other := by
  by_cases here : i = tblID
  · subst i
    simp [effect]
  · simp [here]

section Pending

variable {e : K × R} {todo : List (K × R)} {last : Bool}

/-- Installing the head of the list settles its key and no other. -/
theorem pending_install (distinct : ((e :: todo).map Prod.fst).Nodup)
    (i : TableID) (key : K) (t : Nat) :
    (WriterPC.install txnID tblID todo last).Pending i key t ↔
      (WriterPC.install txnID tblID (e :: todo) last).Pending i key t ∧
        ¬ (i = tblID ∧ key = e.1) := by
  have absent : e.1 ∉ todo.map Prod.fst := by
    rw [List.map_cons, List.nodup_cons] at distinct
    exact distinct.1
  have apart := otherID_ne tblID
  simp only [WriterPC.Pending, List.map_cons, List.mem_cons]
  constructor
  · rintro ⟨stamp, ⟨rfl, inTodo⟩ | ⟨first, there⟩⟩
    · refine ⟨⟨stamp, Or.inl ⟨rfl, Or.inr inTodo⟩⟩, ?_⟩
      rintro ⟨_, rfl⟩
      exact absent inTodo
    · refine ⟨⟨stamp, Or.inr ⟨first, there⟩⟩, ?_⟩
      rintro ⟨here, _⟩
      exact apart (there.symm.trans here)
  · rintro ⟨⟨stamp, ⟨rfl, same | inTodo⟩ | ⟨first, there⟩⟩, other⟩
    · exact absurd ⟨rfl, same⟩ other
    · exact ⟨stamp, Or.inl ⟨rfl, inTodo⟩⟩
    · exact ⟨stamp, Or.inr ⟨first, there⟩⟩

/-- Waiting for a slot leaves the same keys pending. -/
private theorem pending_wait (dPos : Fin 2) (i : TableID) (key : K) (t : Nat) :
    (WriterPC.wait txnID tblID e dPos todo last).Pending i key t ↔
      (WriterPC.install txnID tblID (e :: todo) last).Pending i key t :=
  Iff.rfl

end Pending

/-- Storing an object leaves the write sets alone. -/
private theorem update_tbl_writeSet (stored : CuckooTable K (MVCCTuple R))
    (i : TableID) :
    (Function.update tables tblID
      { tables tblID with tbl := stored } i).writeSet = (tables i).writeSet := by
  by_cases here : i = tblID
  · subst i
    simp
  · simp [here]

private theorem owned_of_writeSets {changed : TableID → MVCCTable K R}
    (same : ∀ i, (changed i).writeSet = (tables i).writeSet)
    (owned : OwnedBy tables txnID) : OwnedBy changed txnID := by
  intro i
  rw [same]
  exact owned i

private theorem otherTable_of_writeSets {changed : TableID → MVCCTable K R}
    (same : ∀ i, (changed i).writeSet = (tables i).writeSet)
    {last : Bool} (other : OtherTable tables history tblID last) :
    OtherTable changed history tblID last := by
  unfold OtherTable Clean at *
  rw [same]
  exact other

/-! ## The steps -/

variable [LinearOrder K] [LinearOrder R]

theorem newTx (inv : StoreInv tables .idle history lastCTS nextTxID) :
    StoreInv tables (.active nextTxID) history lastCTS (nextTxID + 1) where
  newestFirst := inv.newestFirst
  stamped := (inv.counter_mono (Nat.le_succ _)).stamped
  lastOld := Nat.lt_succ_of_lt inv.lastOld
  last := inv.last
  phase := by
    refine ⟨inv.phase.1, inv.lastOld, ?_⟩
    intro i
    rw [inv.phase.2 i]
    exact Or.inl rfl
  objects := inv.objects

/-- Beginning a transaction and buffering a write change write sets only. -/
theorem buffer {writeSet : WriteSet K R}
    (inv : StoreInv tables (.active txnID) history lastCTS nextTxID)
    (owned : writeSet.txnID = 0 ∨ writeSet.txnID = txnID) :
    StoreInv
      (Function.update tables tblID { tables tblID with writeSet := writeSet })
      (.active txnID) history lastCTS nextTxID where
  newestFirst := inv.newestFirst
  stamped := inv.stamped
  lastOld := inv.lastOld
  last := inv.last
  phase := by
    refine ⟨inv.phase.1, inv.phase.2.1, ?_⟩
    intro i
    by_cases here : i = tblID
    · subst i
      simpa using owned
    · simpa [here] using inv.phase.2.2 i
  objects := by
    intro i key mvcc found
    rw [update_writeSet_tbl] at found
    exact inv.objects i key mvcc found

/-- Stored versions were written by earlier commits. -/
theorem cts_cases {writer : WriterPC K R}
    (inv : StoreInv tables writer history lastCTS nextTxID)
    {i : TableID} {key : K} {mvcc : MVCCTuple R}
    (found : (tables i).tbl.getByKey key = some mvcc) {p : Fin 2}
    (live : mvcc.IsLive p) :
    mvcc.cts p ≤ lastCTS ∨
      writer.txn = some (mvcc.cts p) ∧ ¬ writer.Pending i key (mvcc.cts p) := by
  have ok := inv.objects i key mvcc found
  obtain ⟨commit, member, stamp, _⟩ := ok.written p live
  rw [← stamp]
  refine (inv.history_le member).imp_right fun same => ⟨same, ?_⟩
  rw [stamp]
  exact ok.installed p live

/-- The second vote: the transaction enters the history, all its writes are
pending, and the first table is about to be installed. -/
theorem startCommit (tblID : TableID)
    (inv : StoreInv tables (.active txnID) history lastCTS nextTxID)
    (positive : 0 < txnID) (old : txnID < nextTxID) :
    StoreInv
      (Function.update tables tblID
        { tables tblID with
          writeSet := (tables tblID).writeSet.removeDuplicates })
      (.install txnID tblID (tables tblID).writeSet.removeDuplicates.set false)
      ({ txnID := txnID, writes := fun i => (tables i).writeSet.set } :: history)
      lastCTS nextTxID where
  newestFirst := inv.newestFirst.cons fun older member =>
    Nat.lt_of_le_of_lt (inv.phase.1 older member) inv.phase.2.1
  stamped := by
    intro commit member
    rcases List.mem_cons.mp member with same | older
    · subst commit
      exact ⟨positive, old⟩
    · exact inv.stamped commit older
  lastOld := inv.lastOld
  last := by
    refine inv.last.imp_right ?_
    intro newest
    obtain ⟨commit, member, stamp⟩ := newest
    exact ⟨commit, List.mem_cons_of_mem _ member, stamp⟩
  phase := by
    refine ⟨⟨inv.phase.2.1, _, _, rfl, rfl, inv.phase.1⟩, ?_, ?_, ?_⟩
    · intro i
      by_cases here : i = tblID
      · subst i
        simpa [WriteSet.removeDuplicates] using inv.phase.2.2 tblID
      · simpa [here] using inv.phase.2.2 i
    · refine ⟨SortUnique.sortUnique_keys_nodup _, ?_⟩
      rintro commit older equal e member
      obtain ⟨rfl, rfl⟩ := List.cons.inj equal
      exact Commit.record_of_mem member
    · rintro commit older equal
      obtain ⟨rfl, rfl⟩ := List.cons.inj equal
      simp [otherID_ne]
  objects := by
    intro i key mvcc found
    rw [update_writeSet_tbl] at found
    have ok := inv.objects i key mvcc found
    refine ok.transport (fun _ member => List.mem_cons_of_mem _ member) ?_
      (fun _ _ waits => absurd waits id) ?_
    · intro commit member unknown
      rcases List.mem_cons.mp member with same | older
      · subst commit
        rcases eq_or_eq_otherID i tblID with here | there
        · subst i
          by_cases written :
              key ∈ (tables tblID).writeSet.removeDuplicates.set.map Prod.fst
          · exact Or.inr ⟨rfl, Or.inl ⟨rfl, written⟩⟩
          · exact Or.inl (Commit.record_eq_none written)
        · exact Or.inr ⟨rfl, Or.inr ⟨rfl, there⟩⟩
      · exact absurd older unknown
    · intro p live waits
      obtain ⟨commit, member, stamp, _⟩ := ok.written p live
      have before := inv.phase.1 commit member
      have new := inv.phase.2.1
      have same := waits.1
      omega

/-- The first table is done; the second one is entered. -/
theorem nextTable
    (inv : StoreInv tables (.install txnID tblID [] false) history lastCTS
      nextTxID) :
    StoreInv
      (Function.update
        (Function.update tables tblID
          { tables tblID with writeSet := (tables tblID).writeSet.clean })
        (otherID tblID)
        { tables (otherID tblID) with
          writeSet := (tables (otherID tblID)).writeSet.removeDuplicates })
      (.install txnID (otherID tblID)
        (tables (otherID tblID)).writeSet.removeDuplicates.set true)
      history lastCTS nextTxID where
  newestFirst := inv.newestFirst
  stamped := inv.stamped
  lastOld := inv.lastOld
  last := inv.last
  phase := by
    obtain ⟨committing, owned, _, other⟩ := inv.phase
    obtain ⟨commit, older, rfl, stamp, published⟩ := committing.head
    have writes := other commit older rfl
    refine ⟨committing, ?_, ?_, ?_⟩
    · intro i
      rcases eq_or_eq_otherID i tblID with here | there
      · subst i
        simp [(otherID_ne tblID).symm, WriteSet.clean]
      · subst i
        simpa [WriteSet.removeDuplicates] using owned (otherID tblID)
    · refine ⟨SortUnique.sortUnique_keys_nodup _, ?_⟩
      rintro head tail equal e member
      obtain ⟨rfl, rfl⟩ := List.cons.inj equal
      apply Commit.record_of_mem
      rw [← writes]
      exact member
    · simp [OtherTable, Clean, (otherID_ne tblID).symm, WriteSet.clean]
  objects := by
    intro i key mvcc found
    obtain ⟨committing, _, _, other⟩ := inv.phase
    have unchanged : (tables i).tbl.getByKey key = some mvcc := by
      rcases eq_or_eq_otherID i tblID with here | there
      · subst i
        simpa [(otherID_ne tblID).symm] using found
      · subst i
        simpa [otherID_ne] using found
    have ok := inv.objects i key mvcc unchanged
    refine ok.transport (fun _ member => member)
      (fun _ member unknown => absurd member unknown) ?_ ?_
    · intro commit member waits
      obtain ⟨stamp, ⟨_, impossible⟩ | ⟨_, there⟩⟩ := waits
      · cases impossible
      · subst i
        by_cases written : key ∈ (tables (otherID
            tblID)).writeSet.removeDuplicates.set.map Prod.fst
        · exact Or.inr ⟨stamp, Or.inl ⟨rfl, written⟩⟩
        · obtain ⟨head, older, rfl, headStamp, _⟩ := committing.head
          have same := inv.newestFirst.eq_of_stamp member
            List.mem_cons_self (stamp.trans headStamp.symm)
          rw [same]
          left
          apply Commit.record_eq_none
          rw [← other head older rfl]
          exact written
    · intro p live waits
      obtain ⟨stamp, ⟨here, _⟩ | ⟨impossible, _⟩⟩ := waits
      · exact ok.installed p live ⟨stamp, Or.inr ⟨rfl, here⟩⟩
      · cases impossible

/-- Both tables are done. -/
theorem finish
    (inv : StoreInv tables (.install txnID tblID [] true) history lastCTS
      nextTxID) :
    StoreInv
      (Function.update tables tblID
        { tables tblID with writeSet := (tables tblID).writeSet.clean })
      (.publish txnID) history lastCTS nextTxID where
  newestFirst := inv.newestFirst
  stamped := inv.stamped
  lastOld := inv.lastOld
  last := inv.last
  phase := by
    obtain ⟨committing, _, _, other⟩ := inv.phase
    refine ⟨committing, ?_⟩
    intro i
    rcases eq_or_eq_otherID i tblID with here | there
    · subst i
      simp [Clean, WriteSet.clean]
    · subst i
      simpa [OtherTable, Clean, otherID_ne] using other
  objects := by
    intro i key mvcc found
    rw [update_writeSet_tbl] at found
    refine (inv.objects i key mvcc found).congr fun t => ?_
    simp [WriterPC.Pending]

section Install

variable {e : K × R} {todo : List (K × R)} {last : Bool}

/-- The new object or version replaces the stored one, and the key is done. -/
private theorem install_objects {writer : WriterPC K R}
    {stored : CuckooTable K (MVCCTuple R)} (updated : MVCCTuple R)
    (inv : StoreInv tables writer history lastCTS nextTxID)
    (pending : ∀ i key t, writer.Pending i key t ↔
      (WriterPC.install txnID tblID (e :: todo) last).Pending i key t)
    (distinct : ((e :: todo).map Prod.fst).Nodup)
    (effect : ∀ other, stored.getByKey other =
      if other = e.1 then some updated else (tables tblID).tbl.getByKey other)
    (ok : ObjectOk history
      ((WriterPC.install txnID tblID todo last).Pending tblID e.1)
      tblID e.1 updated)
    (i : TableID) (key : K) (mvcc : MVCCTuple R)
    (found : (Function.update tables tblID
      { tables tblID with tbl := stored } i).tbl.getByKey key = some mvcc) :
    ObjectOk history ((WriterPC.install txnID tblID todo last).Pending i key)
      i key mvcc := by
  rw [getByKey_store effect] at found
  by_cases here : i = tblID ∧ key = e.1
  · obtain ⟨rfl, rfl⟩ := here
    simp only [and_self, if_true, Option.some.injEq] at found
    subst mvcc
    exact ok
  · rw [if_neg here] at found
    refine (inv.objects i key mvcc found).congr fun t => ?_
    rw [pending_install distinct, pending]
    tauto

/-- A key that is not stored yet gets its first version. -/
theorem installFirst [Inhabited R]
    (inv : StoreInv tables (.install txnID tblID (e :: todo) last) history
      lastCTS nextTxID)
    (finite : txnID < DTS_INF)
    (absent : (tables tblID).tbl.getByKey e.1 = none) :
    StoreInv
      (Function.update tables tblID
        { tables tblID with
          tbl := (tables tblID).tbl.insert e.1 (.first txnID e.2) })
      (.install txnID tblID todo last) history lastCTS nextTxID := by
  obtain ⟨committing, owned, todoOk, other⟩ := inv.phase
  obtain ⟨commit, older, equal, stamp, published⟩ := committing.head
  refine ⟨inv.newestFirst, inv.stamped, inv.lastOld, inv.last, ?_, ?_⟩
  · exact ⟨committing, owned_of_writeSets (update_tbl_writeSet _) owned,
      todoOk.tail, otherTable_of_writeSets (update_tbl_writeSet _) other⟩
  · refine install_objects (.first txnID e.2) inv (fun _ _ _ => Iff.rfl)
      todoOk.distinct ?_ ?_
    · intro key
      rw [CuckooTable.getByKey_insert, absent]
      rfl
    · rw [equal]
      rw [← stamp] at finite ⊢
      refine .first finite ?_ ?_ ?_
      · intro earlier member
        have before := published earlier member
        have new := committing.newer
        omega
      · exact todoOk.fromCommit commit older equal e List.mem_cons_self
      · rw [pending_install todoOk.distinct]
        tauto

/-- The version a commit closes is the open one. -/
theorem getCurrent_isOpen
    (inv : StoreInv tables (.install txnID tblID (e :: todo) last) history
      lastCTS nextTxID)
    {mvcc : MVCCTuple R} {dPos : Fin 2}
    (found : (tables tblID).tbl.getByKey e.1 = some mvcc)
    (current : mvcc.getCurrent txnID = some dPos) : mvcc.IsOpen dPos := by
  have ok := inv.objects tblID e.1 mvcc found
  obtain ⟨live, _, before⟩ := ok.chain.getCurrent_iff.mp current
  refine ⟨live, ?_⟩
  by_contra closed
  obtain ⟨next, nextLive, meets⟩ := ok.chain.consecutive dPos live closed
  have new := inv.phase.1.newer
  rcases inv.cts_cases found nextLive with published | ⟨own, _⟩
  · omega
  · have same : txnID = mvcc.cts next := Option.some.inj own
    omega

theorem startWait
    (inv : StoreInv tables (.install txnID tblID (e :: todo) last) history
      lastCTS nextTxID)
    {mvcc : MVCCTuple R} {dPos : Fin 2}
    (found : (tables tblID).tbl.getByKey e.1 = some mvcc)
    (current : mvcc.getCurrent txnID = some dPos) :
    StoreInv tables (.wait txnID tblID e dPos todo last) history lastCTS
      nextTxID where
  newestFirst := inv.newestFirst
  stamped := inv.stamped
  lastOld := inv.lastOld
  last := inv.last
  phase := by
    obtain ⟨committing, owned, todoOk, other⟩ := inv.phase
    exact ⟨committing, owned, todoOk, other, mvcc, found,
      inv.getCurrent_isOpen found current⟩
  objects := inv.objects

/-- The version to close is older than the one that waits. -/
theorem cts_lt_waiting {dPos : Fin 2} {mvcc : MVCCTuple R}
    (inv : StoreInv tables (.wait txnID tblID e dPos todo last) history lastCTS
      nextTxID)
    (found : (tables tblID).tbl.getByKey e.1 = some mvcc)
    (isOpen : mvcc.IsOpen dPos) : mvcc.cts dPos < txnID := by
  rcases inv.cts_cases found isOpen.1 with before | ⟨own, notPending⟩
  · exact Nat.lt_of_le_of_lt before inv.phase.1.newer
  · have same : txnID = mvcc.cts dPos := Option.some.inj own
    exact absurd ⟨same.symm, Or.inl ⟨rfl, by simp⟩⟩ notPending

/-- A free slot takes the new version. -/
theorem installVersion {dPos iPos : Fin 2} {mvcc : MVCCTuple R}
    (inv : StoreInv tables (.wait txnID tblID e dPos todo last) history lastCTS
      nextTxID)
    (finite : txnID < DTS_INF)
    (found : (tables tblID).tbl.getByKey e.1 = some mvcc)
    (free : mvcc.freeSlot = some iPos) :
    StoreInv
      (Function.update tables tblID
        { tables tblID with
          tbl := (tables tblID).tbl.update e.1
            (mvcc.newEntry txnID iPos dPos e.2) })
      (.install txnID tblID todo last) history lastCTS nextTxID := by
  obtain ⟨committing, owned, todoOk, other, stored, storedFound, isOpen⟩ :=
    inv.phase
  rw [found, Option.some.injEq] at storedFound
  subst stored
  obtain ⟨commit, older, equal, stamp, published⟩ := committing.head
  have newer := inv.cts_lt_waiting found isOpen
  refine ⟨inv.newestFirst, inv.stamped, inv.lastOld, inv.last, ?_, ?_⟩
  · exact ⟨committing, owned_of_writeSets (update_tbl_writeSet _) owned,
      todoOk.tail, otherTable_of_writeSets (update_tbl_writeSet _) other⟩
  · refine install_objects _ inv (pending_wait dPos) todoOk.distinct
      (fun key => CuckooTable.getByKey_update _ _ _ _) ?_
    have ok := inv.objects tblID e.1 mvcc found
    rw [equal] at ok ⊢
    rw [← stamp] at finite newer ⊢
    refine ok.newEntry finite ?_ isOpen
      (MVCCObject.freeSlot_unused (by omega) free) newer ?_ ?_ ?_
    · intro earlier member
      have before := published earlier member
      have new := committing.newer
      omega
    · exact todoOk.fromCommit commit older equal e List.mem_cons_self
    · intro t waits
      exact waits.1.trans stamp.symm
    · intro t
      rw [stamp, pending_install todoOk.distinct]
      tauto

/-- No slot is free: old versions are dropped and the writer keeps waiting. -/
theorem cleanUp {dPos : Fin 2} {mvcc : MVCCTuple R} {oldest : Nat}
    (inv : StoreInv tables (.wait txnID tblID e dPos todo last) history lastCTS
      nextTxID)
    (finite : oldest < DTS_INF)
    (found : (tables tblID).tbl.getByKey e.1 = some mvcc) :
    StoreInv
      (Function.update tables tblID
        { tables tblID with
          tbl := (tables tblID).tbl.update e.1 (mvcc.cleanUpVersions oldest) })
      (.wait txnID tblID e dPos todo last) history lastCTS nextTxID := by
  obtain ⟨committing, owned, todoOk, other, stored, storedFound, isOpen⟩ :=
    inv.phase
  rw [found, Option.some.injEq] at storedFound
  subst stored
  have stillOpen := (MVCCObject.VersionChain.cleanUpVersions_isOpen finite
    dPos).mpr isOpen
  refine ⟨inv.newestFirst, inv.stamped, inv.lastOld, inv.last, ?_, ?_⟩
  · exact ⟨committing, owned_of_writeSets (update_tbl_writeSet _) owned,
      todoOk, otherTable_of_writeSets (update_tbl_writeSet _) other,
      mvcc.cleanUpVersions oldest, by simp, stillOpen⟩
  · intro i key object objectFound
    rw [getByKey_store (fun other => CuckooTable.getByKey_update _ _ _ _)]
      at objectFound
    by_cases here : i = tblID ∧ key = e.1
    · obtain ⟨rfl, rfl⟩ := here
      simp only [and_self, if_true, Option.some.injEq] at objectFound
      subst object
      exact (inv.objects _ _ mvcc found).cleanUpVersions finite
    · rw [if_neg here] at objectFound
      exact inv.objects i key object objectFound

end Install

theorem publish (inv : StoreInv tables (.publish txnID) history lastCTS nextTxID) :
    StoreInv tables (.removeTx txnID) history txnID nextTxID := by
  obtain ⟨committing, clean⟩ := inv.phase
  obtain ⟨commit, older, equal, stamp, published⟩ := committing.head
  have member : commit ∈ history := by
    rw [equal]
    exact List.mem_cons_self
  refine ⟨inv.newestFirst, inv.stamped, ?_, ?_, ?_, inv.objects⟩
  · rw [← stamp]
    exact (inv.stamped commit member).2
  · exact Or.inr ⟨commit, member, stamp⟩
  · refine ⟨?_, rfl, clean⟩
    intro other otherMember
    have newer := committing.newer
    rcases committing.unpublished otherMember with old | same <;> omega

theorem removeTx
    (inv : StoreInv tables (.removeTx txnID) history lastCTS nextTxID) :
    StoreInv tables .idle history lastCTS nextTxID where
  newestFirst := inv.newestFirst
  stamped := inv.stamped
  lastOld := inv.lastOld
  last := inv.last
  phase := ⟨inv.phase.1, inv.phase.2.2⟩
  objects := inv.objects

end StoreInv

end PipeFabric.Mvcc
