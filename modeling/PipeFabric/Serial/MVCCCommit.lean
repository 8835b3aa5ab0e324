import PipeFabric.Mvcc.VersionChain
import PipeFabric.Table.MVCCTable
import PipeFabric.Table.OccupiedSlots
import PipeFabric.Table.SlotOwners

/-!
# A multi-version commit without interruption

What `transactionCommit` does to the stored objects when it returns, and when it
does return.  The loop that waits for a version slot ends if no active
transaction holds a read timestamp: the second pass finds the slot that the
clean-up of the first one has freed.
-/

namespace PipeFabric.MVCCTable

open MVCCObject

variable {K R : Type}

/-- The versions form a chain whose open version was committed by `bound`. -/
structure Settled (bound : Nat) (mvcc : MVCCTuple R) : Prop where
  chain : mvcc.VersionChain
  old : ∀ p, mvcc.IsOpen p → mvcc.cts p ≤ bound

/-- The open version was created by `txnID` with this record. -/
structure Shows (txnID : Nat) (rec : R) (mvcc : MVCCTuple R) : Prop where
  chain : mvcc.VersionChain
  open_ : ∃ p, mvcc.IsOpen p ∧ mvcc.cts p = txnID ∧ mvcc.values p = rec

/-- No active transaction has fixed a read timestamp. -/
def Quiet (sCtx : StateContext) : Prop :=
  ∀ id entry, sCtx.activeTx id = some entry → entry.readCTS = 0

theorem Settled.mono {bound later : Nat} {mvcc : MVCCTuple R}
    (settled : Settled bound mvcc) (grows : bound ≤ later) :
    Settled later mvcc := by
  constructor
  · exact settled.chain
  · intro p isOpen
    exact Nat.le_trans (settled.old p isOpen) grows

theorem Shows.settled {txnID bound : Nat} {rec : R} {mvcc : MVCCTuple R}
    (shows_ : Shows txnID rec mvcc) (before : txnID ≤ bound) :
    Settled bound mvcc := by
  obtain ⟨p, isOpen, start, _⟩ := shows_.open_
  constructor
  · exact shows_.chain
  · intro q other
    rw [shows_.chain.open_unique other isOpen, start]
    exact before

/-- From its creation on the open version is the one that is read. -/
theorem Shows.readVisible {txnID readCTS : Nat} {rec : R} {mvcc : MVCCTuple R}
    (shows_ : Shows txnID rec mvcc) (after : txnID ≤ readCTS)
    (finite : readCTS < DTS_INF) :
    MVCCTable.readVisible mvcc readCTS = some rec := by
  obtain ⟨p, isOpen, start, value⟩ := shows_.open_
  have current := shows_.chain.getCurrent_open isOpen
    (by rw [start]; exact after) finite
  rw [MVCCTable.readVisible, current, ← value]
  rfl

/-! ## Waiting for a version slot -/

section WaitForSlot

variable {Thread : Type} {owner : Thread → Option Nat}

/-- A clean-up changes nothing in the context but the bound. -/
theorem recalcOldestVisible_frame (sCtx : StateContext) (txnID : Nat) :
    ∃ oldest, (sCtx.recalcOldestVisible txnID).2 =
      { sCtx with oldestVisibleVersion := oldest } := by
  unfold StateContext.recalcOldestVisible
  split
  · exact ⟨_, rfl⟩
  · exact ⟨_, rfl⟩

/-- When the loop ends, the new version is open. -/
theorem waitForSlot_effect {txnID : Nat} {dPos : Fin 2} {rec : R} {fuel : Nat}
    {sCtx next : StateContext} {mvcc updated : MVCCTuple R}
    (owners : Owners sCtx owner) (last : sCtx.lastCTS < DTS_INF)
    (chain : mvcc.VersionChain) (isOpen : mvcc.IsOpen dPos)
    (newer : mvcc.cts dPos < txnID) (finite : txnID < DTS_INF)
    (returned : waitForSlot txnID dPos rec fuel sCtx mvcc =
      some (next, updated)) :
    (∃ oldest, next = { sCtx with oldestVisibleVersion := oldest }) ∧
      Shows txnID rec updated := by
  induction fuel generalizing sCtx mvcc with
  | zero => cases returned
  | succ fuel induction =>
      simp only [waitForSlot, slotStep] at returned
      cases free : mvcc.freeSlot with
      | some iPos =>
          simp only [free, Option.some.injEq, Prod.mk.injEq] at returned
          obtain ⟨rfl, rfl⟩ := returned
          have dead : ¬ mvcc.IsLive iPos := by
            rw [← chain.isUsed, freeSlot_unused (by omega) free]
            exact Bool.false_ne_true
          refine ⟨⟨sCtx.oldestVisibleVersion, rfl⟩, ?_, iPos, ?_, ?_, ?_⟩
          · exact chain.newEntry (by omega) isOpen dead newer finite
          · exact VersionChain.newEntry_isOpen isOpen dead newer finite
          · rw [newEntry_cts, if_pos rfl]
          · rw [newEntry_values, if_pos rfl]
      | none =>
          simp only [free] at returned
          have bound := owners.wellFormed.recalcOldestVisible_le
            owners.snapshots txnID
          have small : (sCtx.recalcOldestVisible txnID).1 < DTS_INF :=
            Nat.lt_of_le_of_lt bound last
          have stillOpen := (VersionChain.cleanUpVersions_isOpen small
            dPos).mpr isOpen
          obtain ⟨oldest, frame⟩ := recalcOldestVisible_frame sCtx txnID
          have kept : (sCtx.recalcOldestVisible txnID).1 < mvcc.dts dPos := by
            rw [isOpen.2]
            exact small
          obtain ⟨⟨value, same⟩, shows_⟩ := induction
            (owners.recalcOldestVisible txnID) (by simpa using last)
            (chain.cleanUpVersions small) stillOpen
            (by rw [cleanUpVersions_cts kept]; exact newer) returned
          refine ⟨⟨value, ?_⟩, shows_⟩
          rw [same, frame]

/-- Without read timestamps every clean-up uses the last commit. -/
theorem recalcOldestVisible_quiet {sCtx : StateContext}
    (wellFormed : sCtx.WellFormed) (quiet : Quiet sCtx) (txnID : Nat) :
    (sCtx.recalcOldestVisible txnID).1 = sCtx.lastCTS := by
  have infinite : sCtx.oldestReadCTS = DTS_INF := by
    rcases wellFormed.oldestReadCTS_cases with infinite | found
    · exact infinite
    · obtain ⟨other, entry, active, nonzero, _⟩ := found
      exact absurd (quiet other entry active) nonzero
  unfold StateContext.recalcOldestVisible
  split
  · dsimp only
    rw [if_pos infinite]
  · rfl

/-- Two passes are enough if the open version was committed by the last
commit. -/
theorem waitForSlot_returns (txnID : Nat) (dPos : Fin 2) (rec : R) (fuel : Nat)
    {sCtx : StateContext} {mvcc : MVCCTuple R} (wellFormed : sCtx.WellFormed)
    (quiet : Quiet sCtx) (settled : Settled sCtx.lastCTS mvcc) :
    ∃ result, waitForSlot txnID dPos rec (fuel + 2) sCtx mvcc = some result := by
  simp only [waitForSlot, slotStep]
  cases free : mvcc.freeSlot with
  | some iPos => exact ⟨_, rfl⟩
  | none =>
      dsimp only
      obtain ⟨p, isOpen⟩ := settled.chain.opened
      obtain ⟨q, different⟩ : ∃ q : Fin 2, q ≠ p := exists_ne p
      rw [recalcOldestVisible_quiet wellFormed quiet]
      have unused : (mvcc.cleanUpVersions sCtx.lastCTS).isUsed q = false := by
        apply Bool.eq_false_of_not_eq_true
        intro used
        obtain ⟨used, kept⟩ := cleanUpVersions_isUsed.mp used
        have ended := settled.chain.dts_le_open isOpen
          ((settled.chain.isUsed q).mp used) different
        have started := settled.old p isOpen
        omega
      obtain ⟨iPos, freed⟩ := freeSlot_isSome (by omega) unused
      rw [freed]
      exact ⟨_, rfl⟩

end WaitForSlot

/-! ## Installing a write set -/

section Install

variable {Thread : Type} {owner : Thread → Option Nat}
  [LinearOrder K] [LinearOrder R] [Inhabited R]

/-- What a commit leaves in the storage of a table. -/
structure Installed (txnID : Nat) (set : List (K × R))
    (before after : CuckooTable K (MVCCTuple R)) : Prop where
  written : ∀ e ∈ set, ∃ mvcc, after.getByKey e.1 = some mvcc ∧
    Shows txnID e.2 mvcc
  kept : ∀ key, key ∉ set.map Prod.fst →
    after.getByKey key = before.getByKey key

/-- Every stored object is settled. -/
def TableSettled (bound : Nat) (tbl : CuckooTable K (MVCCTuple R)) : Prop :=
  ∀ key mvcc, tbl.getByKey key = some mvcc → Settled bound mvcc

omit [LinearOrder R] in
theorem installEntry_effect {fuel txnID bound : Nat} {tblID : TableID}
    {group next : TableGroup (MVCCTable K R)} {e : K × R}
    (owners : Owners group.sCtx owner) (last : group.sCtx.lastCTS < DTS_INF)
    (settled : ∀ mvcc, (group.regStates tblID).tbl.getByKey e.1 = some mvcc →
      Settled bound mvcc)
    (newer : bound < txnID) (finite : txnID < DTS_INF)
    (returned : installEntry fuel txnID tblID group e = some next) :
    (∃ oldest, next.sCtx =
      { group.sCtx with oldestVisibleVersion := oldest }) ∧
      next.regStates (otherID tblID) = group.regStates (otherID tblID) ∧
      (next.regStates tblID).writeSet = (group.regStates tblID).writeSet ∧
      Installed txnID [e] (group.regStates tblID).tbl
        (next.regStates tblID).tbl := by
  unfold installEntry at returned
  cases found : (group.regStates tblID).tbl.getByKey e.1 with
  | none =>
      simp only [found, Option.some.injEq] at returned
      subst next
      refine ⟨⟨group.sCtx.oldestVisibleVersion, rfl⟩, ?_, ?_, ?_⟩
      · simp [otherID_ne]
      · simp
      · constructor
        · intro entry member
          rw [List.mem_singleton.mp member]
          refine ⟨.first txnID e.2, ?_, VersionChain.first finite, 0, ?_⟩
          · simp [CuckooTable.getByKey_insert, found]
          · simp [MVCCObject.IsOpen, IsLive, cts, dts, first_headers, first_values,
              finite]
        · intro key other
          have different : key ≠ e.1 := by
            simpa using other
          simp [CuckooTable.getByKey_insert, different]
  | some mvcc =>
      have isSettled := settled mvcc found
      obtain ⟨p, isOpen⟩ := isSettled.chain.opened
      have started := isSettled.old p isOpen
      have current := isSettled.chain.getCurrent_open isOpen
        (Nat.le_of_lt (Nat.lt_of_le_of_lt started newer)) finite
      simp only [found, current, Option.bind_eq_bind, Option.bind_some,
        Option.bind_eq_some_iff, Option.pure_def] at returned
      obtain ⟨⟨sCtx, updated⟩, waited, same⟩ := returned
      cases same
      obtain ⟨frame, shows_⟩ := waitForSlot_effect owners last isSettled.chain
        isOpen (Nat.lt_of_le_of_lt started newer) finite waited
      refine ⟨frame, ?_, ?_, ?_⟩
      · simp [otherID_ne]
      · simp
      · constructor
        · intro entry member
          rw [List.mem_singleton.mp member]
          exact ⟨updated, by simp, shows_⟩
        · intro key other
          have different : key ≠ e.1 := by
            simpa using other
          simp [different]

omit [LinearOrder K] [LinearOrder R] [Inhabited R] in
theorem owners_setOldest {sCtx : StateContext} (owners : Owners sCtx owner)
    (oldest : Nat) :
    Owners { sCtx with oldestVisibleVersion := oldest } owner :=
  owners.advance (owners.wellFormed.congr rfl rfl (le_refl _))
    (StateContext.activeTx_congr rfl rfl) owners.counter (le_refl _)

omit [LinearOrder R] in
/-- The keys of the write set are distinct, so every entry meets the object
that was stored before the commit. -/
theorem installAll_effect {fuel txnID bound : Nat} {tblID : TableID}
    {group next : TableGroup (MVCCTable K R)} {set : List (K × R)}
    (owners : Owners group.sCtx owner) (last : group.sCtx.lastCTS < DTS_INF)
    (settled : ∀ e ∈ set, ∀ mvcc,
      (group.regStates tblID).tbl.getByKey e.1 = some mvcc →
        Settled bound mvcc)
    (newer : bound < txnID) (finite : txnID < DTS_INF)
    (distinct : (set.map Prod.fst).Nodup)
    (returned : set.foldlM (installEntry fuel txnID tblID) group =
      some next) :
    (∃ oldest, next.sCtx =
      { group.sCtx with oldestVisibleVersion := oldest }) ∧
      next.regStates (otherID tblID) = group.regStates (otherID tblID) ∧
      (next.regStates tblID).writeSet = (group.regStates tblID).writeSet ∧
      Installed txnID set (group.regStates tblID).tbl
        (next.regStates tblID).tbl := by
  induction set generalizing group with
  | nil =>
      cases returned
      refine ⟨⟨_, rfl⟩, rfl, rfl, ?_⟩
      constructor
      · intro e member
        cases member
      · intro key _
        rfl
  | cons e set induction =>
      rw [List.foldlM_cons] at returned
      obtain ⟨middle, first, rest⟩ := Option.bind_eq_some_iff.mp returned
      obtain ⟨absent, tailDistinct⟩ := List.nodup_cons.mp distinct
      obtain ⟨⟨oldest, frame⟩, other, writeSet, installed⟩ :=
        installEntry_effect owners last (settled e List.mem_cons_self) newer
          finite first
      have kept : ∀ key ∈ set.map Prod.fst,
          (middle.regStates tblID).tbl.getByKey key =
            (group.regStates tblID).tbl.getByKey key := by
        intro key member
        apply installed.kept
        simp only [List.map_singleton, List.mem_singleton]
        rintro rfl
        exact absent member
      obtain ⟨⟨later, laterFrame⟩, laterOther, laterWriteSet, laterInstalled⟩ :=
        induction (by rw [frame]; exact owners_setOldest owners oldest)
          (by rw [frame]; exact last)
          (by
            intro entry member mvcc found
            rw [kept entry.1 (List.mem_map_of_mem member)] at found
            exact settled entry (List.mem_cons_of_mem _ member) mvcc found)
          tailDistinct rest
      refine ⟨⟨later, by rw [laterFrame, frame]⟩, laterOther.trans other,
        laterWriteSet.trans writeSet, ?_⟩
      constructor
      · intro entry member
        rcases List.mem_cons.mp member with same | tail
        · subst same
          rw [laterInstalled.kept entry.1 absent]
          exact installed.written entry (List.mem_singleton_self _)
        · exact laterInstalled.written entry tail
      · intro key foreign
        rw [List.map_cons, List.mem_cons, not_or] at foreign
        rw [laterInstalled.kept key foreign.2]
        apply installed.kept
        simpa using foreign.1

/-- A commit that returns has installed the least record of every key. -/
theorem transactionCommit_effect {fuel txnID bound : Nat} {tblID : TableID}
    {group next : TableGroup (MVCCTable K R)}
    (owners : Owners group.sCtx owner) (last : group.sCtx.lastCTS < DTS_INF)
    (settled : TableSettled bound (group.regStates tblID).tbl)
    (newer : bound < txnID) (finite : txnID < DTS_INF)
    (returned : transactionCommit fuel txnID tblID group = some next) :
    (∃ oldest, next.sCtx =
      { group.sCtx with oldestVisibleVersion := oldest }) ∧
      next.regStates (otherID tblID) = group.regStates (otherID tblID) ∧
      (next.regStates tblID).writeSet = { txnID := 0, set := [] } ∧
      Installed txnID
        (SortUnique.sortUnique (group.regStates tblID).writeSet.set)
        (group.regStates tblID).tbl (next.regStates tblID).tbl := by
  simp only [transactionCommit, Option.bind_eq_bind,
    Option.bind_eq_some_iff, Option.pure_def] at returned
  obtain ⟨middle, installs, same⟩ := returned
  cases same
  have begun : Owners (group.setTable tblID
      { group.regStates tblID with
        writeSet := (group.regStates tblID).writeSet.removeDuplicates }).sCtx
      owner := owners
  obtain ⟨frame, other, _, installed⟩ := installAll_effect begun last
    (by
      intro e _ mvcc found
      apply settled e.1
      simpa using found)
    newer finite (SortUnique.sortUnique_keys_nodup _) installs
  refine ⟨frame, ?_, ?_, ?_⟩
  · simpa [otherID_ne] using other
  · simp [WriteSet.clean]
  · simpa using installed

/-! ## Returning -/

omit [LinearOrder R] in
theorem installEntry_returns (fuel : Nat) {txnID : Nat} {tblID : TableID}
    {group : TableGroup (MVCCTable K R)} {e : K × R}
    (owners : Owners group.sCtx owner) (quiet : Quiet group.sCtx)
    (settled : ∀ mvcc, (group.regStates tblID).tbl.getByKey e.1 = some mvcc →
      Settled group.sCtx.lastCTS mvcc)
    (newer : group.sCtx.lastCTS < txnID) (finite : txnID < DTS_INF) :
    ∃ next, installEntry (fuel + 2) txnID tblID group e = some next := by
  simp only [installEntry]
  cases found : (group.regStates tblID).tbl.getByKey e.1 with
  | none => exact ⟨_, rfl⟩
  | some mvcc =>
      have isSettled := settled mvcc found
      obtain ⟨p, isOpen⟩ := isSettled.chain.opened
      have started := isSettled.old p isOpen
      have current := isSettled.chain.getCurrent_open isOpen
        (Nat.le_of_lt (Nat.lt_of_le_of_lt started newer)) finite
      obtain ⟨⟨sCtx, updated⟩, waited⟩ := waitForSlot_returns txnID p e.2 fuel
        owners.wellFormed quiet isSettled
      simp only [current, Option.bind_eq_bind, Option.bind_some, waited]
      exact ⟨_, rfl⟩

omit [LinearOrder R] in
theorem installAll_returns (fuel : Nat) {txnID : Nat} (tblID : TableID)
    {group : TableGroup (MVCCTable K R)} {set : List (K × R)}
    (owners : Owners group.sCtx owner) (quiet : Quiet group.sCtx)
    (settled : ∀ e ∈ set, ∀ mvcc,
      (group.regStates tblID).tbl.getByKey e.1 = some mvcc →
        Settled group.sCtx.lastCTS mvcc)
    (newer : group.sCtx.lastCTS < txnID) (finite : txnID < DTS_INF)
    (distinct : (set.map Prod.fst).Nodup) :
    ∃ next, set.foldlM (installEntry (fuel + 2) txnID tblID) group =
      some next := by
  induction set generalizing group with
  | nil => exact ⟨group, rfl⟩
  | cons e set induction =>
      obtain ⟨absent, tailDistinct⟩ := List.nodup_cons.mp distinct
      obtain ⟨middle, first⟩ := installEntry_returns fuel owners quiet
        (settled e List.mem_cons_self) newer finite
      obtain ⟨⟨oldest, frame⟩, _, _, installed⟩ := installEntry_effect owners
        (Nat.lt_trans newer finite) (settled e List.mem_cons_self) newer finite
        first
      have lastCTS : middle.sCtx.lastCTS = group.sCtx.lastCTS := by
        rw [frame]
      have active : middle.sCtx.activeTx = group.sCtx.activeTx := by
        rw [frame]
        exact StateContext.activeTx_congr rfl rfl
      obtain ⟨next, rest⟩ := induction
        (by rw [frame]; exact owners_setOldest owners oldest)
        (by
          intro id entry found
          rw [active] at found
          exact quiet id entry found)
        (by
          intro entry member mvcc found
          have foreign : entry.1 ∉ [e].map Prod.fst := by
            simp only [List.map_singleton, List.mem_singleton]
            intro same
            exact absent (same ▸ List.mem_map_of_mem member)
          rw [installed.kept entry.1 foreign] at found
          rw [lastCTS]
          exact settled entry (List.mem_cons_of_mem _ member) mvcc found)
        (by rw [lastCTS]; exact newer) tailDistinct
      refine ⟨next, ?_⟩
      rw [List.foldlM_cons, first]
      exact rest

/-- Without read timestamps a commit on top of the last one returns. -/
theorem transactionCommit_returns (fuel : Nat) {txnID : Nat} {tblID : TableID}
    {group : TableGroup (MVCCTable K R)}
    (owners : Owners group.sCtx owner) (quiet : Quiet group.sCtx)
    (settled : TableSettled group.sCtx.lastCTS (group.regStates tblID).tbl)
    (newer : group.sCtx.lastCTS < txnID) (finite : txnID < DTS_INF) :
    ∃ next, transactionCommit (fuel + 2) txnID tblID group = some next := by
  have begun : Owners (group.setTable tblID
      { group.regStates tblID with
        writeSet := (group.regStates tblID).writeSet.removeDuplicates }).sCtx
      owner := owners
  obtain ⟨middle, installs⟩ := installAll_returns fuel tblID begun quiet
    (by
      intro e _ mvcc found
      apply settled e.1
      simpa using found)
    newer finite
    (SortUnique.sortUnique_keys_nodup (group.regStates tblID).writeSet.set)
  refine ⟨middle.setTable tblID { middle.regStates tblID with
    writeSet := (middle.regStates tblID).writeSet.clean }, ?_⟩
  simp only [transactionCommit, Option.bind_eq_bind, Option.bind_eq_some_iff]
  exact ⟨middle, installs, rfl⟩

/-! ## Committing both tables -/

/-- What is left of a transaction that has committed. -/
structure Committed (txnID : Nat) (group next : TableGroup (MVCCTable K R)) :
    Prop where
  lastCTS : next.sCtx.lastCTS = txnID
  nextTxID : next.sCtx.nextTxID = group.sCtx.nextTxID
  activeTx : next.sCtx.activeTx =
    Function.update group.sCtx.activeTx txnID none
  occupied : next.sCtx.occupied.card + 1 = group.sCtx.occupied.card
  clean : ∀ i, (next.regStates i).writeSet = { txnID := 0, set := [] }
  installed : ∀ i, Installed txnID
    (SortUnique.sortUnique (group.regStates i).writeSet.set)
    (group.regStates i).tbl (next.regStates i).tbl

variable [DecidableEq Thread]

theorem commitBoth_effect {fuel txnID bound : Nat} {tblID : TableID}
    {group next : TableGroup (MVCCTable K R)} (thread : Thread)
    (owners : Owners group.sCtx owner) (owned : owner thread = some txnID)
    (settled : ∀ i, TableSettled bound (group.regStates i).tbl)
    (newer : bound < txnID) (older : group.sCtx.lastCTS < txnID)
    (returned : TransactionalTable.commitBoth fuel txnID tblID group =
      some next) :
    Owners next.sCtx (Function.update owner thread none) ∧
      Committed txnID group next := by
  have finite := (owners.bounds thread owned).2.2
  have last := Nat.lt_trans older finite
  simp only [TransactionalTable.commitBoth, Option.bind_eq_bind,
    Option.bind_eq_some_iff, Option.pure_def] at returned
  obtain ⟨first, firstReturned, second, secondReturned, sCtx, removed, same⟩ :=
    returned
  cases same
  obtain ⟨⟨oldest, frame⟩, other, firstClean, firstInstalled⟩ :=
    transactionCommit_effect owners last (settled tblID) newer finite
      firstReturned
  have secondSettled : TableSettled bound (first.regStates (otherID tblID)).tbl := by
    rw [other]
    exact settled (otherID tblID)
  obtain ⟨⟨later, laterFrame⟩, kept, secondClean, secondInstalled⟩ :=
    transactionCommit_effect
      (by rw [frame]; exact owners_setOldest owners oldest)
      (by rw [frame]; exact last) secondSettled newer finite secondReturned
  rw [otherID_otherID] at kept
  have context : second.sCtx =
      { group.sCtx with oldestVisibleVersion := later } := by
    rw [laterFrame, frame]
  have published : Owners (second.sCtx.setLastCTS txnID) owner := by
    apply Owners.setLastCTS
    · rw [context]
      exact owners_setOldest owners later
    · rw [context]
      exact Nat.le_of_lt older
  obtain ⟨entry, active⟩ := published.live thread txnID owned
  have slots : (second.sCtx.setLastCTS txnID).activeTx =
      group.sCtx.activeTx := by
    rw [context]
    exact StateContext.activeTx_congr rfl rfl
  obtain ⟨removedOwners, counter, lastCTS, activeTx⟩ :=
    published.removeTx thread owned removed
  refine ⟨removedOwners, ?_⟩
  constructor
  · exact lastCTS
  · rw [TableGroup.setCtx_sCtx, counter, StateContext.setLastCTS, context]
  · rw [TableGroup.setCtx_sCtx, activeTx, slots]
  · have count := StateContext.occupied_removeTx active removed
    rw [TableGroup.setCtx_sCtx, count]
    apply congrArg Finset.card
    apply StateContext.occupied_congr
    rw [StateContext.setLastCTS, context]
  · intro i
    rcases eq_or_eq_otherID i tblID with here | there
    · subst here
      rw [TableGroup.setCtx_regStates, kept]
      exact firstClean
    · subst there
      exact secondClean
  · intro i
    rcases eq_or_eq_otherID i tblID with here | there
    · subst here
      rw [TableGroup.setCtx_regStates, kept]
      exact firstInstalled
    · subst there
      rw [other] at secondInstalled
      exact secondInstalled

omit [DecidableEq Thread] in
theorem commitBoth_returns (fuel : Nat) {txnID : Nat} (tblID : TableID)
    {group : TableGroup (MVCCTable K R)} (thread : Thread)
    (owners : Owners group.sCtx owner) (owned : owner thread = some txnID)
    (quiet : Quiet group.sCtx)
    (settled : ∀ i, TableSettled group.sCtx.lastCTS (group.regStates i).tbl)
    (older : group.sCtx.lastCTS < txnID) :
    ∃ next, TransactionalTable.commitBoth (fuel + 2) txnID tblID group =
      some next := by
  have finite := (owners.bounds thread owned).2.2
  have last := Nat.lt_trans older finite
  obtain ⟨first, firstReturned⟩ := transactionCommit_returns fuel owners quiet
    (settled tblID) older finite
  obtain ⟨⟨oldest, frame⟩, other, _, _⟩ :=
    transactionCommit_effect owners last (settled tblID) older finite
      firstReturned
  have firstOwners : Owners first.sCtx owner := by
    rw [frame]
    exact owners_setOldest owners oldest
  have lastCTS : first.sCtx.lastCTS = group.sCtx.lastCTS := by
    rw [frame]
  have firstQuiet : Quiet first.sCtx := by
    intro id entry found
    apply quiet id entry
    rw [frame] at found
    exact found
  obtain ⟨second, secondReturned⟩ := transactionCommit_returns fuel firstOwners
    firstQuiet
    (by
      rw [other, lastCTS]
      exact settled (otherID tblID))
    (by rw [lastCTS]; exact older) finite
  obtain ⟨⟨later, laterFrame⟩, _⟩ := transactionCommit_effect firstOwners
    (by rw [lastCTS]; exact last)
    (by
      rw [other]
      exact settled (otherID tblID)) older finite secondReturned
  obtain ⟨entry, active⟩ := owners.live thread txnID owned
  have stillActive : (second.sCtx.setLastCTS txnID).activeTx txnID =
      some entry := by
    rw [laterFrame, frame, ← active]
    exact congrFun (StateContext.activeTx_congr rfl rfl) txnID
  obtain ⟨sCtx, removed⟩ := StateContext.removeTx_isSome stillActive
  refine ⟨second.setCtx sCtx, ?_⟩
  simp only [TransactionalTable.commitBoth, Option.bind_eq_bind,
    Option.bind_eq_some_iff]
  exact ⟨first, firstReturned, second, secondReturned, sCtx, removed, rfl⟩

end Install

end PipeFabric.MVCCTable
