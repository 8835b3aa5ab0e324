import PipeFabric.Table.ActiveTransactions

/-!
# Owners of transaction slots

The threads of a system each run at most one transaction at a time.  `Owners`
says that these transactions are active in the context and that no two threads
share one, so that a thread's slot changes only when the thread itself acts.
-/

namespace PipeFabric

open StateContext

variable {Thread : Type}

structure Owners (sCtx : StateContext) (owner : Thread → Option Nat) : Prop where
  wellFormed : sCtx.WellFormed
  counter : sCtx.nextTxID ≤ DTS_INF
  snapshots : ∀ txnID entry, sCtx.activeTx txnID = some entry →
    entry.readCTS ≤ sCtx.lastCTS
  live : ∀ thread txnID, owner thread = some txnID →
    ∃ entry, sCtx.activeTx txnID = some entry
  distinct : ∀ thread other txnID, owner thread = some txnID →
    owner other = some txnID → thread = other

/-- The id counter starts at the clock and is a 64-bit number: runs end before
it reaches the reserved value `DTS_INF`. -/
def beginTx (sCtx : StateContext) : Option (Nat × StateContext) :=
  if sCtx.nextTxID < DTS_INF then sCtx.newTx else none

/-- A timestamp from the same counter. -/
def fetchTS (sCtx : StateContext) : Option (Nat × StateContext) :=
  if sCtx.nextTxID < DTS_INF then some sCtx.getNewTS else none

theorem fetchTS_eq_some {sCtx next : StateContext} {ts : Nat}
    (fetched : fetchTS sCtx = some (ts, next)) :
    sCtx.nextTxID < DTS_INF ∧ ts = sCtx.nextTxID ∧
      next = { sCtx with nextTxID := sCtx.nextTxID + 1 } := by
  unfold fetchTS getNewTS at fetched
  split at fetched
  case isTrue room =>
    cases fetched
    exact ⟨room, rfl, rfl⟩
  case isFalse => cases fetched

namespace Owners

variable {sCtx next : StateContext} {owner : Thread → Option Nat}
  {thread : Thread} {txnID : Nat}

theorem initial {clock : Nat} (positive : 0 < clock) (small : clock ≤ DTS_INF) :
    Owners (.initial clock) fun _ : Thread => none where
  wellFormed := initial_wellFormed positive
  counter := small
  snapshots := by
    intro txnID entry active
    obtain ⟨pos, used, _⟩ :=
      (initial_wellFormed positive).activeTx_eq_some.mp active
    simp [StateContext.initial] at used
  live := by
    intro thread txnID impossible
    cases impossible
  distinct := by
    intro thread other txnID impossible
    cases impossible

/-- The id of an owned transaction is positive and was handed out before. -/
theorem bounds (owners : Owners sCtx owner) (thread : Thread)
    (owned : owner thread = some txnID) :
    0 < txnID ∧ txnID < sCtx.nextTxID ∧ txnID < DTS_INF := by
  obtain ⟨entry, active⟩ := owners.live thread txnID owned
  obtain ⟨_, nonzero, old⟩ := owners.wellFormed.activeTx_txnID active
  have counter := owners.counter
  omega

variable [DecidableEq Thread]

/-- A thread without a transaction begins one. -/
theorem beginTx (owners : Owners sCtx owner) (thread : Thread)
    (begun : PipeFabric.beginTx sCtx = some (txnID, next)) :
    Owners next (Function.update owner thread (some txnID)) ∧
      txnID = sCtx.nextTxID ∧ next.nextTxID = sCtx.nextTxID + 1 ∧
      next.lastCTS = sCtx.lastCTS ∧
      next.activeTx =
        Function.update sCtx.activeTx txnID (some (freshTx txnID)) := by
  unfold PipeFabric.beginTx at begun
  split at begun
  case isFalse => cases begun
  case isTrue room =>
    obtain ⟨new, counter, replaces⟩ := owners.wellFormed.newTx begun
    have unknown : ∀ other, owner other ≠ some txnID := by
      intro other owned
      have old := (owners.bounds other owned).2.1
      omega
    refine ⟨⟨replaces.wellFormed, by omega, ?_, ?_, ?_⟩, new, counter,
      replaces.lastCTS, replaces.activeTx⟩
    · intro other entry active
      rw [replaces.lastCTS]
      rw [replaces.activeTx, Function.update_apply] at active
      split at active
      · cases active
        exact Nat.zero_le _
      · exact owners.snapshots other entry active
    · intro other id owned
      rw [replaces.activeTx, Function.update_apply]
      rw [Function.update_apply] at owned
      split at owned
      · cases owned
        exact ⟨_, if_pos rfl⟩
      · split
        · exact ⟨_, rfl⟩
        · exact owners.live other id owned
    · intro first second id firstOwned secondOwned
      rw [Function.update_apply] at firstOwned secondOwned
      split at firstOwned <;> split at secondOwned
      case isTrue.isTrue left right => rw [left, right]
      case isTrue.isFalse =>
        cases firstOwned
        exact absurd secondOwned (unknown second)
      case isFalse.isTrue =>
        cases secondOwned
        exact absurd firstOwned (unknown first)
      case isFalse.isFalse =>
        exact owners.distinct first second id firstOwned secondOwned

/-- A thread ends its transaction. -/
theorem removeTx (owners : Owners sCtx owner) (thread : Thread)
    (owned : owner thread = some txnID)
    (removed : sCtx.removeTx txnID = some next) :
    Owners next (Function.update owner thread none) ∧
      next.nextTxID = sCtx.nextTxID ∧ next.lastCTS = sCtx.lastCTS ∧
      next.activeTx = Function.update sCtx.activeTx txnID none := by
  obtain ⟨entry, active⟩ := owners.live thread txnID owned
  obtain ⟨replaces, counter⟩ := owners.wellFormed.removeTx active removed
  refine ⟨⟨replaces.wellFormed, counter ▸ owners.counter, ?_, ?_, ?_⟩, counter,
    replaces.lastCTS, replaces.activeTx⟩
  · intro other found activeOther
    rw [replaces.lastCTS]
    rw [replaces.activeTx, Function.update_apply] at activeOther
    split at activeOther
    · cases activeOther
    · exact owners.snapshots other found activeOther
  · intro other id otherOwned
    rw [Function.update_apply] at otherOwned
    split at otherOwned
    · cases otherOwned
    case isFalse different =>
      have notRemoved : id ≠ txnID := by
        rintro rfl
        exact different (owners.distinct other thread id otherOwned owned)
      rw [replaces.activeTx, Function.update_of_ne notRemoved]
      exact owners.live other id otherOwned
  · intro first second id firstOwned secondOwned
    rw [Function.update_apply] at firstOwned secondOwned
    split at firstOwned
    · cases firstOwned
    · split at secondOwned
      · cases secondOwned
      · exact owners.distinct first second id firstOwned secondOwned

omit [DecidableEq Thread] in
/-- An operation on the entry of one active transaction. -/
theorem replace {changed : ActiveTx} (owners : Owners sCtx owner)
    (replaces : Replaces sCtx next txnID (some changed))
    (counter : next.nextTxID = sCtx.nextTxID)
    (snapshot : changed.readCTS ≤ sCtx.lastCTS) : Owners next owner := by
  refine ⟨replaces.wellFormed, counter ▸ owners.counter, ?_, ?_,
    owners.distinct⟩
  · intro other found activeOther
    rw [replaces.lastCTS]
    rw [replaces.activeTx, Function.update_apply] at activeOther
    split at activeOther
    · cases activeOther
      exact snapshot
    · exact owners.snapshots other found activeOther
  · intro other id owned
    rw [replaces.activeTx, Function.update_apply]
    split
    · exact ⟨_, rfl⟩
    · exact owners.live other id owned

omit [DecidableEq Thread] in
theorem setReadCTS {read : Nat} (owners : Owners sCtx owner)
    (thread : Thread)
    (owned : owner thread = some txnID) (bound : read ≤ sCtx.lastCTS)
    (set : sCtx.setReadCTS txnID read = some next) :
    Owners next owner ∧ next.nextTxID = sCtx.nextTxID ∧
      next.lastCTS = sCtx.lastCTS ∧
      ∃ entry, sCtx.activeTx txnID = some entry ∧
        next.activeTx = Function.update sCtx.activeTx txnID
          (some { entry with readCTS := read }) := by
  obtain ⟨entry, active⟩ := owners.live thread txnID owned
  obtain ⟨replaces, counter⟩ := owners.wellFormed.setReadCTS active set
  exact ⟨owners.replace replaces counter bound, counter,
    replaces.lastCTS, entry, active, replaces.activeTx⟩

omit [DecidableEq Thread] in
theorem setWriteStatus {tblID : TableID} {status : Status}
    (owners : Owners sCtx owner) (thread : Thread)
    (owned : owner thread = some txnID)
    (set : sCtx.setWriteStatus txnID tblID status = some next) :
    Owners next owner ∧ next.nextTxID = sCtx.nextTxID ∧
      next.lastCTS = sCtx.lastCTS ∧
      ∃ entry, sCtx.activeTx txnID = some entry ∧
        next.activeTx = Function.update sCtx.activeTx txnID
          (some { entry with
            writeInfo := Function.update entry.writeInfo tblID status }) := by
  obtain ⟨entry, active⟩ := owners.live thread txnID owned
  obtain ⟨replaces, counter⟩ := owners.wellFormed.setWriteStatus active set
  exact ⟨owners.replace replaces counter
    (owners.snapshots txnID entry active), counter, replaces.lastCTS, entry,
    active, replaces.activeTx⟩

omit [DecidableEq Thread] in
/-- The slots are untouched, the counter and the last commit may advance. -/
theorem advance (owners : Owners sCtx owner)
    (wellFormed : next.WellFormed) (slots : next.activeTx = sCtx.activeTx)
    (counter : next.nextTxID ≤ DTS_INF) (last : sCtx.lastCTS ≤ next.lastCTS) :
    Owners next owner where
  wellFormed := wellFormed
  counter := counter
  snapshots := by
    intro other entry active
    rw [slots] at active
    exact Nat.le_trans (owners.snapshots other entry active) last
  live := by
    intro other id owned
    rw [slots]
    exact owners.live other id owned
  distinct := owners.distinct

omit [DecidableEq Thread] in
theorem recalcOldestVisible (owners : Owners sCtx owner) (id : Nat) :
    Owners (sCtx.recalcOldestVisible id).2 owner :=
  owners.advance (owners.wellFormed.recalcOldestVisible id)
    (recalcOldestVisible_activeTx sCtx id)
    (by rw [recalcOldestVisible_nextTxID]; exact owners.counter)
    (by rw [recalcOldestVisible_lastCTS])

omit [DecidableEq Thread] in
theorem fetchTS {ts : Nat} (owners : Owners sCtx owner)
    (fetched : PipeFabric.fetchTS sCtx = some (ts, next)) :
    Owners next owner ∧ ts = sCtx.nextTxID ∧
      next.nextTxID = sCtx.nextTxID + 1 ∧ next.lastCTS = sCtx.lastCTS ∧
      next.activeTx = sCtx.activeTx ∧ next.usedSlots = sCtx.usedSlots := by
  obtain ⟨room, new, rfl⟩ := fetchTS_eq_some fetched
  refine ⟨?_, new, rfl, rfl, activeTx_congr rfl rfl, rfl⟩
  exact owners.advance (owners.wellFormed.congr rfl rfl (Nat.le_succ _))
    (activeTx_congr rfl rfl) room (le_refl _)

omit [DecidableEq Thread] in
theorem setLastCTS (owners : Owners sCtx owner)
    (newer : sCtx.lastCTS ≤ txnID) : Owners (sCtx.setLastCTS txnID) owner :=
  owners.advance (owners.wellFormed.congr rfl rfl (le_refl _))
    (activeTx_congr rfl rfl) owners.counter newer

end Owners

end PipeFabric
