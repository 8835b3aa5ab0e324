import PipeFabric.Mvcc.Reachable

/-!
# What a step does to the stored objects

Seen from outside, a step starts a commit, installs a version of one key, cleans
up the versions of one key, or does nothing to the stored objects and to the
writes that are pending.
-/

namespace PipeFabric.Mvcc

open StateContext

variable {ρ K R : Type}

/-! ## The id counter -/

theorem setReadCTS_nextTxID {sCtx next : StateContext} {txnID read : Nat}
    (set : sCtx.setReadCTS txnID read = some next) :
    next.nextTxID = sCtx.nextTxID := by
  obtain ⟨pos, _, rfl⟩ := Option.map_eq_some_iff.mp set
  rfl

theorem setWriteStatus_nextTxID {sCtx next : StateContext} {txnID : Nat}
    {tblID : TableID} {status : Status}
    (set : sCtx.setWriteStatus txnID tblID status = some next) :
    next.nextTxID = sCtx.nextTxID := by
  obtain ⟨pos, _, rfl⟩ := Option.map_eq_some_iff.mp set
  rfl

theorem removeTx_nextTxID {sCtx next : StateContext} {txnID : Nat}
    (removed : sCtx.removeTx txnID = some next) :
    next.nextTxID = sCtx.nextTxID := by
  obtain ⟨pos, _, rfl⟩ := Option.map_eq_some_iff.mp removed
  rfl

theorem beginTx_nextTxID {sCtx next : StateContext} {txnID : Nat}
    (begun : beginTx sCtx = some (txnID, next)) :
    txnID = sCtx.nextTxID ∧ next.nextTxID = sCtx.nextTxID + 1 := by
  unfold beginTx at begun
  split at begun
  case isTrue =>
    rw [newTx_eq] at begun
    split at begun
    · cases begun
      exact ⟨rfl, rfl⟩
    · cases begun
  case isFalse => cases begun

theorem fetchReadCTS_nextTxID {sCtx next : StateContext} {txnID readCTS : Nat}
    (fetched : MVCCTable.fetchReadCTS sCtx txnID = some (readCTS, next)) :
    next.nextTxID = sCtx.nextTxID := by
  unfold MVCCTable.fetchReadCTS at fetched
  simp only [Option.bind_eq_bind, Option.bind_eq_some_iff] at fetched
  obtain ⟨read, _, fetched⟩ := fetched
  split at fetched
  · simp only [Option.bind_eq_some_iff, Option.pure_def, Option.some.injEq,
      Prod.mk.injEq] at fetched
    obtain ⟨changed, set, _, rfl⟩ := fetched
    exact setReadCTS_nextTxID set
  · simp only [Option.pure_def, Option.some.injEq, Prod.mk.injEq] at fetched
    obtain ⟨_, rfl⟩ := fetched
    rfl

section Counter

variable [DecidableEq ρ] [LinearOrder K]

theorem readStep_nextTxID {state next : State ρ K R} {reader : ρ}
    (stepped : readStep state reader = some next) :
    next.group.sCtx.nextTxID = state.group.sCtx.nextTxID := by
  unfold readStep at stepped
  dsimp only at stepped
  split at stepped
  · cases stepped
  · cases stepped
    unfold lookupStep
    split
    · rfl
    · dsimp only
      split
      · rfl
      · split <;> rfl
  · obtain ⟨readCTS, sCtx, fetched, either⟩ := fetchStep_cases stepped
    have counter := fetchReadCTS_nextTxID fetched
    rcases either with ⟨_, rfl⟩ | ⟨_, _, rfl⟩
    · exact counter
    · exact counter
  · simp only [Option.bind_eq_bind, Option.bind_eq_some_iff, Option.pure_def,
      Option.some.injEq] at stepped
    obtain ⟨sCtx, set, rfl⟩ := stepped
    exact setReadCTS_nextTxID set
  · simp only [Option.bind_eq_bind, Option.bind_eq_some_iff, Option.pure_def,
      Option.some.injEq] at stepped
    obtain ⟨_, _, rfl⟩ := stepped
    rfl
  · simp only [Option.bind_eq_bind, Option.bind_eq_some_iff, Option.pure_def,
      Option.some.injEq] at stepped
    obtain ⟨sCtx, removed, rfl⟩ := stepped
    exact removeTx_nextTxID removed

end Counter

/-! ## Stored objects and pending writes -/

/-- The object of one key is replaced. -/
def Stores [DecidableEq K] (state next : State ρ K R) (tblID : TableID)
    (key : K) (updated : MVCCTuple R) : Prop :=
  ∀ i other, (next.group.regStates i).tbl.getByKey other =
    if i = tblID ∧ other = key then some updated
    else (state.group.regStates i).tbl.getByKey other

/-- A transaction has given a key its version, on top of the open one if there is
one. -/
inductive NewVersion [Inhabited R] (txnID : Nat) (rec : R) :
    Option (MVCCTuple R) → MVCCTuple R → Prop where
  | first : NewVersion txnID rec none (.first txnID rec)
  | next {mvcc : MVCCTuple R} {iPos dPos : Fin 2}
      (free : mvcc.isUsed iPos = false) (isOpen : mvcc.IsOpen dPos)
      (newer : mvcc.cts dPos < txnID) :
      NewVersion txnID rec (some mvcc) (mvcc.newEntry txnID iPos dPos rec)

theorem tbl_setTable_writeSet (group : TableGroup (MVCCTable K R))
    (tblID : TableID) (writeSet : WriteSet K R) (i : TableID) :
    ((group.setTable tblID
      { group.regStates tblID with writeSet := writeSet }).regStates i).tbl =
      (group.regStates i).tbl := by
  unfold TableGroup.setTable
  by_cases here : i = tblID
  · subst i
    simp
  · simp [here]

section Effects

variable [LinearOrder K] [LinearOrder R] [Inhabited R]

inductive Effect (state next : State ρ K R) : Prop where
  | quiet
      (stored : ∀ i, (next.group.regStates i).tbl =
        (state.group.regStates i).tbl)
      (history : next.history = state.history)
      (pending : ∀ commit ∈ state.history, ∀ i key,
        (commit.record i key).isSome →
        (next.writer.Pending i key commit.txnID ↔
          state.writer.Pending i key commit.txnID))
      (txn : ∀ txnID, next.writer.txn = some txnID →
        state.writer.txn = some txnID ∨ state.group.sCtx.nextTxID ≤ txnID)
  | commit (new : Commit K R)
      (stored : ∀ i, (next.group.regStates i).tbl =
        (state.group.regStates i).tbl)
      (history : next.history = new :: state.history)
      (newer : state.group.sCtx.lastCTS < new.txnID)
      (running : state.writer.txn = some new.txnID)
      (txn : next.writer.txn = some new.txnID)
      (before : ∀ i key txnID, ¬ state.writer.Pending i key txnID)
      (pending : ∀ i key, (new.record i key).isSome →
        next.writer.Pending i key new.txnID)
      (only : ∀ i key txnID, next.writer.Pending i key txnID →
        txnID = new.txnID)
  | install (txnID : Nat) (tblID : TableID) (e : K × R) (updated : MVCCTuple R)
      (history : next.history = state.history)
      (running : state.writer.txn = some txnID)
      (txn : next.writer.txn = some txnID)
      (finite : txnID < DTS_INF)
      (version : NewVersion txnID e.2
        ((state.group.regStates tblID).tbl.getByKey e.1) updated)
      (stored : Stores state next tblID e.1 updated)
      (pending : ∀ i key t, next.writer.Pending i key t ↔
        state.writer.Pending i key t ∧ ¬ (i = tblID ∧ key = e.1))
      (only : ∀ i key t, state.writer.Pending i key t → t = txnID)
  | cleanUp (txnID : Nat) (tblID : TableID) (e : K × R) (dPos : Fin 2)
      (todo : List (K × R)) (last : Bool) (mvcc : MVCCTuple R)
      (history : next.history = state.history)
      (waiting : state.writer = .wait txnID tblID e dPos todo last)
      (writer : next.writer = state.writer)
      (found : (state.group.regStates tblID).tbl.getByKey e.1 = some mvcc)
      (full : mvcc.freeSlot = none)
      (stored : Stores state next tblID e.1 (mvcc.cleanUpVersions
        (state.group.sCtx.recalcOldestVisible txnID).1))

/-- A step that leaves the stored objects, the writer and the history alone. -/
theorem Effect.unchanged {state next : State ρ K R}
    (stored : ∀ i, (next.group.regStates i).tbl = (state.group.regStates i).tbl)
    (writer : next.writer = state.writer)
    (history : next.history = state.history) : Effect state next := by
  apply Effect.quiet
  · exact stored
  · exact history
  · intro commit _ i key _
    rw [writer]
  · intro txnID running
    rw [writer] at running
    exact Or.inl running

section Steps

variable {state next : State ρ K R}

omit [LinearOrder K] [LinearOrder R] [Inhabited R] in
/-- Only the writes of a commit under way are pending. -/
theorem WriterPC.Pending.eq {writer : WriterPC K R} {i : TableID} {key : K}
    {t txnID : Nat} (waits : writer.Pending i key t)
    (running : writer.txn = some txnID) : t = txnID :=
  Option.some.inj (waits.txn.symm.trans running)

/-- The second vote starts the commit. -/
theorem preCommit_effect (inv : Inv state) {txnID : Nat} {tblID : TableID}
    (active : state.writer = .active txnID)
    (stepped : preCommitStep state txnID tblID = some next) :
    Effect state next ∧
      state.group.sCtx.nextTxID ≤ next.group.sCtx.nextTxID := by
  have phase := inv.store.phase
  rw [active] at phase
  unfold preCommitStep at stepped
  simp only [Option.bind_eq_bind, Option.bind_eq_some_iff] at stepped
  obtain ⟨sCtx, set, otherState, _, stepped⟩ := stepped
  have counter := setWriteStatus_nextTxID set
  split at stepped
  case isTrue both =>
    simp only [Option.pure_def, Option.some.injEq] at stepped
    subst next
    refine ⟨?_, counter.ge⟩
    apply Effect.commit
      { txnID := txnID
        writes := fun i => (state.group.regStates i).writeSet.set }
    · exact tbl_setTable_writeSet (state.group.setCtx sCtx) tblID _
    · rfl
    · exact phase.2.1
    · rw [active]
      rfl
    · rfl
    · rw [active]
      exact fun _ _ _ => id
    · intro i key written
      refine ⟨rfl, ?_⟩
      rcases eq_or_eq_otherID i tblID with here | there
      · subst i
        refine Or.inl ⟨rfl, ?_⟩
        by_contra absent
        rw [Commit.record_eq_none absent] at written
        cases written
      · exact Or.inr ⟨rfl, there⟩
    · exact fun _ _ _ waits => waits.1
  case isFalse =>
    simp only [Option.pure_def, Option.some.injEq] at stepped
    subst next
    exact ⟨.unchanged (fun _ => rfl) rfl rfl, counter.ge⟩

omit [Inhabited R] in
/-- Entering the second table settles which of its keys are pending. -/
theorem pending_nextTable (inv : Inv state) {txnID : Nat} {tblID : TableID}
    (installing : state.writer = .install txnID tblID [] false)
    {commit : Commit K R} (member : commit ∈ state.history) (i : TableID)
    (key : K) (written : (commit.record i key).isSome) :
    (WriterPC.install txnID (otherID tblID)
      (state.group.regStates (otherID tblID)).writeSet.removeDuplicates.set
        true).Pending i key commit.txnID ↔
      (WriterPC.install txnID tblID ([] : List (K × R)) false).Pending i key
        commit.txnID := by
  have phase := inv.store.phase
  rw [installing] at phase
  obtain ⟨committing, _, _, other⟩ := phase
  obtain ⟨head, older, equal, stamp, _⟩ := committing.head
  simp only [WriterPC.Pending, List.map_nil, List.not_mem_nil, and_false,
    true_and, false_or, Bool.true_eq_false, false_and, or_false]
  constructor
  · intro pending
    obtain ⟨same, there, _⟩ := pending
    exact ⟨same, there⟩
  · intro pending
    obtain ⟨same, there⟩ := pending
    refine ⟨same, there, ?_⟩
    subst i
    by_contra absent
    have newest := inv.store.newestFirst.eq_of_stamp member
      (by rw [equal]; exact List.mem_cons_self) (same.trans stamp.symm)
    rw [newest, Commit.record_eq_none] at written
    · cases written
    · rw [← other head older equal]
      exact absent

/-- One pass of the loop that waits for a slot. -/
theorem wait_effect (inv : Inv state) {txnID : Nat} {tblID : TableID}
    {e : K × R} {dPos : Fin 2} {todo : List (K × R)} {last : Bool}
    {mvcc : MVCCTuple R}
    (waiting : state.writer = .wait txnID tblID e dPos todo last)
    (found : (state.group.regStates tblID).tbl.getByKey e.1 = some mvcc) :
    let pass := MVCCTable.slotStep txnID dPos e.2 state.group.sCtx mvcc
    let table := state.group.regStates tblID
    Effect state { state with
      group := (state.group.setCtx pass.1).setTable tblID
        { table with tbl := table.tbl.update e.1 pass.2.1 }
      writer := if pass.2.2 then .install txnID tblID todo last
        else .wait txnID tblID e dPos todo last } ∧
      state.group.sCtx.nextTxID ≤ pass.1.nextTxID := by
  have running : state.writer.txn = some txnID := congrArg WriterPC.txn waiting
  have phase := inv.store.phase
  rw [waiting] at phase
  obtain ⟨_, _, todoOk, _, stored, storedFound, isOpen⟩ := phase
  rw [found, Option.some_inj] at storedFound
  subst stored
  unfold MVCCTable.slotStep
  cases free : mvcc.freeSlot with
  | some iPos =>
      refine ⟨?_, le_rfl⟩
      apply Effect.install txnID tblID e (mvcc.newEntry txnID iPos dPos e.2)
      · rfl
      · exact running
      · rfl
      · exact (inv.writer_bounds running).2.2
      · rw [found]
        have store := inv.store
        rw [waiting] at store
        exact .next (MVCCObject.freeSlot_unused (by omega) free) isOpen
          (store.cts_lt_waiting found isOpen)
      · exact StoreInv.getByKey_store
          fun _ => CuckooTable.getByKey_update _ _ _ _
      · intro i key t
        rw [waiting]
        exact StoreInv.pending_install todoOk.distinct i key t
      · exact fun _ _ _ waits => waits.eq running
  | none =>
      refine ⟨?_, ?_⟩
      · apply Effect.cleanUp txnID tblID e dPos todo last mvcc
        · rfl
        · exact waiting
        · exact waiting.symm
        · exact found
        · exact free
        · exact StoreInv.getByKey_store
            fun _ => CuckooTable.getByKey_update _ _ _ _
      · exact (recalcOldestVisible_nextTxID _ _).ge

/-- The steps of a commit. -/
theorem write_effect (inv : Inv state)
    (stepped : writeStep state = some next) :
    Effect state next ∧
      state.group.sCtx.nextTxID ≤ next.group.sCtx.nextTxID := by
  unfold writeStep at stepped
  cases pc : state.writer with
  | idle => simp [pc] at stepped
  | active txnID => simp [pc] at stepped
  | install txnID tblID todo last =>
      have running : state.writer.txn = some txnID := congrArg WriterPC.txn pc
      cases todo with
      | nil =>
          cases last with
          | true =>
              simp only [pc, if_true, Option.some.injEq] at stepped
              subst next
              refine ⟨?_, le_rfl⟩
              apply Effect.quiet
              · exact tbl_setTable_writeSet state.group tblID _
              · rfl
              · intro commit _ i key _
                rw [pc]
                simp [WriterPC.Pending]
              · intro t same
                rw [running]
                exact Or.inl same
          | false =>
              simp only [pc, Bool.false_eq_true, if_false,
                Option.some.injEq] at stepped
              subst next
              refine ⟨?_, le_rfl⟩
              apply Effect.quiet
              · intro i
                exact (tbl_setTable_writeSet (state.group.setTable tblID _)
                  (otherID tblID) _ i).trans
                    (tbl_setTable_writeSet state.group tblID _ i)
              · rfl
              · intro commit member i key written
                rw [pc]
                have same := pending_nextTable inv pc member i key written
                simpa [startCommit, otherID_ne] using same
              · intro t same
                rw [running]
                exact Or.inl same
      | cons e todo =>
          have phase := inv.store.phase
          rw [pc] at phase
          cases found : (state.group.regStates tblID).tbl.getByKey e.1 with
          | none =>
              simp only [pc, found, Option.some.injEq] at stepped
              subst next
              refine ⟨?_, le_rfl⟩
              apply Effect.install txnID tblID e (.first txnID e.2)
              · rfl
              · exact running
              · rfl
              · exact (inv.writer_bounds running).2.2
              · rw [found]
                exact .first
              · apply StoreInv.getByKey_store
                intro key
                rw [CuckooTable.getByKey_insert, found]
                rfl
              · intro i key t
                rw [pc]
                exact StoreInv.pending_install phase.2.2.1.distinct i key t
              · exact fun _ _ _ waits => waits.eq running
          | some mvcc =>
              simp only [pc, found, Option.bind_eq_bind,
                Option.bind_eq_some_iff, Option.pure_def,
                Option.some.injEq] at stepped
              obtain ⟨dPos, _, rfl⟩ := stepped
              refine ⟨?_, le_rfl⟩
              apply Effect.quiet
              · exact fun _ => rfl
              · rfl
              · intro commit _ i key _
                rw [pc]
                exact Iff.rfl
              · intro t same
                rw [running]
                exact Or.inl same
  | wait txnID tblID e dPos todo last =>
      simp only [pc, Option.bind_eq_bind, Option.bind_eq_some_iff,
        Option.pure_def, Option.some.injEq] at stepped
      obtain ⟨mvcc, found, rfl⟩ := stepped
      exact wait_effect inv pc found
  | publish txnID =>
      simp only [pc, Option.some.injEq] at stepped
      subst next
      refine ⟨?_, le_rfl⟩
      apply Effect.quiet
      · exact fun _ => rfl
      · rfl
      · intro commit _ i key _
        rw [pc]
        exact Iff.rfl
      · intro t same
        rw [pc]
        exact Or.inl same
  | removeTx txnID =>
      simp only [pc, Option.bind_eq_bind, Option.bind_eq_some_iff,
        Option.pure_def, Option.some.injEq] at stepped
      obtain ⟨sCtx, removed, rfl⟩ := stepped
      refine ⟨?_, (removeTx_nextTxID removed).ge⟩
      apply Effect.quiet
      · exact fun _ => rfl
      · rfl
      · intro commit _ i key _
        rw [pc]
        exact Iff.rfl
      · intro t same
        cases same

variable [DecidableEq ρ]

theorem step_effect {action : Action ρ K R} (inv : Inv state)
    (stepped : step state action = some next) :
    Effect state next ∧
      state.group.sCtx.nextTxID ≤ next.group.sCtx.nextTxID := by
  cases action with
  | newTx =>
      unfold step at stepped
      cases pc : state.writer with
      | idle =>
          simp only [pc, Option.bind_eq_bind, Option.bind_eq_some_iff,
            Option.pure_def, Option.some.injEq] at stepped
          obtain ⟨⟨txnID, sCtx⟩, begun, rfl⟩ := stepped
          obtain ⟨new, counter⟩ := beginTx_nextTxID begun
          refine ⟨?_, counter ▸ Nat.le_succ _⟩
          apply Effect.quiet
          · exact fun _ => rfl
          · rfl
          · intro commit _ i key _
            rw [pc]
            exact Iff.rfl
          · intro t same
            cases same
            exact Or.inr new.ge
      | _ => simp [pc] at stepped
  | transactionBegin tblID =>
      unfold step at stepped
      cases pc : state.writer with
      | active txnID =>
          simp only [pc, Option.some.injEq] at stepped
          subst next
          exact ⟨.unchanged (tbl_setTable_writeSet state.group tblID _) pc.symm rfl,
            le_rfl⟩
      | _ => simp [pc] at stepped
  | insert tblID key rec =>
      unfold step at stepped
      cases pc : state.writer with
      | active txnID =>
          simp only [pc, Option.some.injEq] at stepped
          subst next
          exact ⟨.unchanged (tbl_setTable_writeSet state.group tblID _) pc.symm rfl,
            le_rfl⟩
      | _ => simp [pc] at stepped
  | transactionPreCommit tblID =>
      unfold step at stepped
      cases pc : state.writer with
      | active txnID =>
          simp only [pc] at stepped
          exact preCommit_effect inv pc stepped
      | _ => simp [pc] at stepped
  | write => exact write_effect inv stepped
  | start reader keys =>
      have frame := (step_inv inv stepped).2
      refine ⟨.unchanged (fun i => by rw [frame.tables]) frame.writer frame.history, ?_⟩
      unfold step at stepped
      dsimp only at stepped
      split at stepped
      · simp only [Option.bind_eq_bind, Option.bind_eq_some_iff,
          Option.pure_def, Option.some.injEq] at stepped
        obtain ⟨⟨txnID, sCtx⟩, begun, rfl⟩ := stepped
        exact (beginTx_nextTxID begun).2 ▸ Nat.le_succ _
      · cases stepped
  | read reader =>
      have frame := (step_inv inv stepped).2
      exact ⟨.unchanged (fun i => by rw [frame.tables]) frame.writer frame.history,
        (readStep_nextTxID stepped).ge⟩

end Steps

end Effects

end PipeFabric.Mvcc
