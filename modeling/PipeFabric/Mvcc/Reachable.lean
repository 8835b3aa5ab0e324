import PipeFabric.Mvcc.StoreSteps

/-!
# The invariant of the multi-version system

`Inv` joins what is known of the context, of the transactions the threads own
and of the store.  A step of the writer keeps it and shows itself to the
readers only through `WriterFrame`; a step of a reader touches nothing but its
own entry in the context, which is `ReaderFrame`.
-/

namespace PipeFabric.Mvcc

open TransitionSystem StateContext

variable {ρ K R : Type}

/-- The transaction a reader is running. -/
def Reader.txn (reader : Reader K R) : Option Nat :=
  match reader.pc with
  | .idle => none
  | _ => some reader.query.mTxnID

/-- The threads are the writer, `none`, and the readers. -/
def State.owner (state : State ρ K R) : Option ρ → Option Nat
  | none => state.writer.txn
  | some reader => (state.readers reader).txn

structure Inv [LinearOrder K] [LinearOrder R] (state : State ρ K R) : Prop where
  owners : Owners state.group.sCtx state.owner
  store : StoreInv state.group.regStates state.writer state.history
    state.group.sCtx.lastCTS state.group.sCtx.nextTxID

/-- What readers can notice of a step of the writer. -/
structure WriterFrame (state next : State ρ K R) : Prop where
  readers : next.readers = state.readers
  published : next.published = state.published
  lastCTS : state.group.sCtx.lastCTS ≤ next.group.sCtx.lastCTS
  history : next.history = state.history ∨
    ∃ commit, next.history = commit :: state.history ∧
      state.group.sCtx.lastCTS < commit.txnID
  active : ∀ txnID entry, state.group.sCtx.activeTx txnID = some entry →
    state.writer.txn ≠ some txnID →
    next.group.sCtx.activeTx txnID = some entry

/-- What a step of a reader leaves alone. -/
structure ReaderFrame (reader : ρ) (state next : State ρ K R) : Prop where
  tables : next.group.regStates = state.group.regStates
  writer : next.writer = state.writer
  history : next.history = state.history
  lastCTS : next.group.sCtx.lastCTS = state.group.sCtx.lastCTS
  readers : ∀ other, other ≠ reader → next.readers other = state.readers other
  active : ∀ txnID entry, state.group.sCtx.activeTx txnID = some entry →
    (state.readers reader).txn ≠ some txnID →
    next.group.sCtx.activeTx txnID = some entry

section Owner

variable [DecidableEq ρ]

theorem owner_setWriter (state : State ρ K R) (group : TableGroup (MVCCTable K R))
    (writer : WriterPC K R) (history : List (Commit K R)) :
    ({ state with group := group, writer := writer, history := history } :
        State ρ K R).owner =
      Function.update state.owner none writer.txn := by
  funext thread
  cases thread <;> simp [State.owner]

theorem owner_setWriter_same (state : State ρ K R)
    (group : TableGroup (MVCCTable K R)) (writer : WriterPC K R)
    (history : List (Commit K R)) (same : writer.txn = state.writer.txn) :
    ({ state with group := group, writer := writer, history := history } :
        State ρ K R).owner = state.owner := by
  rw [owner_setWriter, same]
  exact Function.update_eq_self none state.owner

theorem owner_setReader (state : State ρ K R) (reader : ρ) (value : Reader K R) :
    (state.setReader reader value).owner =
      Function.update state.owner (some reader) value.txn := by
  funext thread
  cases thread with
  | none => simp [State.owner, State.setReader]
  | some other =>
      by_cases here : other = reader
      · subst other
        simp [State.owner, State.setReader]
      · simp [State.owner, State.setReader, here]

theorem owner_setReader_same (state : State ρ K R) (reader : ρ)
    (value : Reader K R) (same : value.txn = (state.readers reader).txn) :
    (state.setReader reader value).owner = state.owner := by
  rw [owner_setReader, same]
  exact Function.update_eq_self (some reader) state.owner

end Owner

section Initial

variable [LinearOrder K] [LinearOrder R]

theorem Inv.initial {clock : Nat} (positive : 0 < clock)
    (small : clock ≤ DTS_INF) : Inv (initial clock : State ρ K R) where
  owners := by
    have nobody : (Mvcc.initial clock : State ρ K R).owner = fun _ => none := by
      funext thread
      cases thread <;> rfl
    rw [nobody]
    exact .initial positive small
  store :=
    { newestFirst := List.Pairwise.nil
      stamped := by
        intro commit impossible
        cases impossible
      lastOld := positive
      last := Or.inl rfl
      phase := by
        refine ⟨?_, fun _ => rfl⟩
        intro commit impossible
        cases impossible
      objects := by
        intro i key mvcc impossible
        cases impossible }

end Initial

/-! ## Steps of the writer -/

section Writer

variable [LinearOrder K] [LinearOrder R]

/-- The transaction of the writer is active in the context. -/
theorem Inv.writer_bounds {state : State ρ K R} (inv : Inv state) {txnID : Nat}
    (running : state.writer.txn = some txnID) :
    0 < txnID ∧ txnID < state.group.sCtx.nextTxID ∧ txnID < DTS_INF :=
  inv.owners.bounds none running

/-- A step that changes the tables and the program point only. -/
private theorem tables_step [DecidableEq ρ] {state : State ρ K R}
    {sCtx : StateContext} {tables : TableID → MVCCTable K R}
    (writer : WriterPC K R) (same : writer.txn = state.writer.txn)
    (owners : Owners sCtx state.owner)
    (last : sCtx.lastCTS = state.group.sCtx.lastCTS)
    (active : sCtx.activeTx = state.group.sCtx.activeTx)
    (store : StoreInv tables writer state.history sCtx.lastCTS sCtx.nextTxID) :
    Inv { state with
        group := { sCtx := sCtx, regStates := tables }, writer := writer } ∧
      WriterFrame state { state with
        group := { sCtx := sCtx, regStates := tables }, writer := writer } := by
  have unchanged := owner_setWriter_same state
    { sCtx := sCtx, regStates := tables } writer state.history same
  refine ⟨⟨?_, store⟩, rfl, rfl, le_of_eq last.symm, Or.inl rfl, ?_⟩
  · rw [unchanged]
    exact owners
  · intro txnID entry found _
    exact (congrFun active txnID).trans found

private theorem newTx_step [DecidableEq ρ] {state : State ρ K R} (inv : Inv state)
    (idle : state.writer = .idle) {txnID : Nat} {sCtx : StateContext}
    (begun : beginTx state.group.sCtx = some (txnID, sCtx)) :
    Inv { state with
        group := state.group.setCtx sCtx, writer := .active txnID } ∧
      WriterFrame state { state with
        group := state.group.setCtx sCtx, writer := .active txnID } := by
  obtain ⟨owners, new, counter, last, active⟩ :=
    inv.owners.beginTx none begun
  refine ⟨⟨?_, ?_⟩, rfl, rfl, le_of_eq last.symm, Or.inl rfl, ?_⟩
  · rw [owner_setWriter state _ _ state.history]
    exact owners
  · have store := inv.store
    rw [idle] at store
    subst new
    simpa [counter, last] using store.newTx
  · intro other entry found _
    have known : other ≠ txnID := by
      rintro rfl
      have absent := inv.owners.wellFormed.activeTx_fresh (le_of_eq new.symm)
      rw [absent] at found
      cases found
    simpa [active, known] using found

/-- Casting a vote; the second one starts the commit. -/
private theorem preCommit_step [DecidableEq ρ] {state next : State ρ K R}
    (inv : Inv state) {txnID : Nat} {tblID : TableID}
    (running : state.writer = .active txnID)
    (stepped : preCommitStep state txnID tblID = some next) :
    Inv next ∧ WriterFrame state next := by
  have owned : state.owner none = some txnID := congrArg WriterPC.txn running
  have bounds := inv.owners.bounds none owned
  have store := inv.store
  rw [running] at store
  unfold preCommitStep at stepped
  obtain ⟨sCtx, set, continued⟩ := Option.bind_eq_some_iff.mp stepped
  obtain ⟨owners, counter, last, entry, found, active⟩ :=
    inv.owners.setWriteStatus none owned set
  have others : ∀ other entry,
      state.group.sCtx.activeTx other = some entry →
      state.writer.txn ≠ some other → sCtx.activeTx other = some entry := by
    intro other entry found different
    have known : other ≠ txnID := by
      rintro rfl
      exact different owned
    simpa [active, known] using found
  obtain ⟨otherState, vote, decided⟩ := Option.bind_eq_some_iff.mp continued
  by_cases both : otherState = .Commit
  · simp only [both, if_true, Option.pure_def, Option.some.injEq] at decided
    subst next
    refine ⟨⟨?_, ?_⟩, rfl, rfl, le_of_eq last.symm, Or.inr ?_, others⟩
    · unfold startCommit
      rw [owner_setWriter_same state _ (.install txnID _ _ _) _
        owned.symm]
      exact owners
    · have started := store.startCommit tblID bounds.1 bounds.2.1
      simpa [startCommit, counter, last] using started
    · refine ⟨_, rfl, ?_⟩
      exact store.phase.2.1
  · simp only [both, if_false, Option.pure_def, Option.some.injEq] at decided
    subst next
    refine ⟨⟨owners, ?_⟩, rfl, rfl, le_of_eq last.symm, Or.inl rfl,
      others⟩
    rw [← running] at store
    simpa [counter, last] using store

/-- One pass of the loop that waits for a slot. -/
private theorem wait_step [DecidableEq ρ] {state : State ρ K R} (inv : Inv state)
    {txnID : Nat} {tblID : TableID} {e : K × R} {dPos : Fin 2}
    {todo : List (K × R)} {last : Bool} {mvcc : MVCCTuple R}
    (waiting : state.writer = .wait txnID tblID e dPos todo last)
    (found : (state.group.regStates tblID).tbl.getByKey e.1 = some mvcc)
    {sCtx : StateContext} {updated : MVCCTuple R} {done : Bool}
    (pass : MVCCTable.slotStep txnID dPos e.2 state.group.sCtx mvcc =
      (sCtx, updated, done)) :
    let table := state.group.regStates tblID
    let next := { state with
      group := (state.group.setCtx sCtx).setTable tblID
        { table with tbl := table.tbl.update e.1 updated }
      writer := if done then .install txnID tblID todo last
        else .wait txnID tblID e dPos todo last }
    Inv next ∧ WriterFrame state next := by
  have running : state.writer.txn = some txnID := congrArg WriterPC.txn waiting
  have bounds := inv.writer_bounds running
  have store := inv.store
  rw [waiting] at store
  unfold MVCCTable.slotStep at pass
  cases free : mvcc.freeSlot with
  | some iPos =>
      simp only [free, Prod.mk.injEq] at pass
      obtain ⟨rfl, rfl, rfl⟩ := pass
      exact tables_step _ running.symm inv.owners rfl
        rfl (store.installVersion bounds.2.2 found free)
  | none =>
      simp only [free, Prod.mk.injEq] at pass
      obtain ⟨rfl, rfl, rfl⟩ := pass
      have bound := inv.owners.wellFormed.recalcOldestVisible_le
        inv.owners.snapshots txnID
      have old := inv.store.lastOld
      have counter := inv.owners.counter
      refine tables_step _ running.symm
        (inv.owners.recalcOldestVisible txnID)
        (recalcOldestVisible_lastCTS _ _) (recalcOldestVisible_activeTx _ _) ?_
      simpa using store.cleanUp (by omega) found

private theorem write_step [Inhabited R] [DecidableEq ρ] {state next : State ρ K R}
    (inv : Inv state) (stepped : writeStep state = some next) :
    Inv next ∧ WriterFrame state next := by
  have store := inv.store
  unfold writeStep at stepped
  cases pc : state.writer with
  | idle => simp [pc] at stepped
  | active txnID => simp [pc] at stepped
  | install txnID tblID todo last =>
      have running : state.writer.txn = some txnID := congrArg WriterPC.txn pc
      have bounds := inv.writer_bounds running
      rw [pc] at store
      cases todo with
      | nil =>
          cases last with
          | true =>
              simp only [pc, if_true, Option.some.injEq] at stepped
              subst next
              exact tables_step _ running.symm inv.owners
                rfl rfl store.finish
          | false =>
              simp only [pc, Bool.false_eq_true, if_false,
                Option.some.injEq] at stepped
              subst next
              refine tables_step (.install txnID (otherID tblID) _ true) running.symm
                inv.owners rfl rfl ?_
              simpa [otherID_ne] using store.nextTable
      | cons e todo =>
          cases found : (state.group.regStates tblID).tbl.getByKey e.1 with
          | none =>
              simp only [pc, found, Option.some.injEq] at stepped
              subst next
              exact tables_step _ running.symm inv.owners
                rfl rfl (store.installFirst bounds.2.2 found)
          | some mvcc =>
              simp only [pc, found] at stepped
              obtain ⟨dPos, current, ended⟩ := Option.bind_eq_some_iff.mp stepped
              cases ended
              exact tables_step _ running.symm inv.owners rfl rfl
                (store.startWait found current)
  | wait txnID tblID e dPos todo last =>
      simp only [pc] at stepped
      obtain ⟨mvcc, found, ended⟩ := Option.bind_eq_some_iff.mp stepped
      cases ended
      exact wait_step inv pc found rfl
  | publish txnID =>
      simp only [pc, Option.some.injEq] at stepped
      subst next
      rw [pc] at store
      have newer := store.phase.1.newer
      have running : state.writer.txn = some txnID := congrArg WriterPC.txn pc
      refine ⟨⟨?_, ?_⟩, rfl, rfl, Nat.le_of_lt newer, Or.inl rfl, ?_⟩
      · rw [owner_setWriter_same state _ (.removeTx txnID) state.history
          running.symm]
        exact inv.owners.setLastCTS (Nat.le_of_lt newer)
      · exact store.publish
      · intro other entry found _
        exact found
  | removeTx txnID =>
      simp only [pc] at stepped
      obtain ⟨sCtx, removed, ended⟩ := Option.bind_eq_some_iff.mp stepped
      cases ended
      have owned : state.owner none = some txnID :=
        congrArg WriterPC.txn pc
      obtain ⟨owners, counter, last, active⟩ :=
        inv.owners.removeTx none owned removed
      rw [pc] at store
      refine ⟨⟨?_, ?_⟩, rfl, rfl, le_of_eq last.symm, Or.inl rfl, ?_⟩
      · rw [owner_setWriter state _ _ state.history]
        exact owners
      · simpa [counter, last] using store.removeTx
      · intro other entry found different
        have known : other ≠ txnID := by
          rintro rfl
          exact different owned
        simpa [active, known] using found

end Writer

/-! ## Steps of the readers -/

section Readers

variable [DecidableEq ρ] [LinearOrder K] [LinearOrder R]

/-- A reader moves and keeps its transaction. -/
private theorem reader_moves {state : State ρ K R} (inv : Inv state) {reader : ρ}
    {value : Reader K R} {sCtx : StateContext}
    (published : List (FromTxTables.Publication K R))
    (same : value.txn = (state.readers reader).txn)
    (owners : Owners sCtx state.owner)
    (counter : sCtx.nextTxID = state.group.sCtx.nextTxID)
    (last : sCtx.lastCTS = state.group.sCtx.lastCTS)
    (active : ∀ txnID entry, state.group.sCtx.activeTx txnID = some entry →
      (state.readers reader).txn ≠ some txnID →
      sCtx.activeTx txnID = some entry) :
    let next := { state with
      group := state.group.setCtx sCtx, published := published }.setReader
        reader value
    Inv next ∧ ReaderFrame reader state next := by
  refine ⟨⟨?_, ?_⟩, rfl, rfl, rfl, last, ?_, active⟩
  · rw [owner_setReader_same { state with
      group := state.group.setCtx sCtx, published := published }
        reader value same]
    exact owners
  · simpa [State.setReader, counter, last] using inv.store
  · intro other different
    simp [State.setReader, different]

/-- A reader moves without touching the context. -/
private theorem reader_moves_only {state : State ρ K R} (inv : Inv state)
    {reader : ρ} {value : Reader K R}
    (same : value.txn = (state.readers reader).txn) :
    Inv (state.setReader reader value) ∧
      ReaderFrame reader state (state.setReader reader value) :=
  reader_moves inv state.published same inv.owners rfl rfl
    fun _ _ found _ => found

theorem fetchReadCTS_spec {Thread : Type} {sCtx next : StateContext}
    {owner : Thread → Option Nat} {txnID readCTS : Nat}
    (owners : Owners sCtx owner) (thread : Thread)
    (owned : owner thread = some txnID)
    (fetched : MVCCTable.fetchReadCTS sCtx txnID = some (readCTS, next)) :
    Owners next owner ∧ next.nextTxID = sCtx.nextTxID ∧
      next.lastCTS = sCtx.lastCTS ∧
      ∃ entry, sCtx.activeTx txnID = some entry ∧
        readCTS = (if entry.readCTS = 0 then sCtx.lastCTS else entry.readCTS) ∧
        next.activeTx = Function.update sCtx.activeTx txnID
          (some { entry with readCTS := readCTS }) := by
  obtain ⟨entry, active⟩ := owners.live thread txnID owned
  obtain ⟨fixed, replaces, counter⟩ :=
    MVCCTable.fetchReadCTS_replaces owners.wellFormed active fetched
  have bound : readCTS ≤ sCtx.lastCTS := by
    rw [fixed]
    split
    · exact le_refl _
    · exact owners.snapshots txnID entry active
  exact ⟨owners.replace replaces counter bound, counter,
    replaces.lastCTS, entry, active, fixed, replaces.activeTx⟩

private theorem start_step {state : State ρ K R} (inv : Inv state) {reader : ρ}
    {keys : List K} {txnID : Nat}
    {sCtx : StateContext}
    (begun : beginTx state.group.sCtx = some (txnID, sCtx)) :
    let next := { state with group := state.group.setCtx sCtx }.setReader reader
      { pc := .lookup .first
        query := { mTxnID := txnID, mKeys := keys, tpls := fun _ _ => none } }
    Inv next ∧ ReaderFrame reader state next := by
  obtain ⟨owners, new, counter, last, active⟩ :=
    inv.owners.beginTx (some reader) begun
  refine ⟨⟨?_, ?_⟩, rfl, rfl, rfl, last, ?_, ?_⟩
  · rw [owner_setReader]
    exact owners
  · have store := inv.store.counter_mono (Nat.le_succ _)
    simpa [State.setReader, counter, last] using store
  · intro other different
    simp [State.setReader, different]
  · intro other entry found _
    have known : other ≠ txnID := by
      rintro rfl
      have absent := inv.owners.wellFormed.activeTx_fresh (le_of_eq new.symm)
      rw [absent] at found
      cases found
    simpa [State.setReader, active, known] using found

private theorem lookup_step {state : State ρ K R} (inv : Inv state) {reader : ρ}
    {cursor : FromTxTables.Cursor} {query : FromTxTables.Query K R}
    (running : (state.readers reader).txn = some query.mTxnID) :
    Inv (lookupStep state reader query cursor) ∧
      ReaderFrame reader state (lookupStep state reader query cursor) := by
  unfold lookupStep
  split
  · exact reader_moves_only inv running.symm
  · dsimp only
    split
    · exact reader_moves_only inv running.symm
    · split
      · exact reader_moves_only inv running.symm
      · exact reader_moves_only inv running.symm

private theorem fetch_step {state next : State ρ K R} (inv : Inv state)
    {reader : ρ} {cursor : FromTxTables.Cursor}
    {query : FromTxTables.Query K R} {mvcc : MVCCTuple R}
    (running : (state.readers reader).txn = some query.mTxnID)
    (stepped : fetchStep state reader query cursor mvcc = some next) :
    Inv next ∧ ReaderFrame reader state next := by
  obtain ⟨readCTS, sCtx, fetched, either⟩ := fetchStep_cases stepped
  obtain ⟨owners, counter, last, entry, _, _, map⟩ :=
    fetchReadCTS_spec inv.owners (some reader) running fetched
  have others : ∀ txnID entry,
      state.group.sCtx.activeTx txnID = some entry →
      (state.readers reader).txn ≠ some txnID →
      sCtx.activeTx txnID = some entry := by
    intro txnID entry found different
    have known : txnID ≠ query.mTxnID := by
      rintro rfl
      exact different running
    simpa [map, known] using found
  rcases either with ⟨_, rfl⟩ | ⟨rec, _, rfl⟩
  · exact reader_moves inv state.published running.symm owners counter last others
  · exact reader_moves inv state.published running.symm owners counter last others

theorem read_step {state next : State ρ K R} (inv : Inv state) {reader : ρ}
    (stepped : readStep state reader = some next) :
    Inv next ∧ ReaderFrame reader state next := by
  unfold readStep at stepped
  cases pc : (state.readers reader).pc with
  | idle => simp [pc] at stepped
  | lookup cursor =>
      simp only [pc, Option.some.injEq] at stepped
      subst next
      exact lookup_step inv (by simp [Reader.txn, pc])
  | fetch cursor mvcc =>
      simp only [pc] at stepped
      exact fetch_step inv (by simp [Reader.txn, pc]) stepped
  | restart =>
      have running : (state.readers reader).txn =
          some (state.readers reader).query.mTxnID := by
        simp [Reader.txn, pc]
      simp only [pc] at stepped
      obtain ⟨sCtx, set, ended⟩ := Option.bind_eq_some_iff.mp stepped
      cases ended
      obtain ⟨owners, counter, last, entry, _, map⟩ :=
        inv.owners.setReadCTS (some reader) running
          (Nat.zero_le _) set
      refine reader_moves inv state.published running.symm
        owners counter last ?_
      intro txnID other found different
      have known : txnID ≠ (state.readers reader).query.mTxnID := by
        rintro rfl
        exact different running
      simpa [map, known] using found
  | publish =>
      have running : (state.readers reader).txn =
          some (state.readers reader).query.mTxnID := by
        simp [Reader.txn, pc]
      simp only [pc] at stepped
      obtain ⟨readCTS, read, ended⟩ := Option.bind_eq_some_iff.mp stepped
      cases ended
      exact reader_moves inv _ running.symm inv.owners rfl rfl
        fun _ _ found _ => found
  | removeTx =>
      have running : (state.readers reader).txn =
          some (state.readers reader).query.mTxnID := by
        simp [Reader.txn, pc]
      simp only [pc] at stepped
      obtain ⟨sCtx, removed, ended⟩ := Option.bind_eq_some_iff.mp stepped
      cases ended
      obtain ⟨owners, counter, last, map⟩ :=
        inv.owners.removeTx (some reader) running removed
      refine ⟨⟨?_, ?_⟩, rfl, rfl, rfl, last, ?_, ?_⟩
      · rw [owner_setReader]
        exact owners
      · simpa [State.setReader, counter, last] using inv.store
      · intro other different
        simp [State.setReader, different]
      · intro txnID other found different
        have known : txnID ≠ (state.readers reader).query.mTxnID := by
          rintro rfl
          exact different running
        simpa [State.setReader, map, known] using found

end Readers

/-! ## All steps -/

variable [DecidableEq ρ] [LinearOrder K] [LinearOrder R] [Inhabited R]

/-- Who takes the step of an action. -/
def Action.thread : Action ρ K R → Option ρ
  | .start reader _ => some reader
  | .read reader => some reader
  | _ => none

theorem step_inv {state next : State ρ K R} {action : Action ρ K R}
    (inv : Inv state) (stepped : step state action = some next) :
    Inv next ∧
      match action.thread with
      | none => WriterFrame state next
      | some reader => ReaderFrame reader state next := by
  unfold step at stepped
  cases action with
  | newTx =>
      cases pc : state.writer with
      | idle =>
          simp only [pc] at stepped
          obtain ⟨⟨txnID, sCtx⟩, begun, ended⟩ := Option.bind_eq_some_iff.mp stepped
          cases ended
          exact newTx_step inv pc begun
      | _ => simp [pc] at stepped
  | transactionBegin tblID =>
      cases pc : state.writer with
      | active txnID =>
          simp only [pc, Option.some.injEq] at stepped
          subst next
          have store := inv.store
          rw [pc] at store
          exact tables_step _ (congrArg WriterPC.txn pc).symm inv.owners rfl rfl
            (store.buffer (Or.inr rfl))
      | _ => simp [pc] at stepped
  | insert tblID key rec =>
      cases pc : state.writer with
      | active txnID =>
          simp only [pc, Option.some.injEq] at stepped
          subst next
          have store := inv.store
          rw [pc] at store
          exact tables_step _ (congrArg WriterPC.txn pc).symm inv.owners rfl rfl
            (store.buffer (store.phase.2.2 tblID))
      | _ => simp [pc] at stepped
  | transactionPreCommit tblID =>
      cases pc : state.writer with
      | active txnID =>
          simp only [pc] at stepped
          exact preCommit_step inv pc stepped
      | _ => simp [pc] at stepped
  | write => exact write_step inv stepped
  | start reader keys =>
      cases pc : (state.readers reader).pc with
      | idle =>
          simp only [pc] at stepped
          obtain ⟨⟨txnID, sCtx⟩, begun, ended⟩ := Option.bind_eq_some_iff.mp stepped
          cases ended
          exact start_step inv begun
      | _ => simp [pc] at stepped
  | read reader => exact read_step inv stepped

theorem Inv.of_execution {allowed : State ρ K R → Action ρ K R → Prop}
    {clock : Nat} {state : State ρ K R} (positive : 0 < clock)
    (small : clock ≤ DTS_INF)
    (execution : Execution step allowed (Mvcc.initial clock) state) :
    Inv state :=
  execution.invariant (.initial positive small)
    fun _ _ _ inv _ stepped => (step_inv inv stepped).1

/-! ## Stored objects -/

/-- What the version array of a key is promised to satisfy. -/
structure StoredSound (sCtx : StateContext) (mvcc : MVCCTuple R) : Prop where
  chain : mvcc.VersionChain
  /-- One version is open; it is the newest one, and a clean-up keeps it. -/
  newest : ∃ p, mvcc.IsOpen p ∧ (∀ q, mvcc.IsOpen q → q = p) ∧
    (∀ q, mvcc.IsLive q → q ≠ p → mvcc.cts q < mvcc.cts p) ∧
    ∀ txnID, let oldest := (sCtx.recalcOldestVisible txnID).1
      (mvcc.cleanUpVersions oldest).IsOpen p ∧
        (mvcc.cleanUpVersions oldest).headers p = mvcc.headers p ∧
        (mvcc.cleanUpVersions oldest).values p = mvcc.values p
  current : ∀ t p, mvcc.getCurrent t = some p ↔
    mvcc.IsLive p ∧ mvcc.cts p ≤ t ∧ t < mvcc.dts p
  unique : ∀ t p q, mvcc.IsLive p ∧ mvcc.cts p ≤ t ∧ t < mvcc.dts p →
    mvcc.IsLive q ∧ mvcc.cts q ≤ t ∧ t < mvcc.dts q → p = q
  absent : ∀ t, mvcc.getCurrent t = none ↔
    ∀ p, ¬ (mvcc.IsLive p ∧ mvcc.cts p ≤ t ∧ t < mvcc.dts p)

omit [DecidableEq ρ] [Inhabited R] in
/-- The bound of a clean-up is a commit timestamp, never infinity. -/
theorem Inv.recalcOldestVisible_lt {state : State ρ K R} (inv : Inv state)
    (txnID : Nat) :
    (state.group.sCtx.recalcOldestVisible txnID).1 < DTS_INF := by
  have bound := inv.owners.wellFormed.recalcOldestVisible_le
    inv.owners.snapshots txnID
  have old := inv.store.lastOld
  have counter := inv.owners.counter
  omega

omit [DecidableEq ρ] [Inhabited R] in
theorem Inv.storedSound {state : State ρ K R} (inv : Inv state) {i : TableID}
    {key : K} {mvcc : MVCCTuple R}
    (found : (state.group.regStates i).tbl.getByKey key = some mvcc) :
    StoredSound state.group.sCtx mvcc := by
  have chain := (inv.store.objects i key mvcc found).chain
  obtain ⟨p, isOpen⟩ := chain.opened
  refine
    { chain := chain
      newest := ⟨p, isOpen, ?_, ?_, ?_⟩
      current := fun t q => chain.getCurrent_iff
      unique := ?_
      absent := ?_ }
  · intro q other
    exact chain.open_unique other isOpen
  · intro q live different
    exact chain.cts_lt_open isOpen live different
  · intro txnID
    have finite := inv.recalcOldestVisible_lt txnID
    have stays := (MVCCObject.VersionChain.cleanUpVersions_isOpen finite p).mpr
      isOpen
    refine ⟨stays, ?_, by rw [MVCCObject.cleanUpVersions_values]⟩
    rw [MVCCObject.cleanUpVersions_headers, if_neg]
    rw [isOpen.2]
    exact Nat.not_le.mpr finite
  · intro t first second firstValid secondValid
    have left := chain.getCurrent_iff.mpr firstValid
    have right := chain.getCurrent_iff.mpr secondValid
    exact Option.some.inj (left.symm.trans right)
  · intro t
    rw [Option.eq_none_iff_forall_ne_some]
    exact forall_congr' fun q => not_congr chain.getCurrent_iff

/-- Whatever the writer, the readers and the clean-ups did before, the array
stored for a key is a version chain. -/
theorem stored_versionChain {clock : Nat} (positive : 0 < clock)
    (small : clock ≤ DTS_INF) {state : State ρ K R}
    (reachable : Reachable step (Mvcc.initial clock) state) {i : TableID}
    {key : K} {mvcc : MVCCTuple R}
    (found : (state.group.regStates i).tbl.getByKey key = some mvcc) :
    StoredSound state.group.sCtx mvcc :=
  (Inv.of_execution positive small reachable).storedSound found

/-- The writer begins, writes a record for the key to both tables, votes on
both and is given the steps to finish. -/
def commitBoth (key rec steps : Nat) : List (Action (Fin 1) Nat Nat) :=
  [.newTx, .transactionBegin 0, .insert 0 key rec, .transactionBegin 1,
    .insert 1 key rec, .transactionPreCommit 0, .transactionPreCommit 1] ++
    List.replicate steps .write

/-- Three commits of one key: a first version, a second one, and a third one
that waits for a clean-up. -/
theorem stored_versionChain_three_commits :
    ∃ (state : State (Fin 1) Nat Nat) (mvcc : MVCCTuple Nat),
      run step (Mvcc.initial 1)
        (commitBoth 7 10 6 ++ commitBoth 7 20 8 ++ commitBoth 7 30 10) =
          some state ∧
      (state.group.regStates 0).tbl.getByKey 7 = some mvcc ∧
      StoredSound state.group.sCtx mvcc := by
  have finished : ((run step (Mvcc.initial 1 : State (Fin 1) Nat Nat)
      (commitBoth 7 10 6 ++ commitBoth 7 20 8 ++ commitBoth 7 30 10)).bind
        fun state => (state.group.regStates 0).tbl.getByKey 7).isSome := by
    decide
  obtain ⟨mvcc, read⟩ := Option.isSome_iff_exists.mp finished
  obtain ⟨state, ran, found⟩ := Option.bind_eq_some_iff.mp read
  exact ⟨state, mvcc, ran, found, stored_versionChain (by decide) (by decide)
    (Execution.of_run ran) found⟩

end PipeFabric.Mvcc
