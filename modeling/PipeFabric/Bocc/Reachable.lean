import PipeFabric.Bocc.StoreSteps

/-!
# The invariant of the optimistic system

`Inv` joins the state context, the transactions of the threads and the store.
A step of the writer keeps it and shows itself to the readers only through
`WriterFrame`; a step of a reader touches nothing but its own entry in the
context and the counter, which is `ReaderFrame`.
-/

namespace PipeFabric.Bocc

open TransitionSystem StateContext FromTxTables

variable {ρ K R : Type}

def Reader.txn (reader : Reader K R) : Option Nat :=
  match reader.pc with
  | .idle => none
  | .newTx => none
  | _ => some reader.query.mTxnID

theorem Reader.txn_eq_some {reader : Reader K R} (notIdle : reader.pc ≠ .idle)
    (notNew : reader.pc ≠ .newTx) :
    reader.txn = some reader.query.mTxnID := by
  unfold Reader.txn
  split
  · contradiction
  · contradiction
  · rfl

theorem afterScan_running (tblID : TableID) (ok : Bool) :
    afterScan tblID ok ≠ .idle ∧ afterScan tblID ok ≠ .newTx := by
  unfold afterScan
  split
  · simp
  · split <;> simp

/-- The threads are the writer, `none`, and the readers. -/
def State.owner (state : State ρ K R) : Option ρ → Option Nat
  | none => state.writer.txn
  | some reader => (state.readers reader).txn

structure Inv [DecidableEq K] (state : State ρ K R) : Prop where
  owners : Owners state.group.sCtx state.owner
  store : StoreInv state.group.regStates state.writer state.history
    state.group.sCtx

/-- The transactions of the readers, as far as a writer step is concerned. -/
def State.live (state : State ρ K R) (txnID : Nat) : Prop :=
  (∃ entry, state.group.sCtx.activeTx txnID = some entry) ∧
    state.writer.txn ≠ some txnID

/-- What readers can notice of a step of the writer. -/
structure WriterFrame (state next : State ρ K R) : Prop where
  readers : next.readers = state.readers
  published : next.published = state.published
  history : state.history <:+ next.history
  tables : TablesFrame state.group.regStates state.writer next.group.regStates
    next.writer state.live
  owned : ∀ i, (next.group.regStates i).writeSet.txnID = 0 ∨
    next.writer.txn = some (next.group.regStates i).writeSet.txnID

/-- What a step of a reader leaves alone. -/
structure ReaderFrame (reader : ρ) (state next : State ρ K R) : Prop where
  tables : next.group.regStates = state.group.regStates
  writer : next.writer = state.writer
  history : next.history = state.history
  readers : ∀ other, other ≠ reader → next.readers other = state.readers other

section Owner

variable [DecidableEq ρ]

theorem owner_setWriter (state : State ρ K R) (group : TableGroup (Table K R))
    (writer : WriterPC K R) (history : List (Writes K R)) :
    ({ state with group := group, writer := writer, history := history } :
        State ρ K R).owner =
      Function.update state.owner none writer.txn := by
  funext thread
  cases thread <;> simp [State.owner]

theorem owner_setReader (state : State ρ K R) (reader : ρ) (value : Reader K R) :
    (state.setReader reader value).owner =
      Function.update state.owner (some reader) value.txn := by
  funext thread
  cases thread with
  | none => simp [State.owner, State.setReader]
  | some other =>
      by_cases here : other = reader
      · subst other
        simp [State.owner, State.setReader]
      · simp [State.owner, State.setReader, here]

end Owner

theorem Inv.initial [DecidableEq K] {clock : Nat} (positive : 0 < clock)
    (small : clock ≤ DTS_INF) : Inv (initial clock : State ρ K R) where
  owners := by
    have nobody : (Bocc.initial clock : State ρ K R).owner = fun _ => none := by
      funext thread
      cases thread <;> rfl
    rw [nobody]
    exact .initial positive small
  store :=
    { contents := fun _ => rfl
      todoSaved := by
        intro i e impossible
        cases impossible
      deques := by
        intro i
        refine ⟨List.Pairwise.nil, ?_, ?_⟩
        · intro ws impossible
          cases impossible
        · intro ws impossible
          cases impossible
      owned := fun _ => Or.inl rfl
      last := positive
      lastOld := by
        intro txnID impossible
        cases impossible
      pending := trivial }

/-! ## Steps of the writer -/

section Writer

variable [DecidableEq ρ] [DecidableEq K]

/-- A step of the writer that keeps its transaction. -/
private theorem writer_moves {state : State ρ K R} {sCtx : StateContext}
    {tables : TableID → Table K R} {history : List (Writes K R)}
    (writer : WriterPC K R) (same : writer.txn = state.writer.txn)
    (owners : Owners sCtx state.owner)
    (store : StoreInv tables writer history sCtx)
    (grows : state.history <:+ history)
    (frame : TablesFrame state.group.regStates state.writer tables writer
      state.live) :
    let next := { state with
      group := { sCtx := sCtx, regStates := tables }
      writer := writer
      history := history }
    Inv next ∧ WriterFrame state next := by
  refine ⟨⟨?_, store⟩, rfl, rfl, grows, frame, store.owned⟩
  rw [owner_setWriter, same]
  have unchanged : Function.update state.owner none state.writer.txn =
      state.owner := Function.update_eq_self none state.owner
  rw [unchanged]
  exact owners

omit [DecidableEq ρ] in
/-- The transactions of the readers were begun before. -/
private theorem live_lt {state : State ρ K R} (inv : Inv state) :
    ∀ id, state.live id → id < state.group.sCtx.nextTxID := by
  rintro id ⟨⟨entry, active⟩, _⟩
  exact (inv.owners.wellFormed.activeTx_txnID active).2.2

private theorem newTx_step {state : State ρ K R} (inv : Inv state)
    (idle : state.writer = .idle) {txnID : Nat} {sCtx : StateContext}
    (begun : beginTx state.group.sCtx = some (txnID, sCtx)) :
    let next := { state with
      group := state.group.setCtx sCtx, writer := .active txnID }
    Inv next ∧ WriterFrame state next := by
  obtain ⟨owners, new, counter, last, _⟩ :=
    inv.owners.beginTx none begun
  have store := inv.store
  rw [idle] at store
  have stored := store.newTx counter last
  rw [← new] at stored
  refine ⟨⟨?_, stored⟩, rfl, rfl, List.suffix_refl _, ?_, stored.owned⟩
  · rw [owner_setWriter state _ _ state.history]
    exact owners
  · rw [idle]
    exact .of_same (fun _ => rfl) (fun _ => rfl) fun _ _ => rfl

private theorem preCommit_step {state next : State ρ K R} (inv : Inv state)
    {txnID : Nat} {tblID : TableID} (running : state.writer = .active txnID)
    (stepped : preCommitStep state txnID tblID = some next) :
    Inv next ∧ WriterFrame state next := by
  have owned : state.writer.txn = some txnID := congrArg WriterPC.txn running
  have store := inv.store
  rw [running] at store
  unfold preCommitStep at stepped
  obtain ⟨sCtx, set, continued⟩ := Option.bind_eq_some_iff.mp stepped
  obtain ⟨owners, counter, last, entry, found, active⟩ :=
    inv.owners.setWriteStatus none owned set
  have voted : StoreInv state.group.regStates (.active txnID) state.history
      sCtx := by
    refine store.context ?_ (le_of_eq counter.symm) last ?_
    · rintro id ⟨⟩
      exact (inv.owners.bounds none owned).2.1
    · intro other otherEntry otherActive
      right
      by_cases same : other = txnID
      · subst other
        exact ⟨entry, found⟩
      · rw [active, Function.update_of_ne same] at otherActive
        exact ⟨otherEntry, otherActive⟩
  obtain ⟨otherState, vote, decided⟩ := Option.bind_eq_some_iff.mp continued
  by_cases both : otherState = .Commit
  · simp only [both, if_true, Option.pure_def, Option.some.injEq] at decided
    subst next
    refine writer_moves _ owned.symm owners voted.startSave
      (List.suffix_refl _) ?_
    rw [running]
    exact .of_same (fun _ => rfl) (fun _ => rfl) fun _ _ => rfl
  · simp only [both, if_false, Option.pure_def, Option.some.injEq] at decided
    subst next
    rw [← running] at voted
    refine writer_moves _ rfl owners voted (List.suffix_refl _) ?_
    exact .of_same (fun _ => rfl) (fun _ => rfl) fun _ _ => rfl

private theorem write_step {state next : State ρ K R} (inv : Inv state)
    (stepped : writeStep state = some next) :
    Inv next ∧ WriterFrame state next := by
  have store := inv.store
  have counter := inv.owners.counter
  unfold writeStep at stepped
  cases pc : state.writer with
  | idle => simp [pc] at stepped
  | active txnID => simp [pc] at stepped
  | fetchValTS txnID tblID last =>
      have running : state.writer.txn = some txnID := congrArg WriterPC.txn pc
      have bounds := inv.owners.bounds none running
      rw [pc] at store
      simp only [pc] at stepped
      obtain ⟨⟨valTS, sCtx⟩, fetched, ended⟩ := Option.bind_eq_some_iff.mp stepped
      cases ended
      obtain ⟨owners, rfl, ticks, lastCTS, active, _⟩ :=
        inv.owners.fetchTS fetched
      refine writer_moves _ running.symm owners
        (store.fetchValTS bounds.2.1 ticks lastCTS active)
        (List.suffix_refl _) ?_
      rw [pc]
      exact .of_same (fun _ => rfl) (fun _ => rfl) fun _ _ => rfl
  | push txnID tblID valTS last =>
      have running : state.writer.txn = some txnID := congrArg WriterPC.txn pc
      have bounds := inv.owners.bounds none running
      rw [pc] at store
      simp only [pc, Option.some.injEq] at stepped
      subst next
      cases last with
      | false =>
          obtain ⟨pushed, frame⟩ :=
            store.pushFirst state.live (Nat.le_of_lt bounds.2.2)
          refine writer_moves (.fetchValTS txnID (otherID tblID) true)
            running.symm inv.owners pushed (List.suffix_refl _) ?_
          rw [pc]
          exact frame
      | true =>
          obtain ⟨pushed, frame⟩ :=
            store.pushSecond state.live (Nat.le_of_lt bounds.2.2)
          refine writer_moves (.insert txnID (otherID tblID) _ false)
            running.symm inv.owners pushed (List.suffix_cons _ _) ?_
          rw [pc]
          exact frame
  | insert txnID tblID todo last =>
      have running : state.writer.txn = some txnID := congrArg WriterPC.txn pc
      rw [pc] at store
      cases todo with
      | nil =>
          simp only [pc, Option.some.injEq] at stepped
          subst next
          refine writer_moves _ running.symm inv.owners store.insertNil
            (List.suffix_refl _) ?_
          rw [pc]
          exact .of_same (fun _ => rfl) (fun _ => rfl) fun _ _ => rfl
      | cons e todo =>
          simp only [pc, Option.some.injEq] at stepped
          subst next
          obtain ⟨inserted, frame⟩ := store.insertCons state.live
          refine writer_moves _ running.symm inv.owners inserted
            (List.suffix_refl _) ?_
          rw [pc]
          exact frame
  | fetchEndTS txnID tblID last =>
      have running : state.writer.txn = some txnID := congrArg WriterPC.txn pc
      have bounds := inv.owners.bounds none running
      rw [pc] at store
      simp only [pc] at stepped
      obtain ⟨⟨endTS, sCtx⟩, fetched, ended⟩ := Option.bind_eq_some_iff.mp stepped
      cases ended
      obtain ⟨owners, rfl, ticks, lastCTS, active, _⟩ :=
        inv.owners.fetchTS fetched
      obtain ⟨ending, frame⟩ := store.fetchEndTS bounds.2.1 ticks lastCTS
        active (live_lt inv)
      refine writer_moves _ running.symm owners ending (List.suffix_refl _) ?_
      rw [pc]
      exact frame
  | storeEndTS txnID tblID endTS last =>
      have running : state.writer.txn = some txnID := congrArg WriterPC.txn pc
      rw [pc] at store
      simp only [pc, Option.some.injEq] at stepped
      subst next
      obtain ⟨ended, frame⟩ := store.storeEndTS state.live counter
      refine writer_moves (.getOldest txnID tblID last) running.symm
        inv.owners ended (List.suffix_refl _) ?_
      rw [pc]
      exact frame
  | getOldest txnID tblID last =>
      have running : state.writer.txn = some txnID := congrArg WriterPC.txn pc
      obtain ⟨entry, active⟩ := inv.owners.live none txnID running
      rw [pc] at store
      simp only [pc] at stepped
      obtain ⟨ws, front, ended⟩ := Option.bind_eq_some_iff.mp stepped
      cases ended
      refine writer_moves _ running.symm inv.owners
        (store.getOldest inv.owners.wellFormed active front)
        (List.suffix_refl _) ?_
      rw [pc]
      exact .of_same (fun _ => rfl) (fun _ => rfl) fun _ _ => rfl
  | erase txnID tblID oldestTx last =>
      have running : state.writer.txn = some txnID := congrArg WriterPC.txn pc
      rw [pc] at store
      cases last with
      | false =>
          simp only [pc, Bool.false_eq_true, if_false,
            Option.some.injEq] at stepped
          subst next
          obtain ⟨erased, frame⟩ :=
            store.eraseFirst state.live fun _ isLive => isLive.1
          refine writer_moves (.insert txnID (otherID tblID) _ true)
            running.symm inv.owners erased (List.suffix_refl _) ?_
          rw [pc]
          exact frame
      | true =>
          simp only [pc, if_true, Option.some.injEq] at stepped
          subst next
          obtain ⟨erased, frame⟩ :=
            store.eraseSecond state.live fun _ isLive => isLive.1
          refine writer_moves (.publish txnID) running.symm inv.owners
            erased (List.suffix_refl _) ?_
          rw [pc]
          exact frame
  | publish txnID =>
      have running : state.writer.txn = some txnID := congrArg WriterPC.txn pc
      have bounds := inv.owners.bounds none running
      rw [pc] at store
      simp only [pc, Option.some.injEq] at stepped
      subst next
      refine writer_moves (.removeTx txnID) running.symm
        (inv.owners.setLastCTS (store.lastOld txnID rfl))
        (store.publish bounds.2.1) (List.suffix_refl _) ?_
      rw [pc]
      exact .of_same (fun _ => rfl) (fun _ => rfl) fun _ _ => rfl
  | removeTx txnID =>
      have running : state.writer.txn = some txnID := congrArg WriterPC.txn pc
      have bounds := inv.owners.bounds none running
      simp only [pc] at stepped
      obtain ⟨sCtx, removed, ended⟩ := Option.bind_eq_some_iff.mp stepped
      cases ended
      obtain ⟨owners, ticks, lastCTS, _⟩ :=
        inv.owners.removeTx none running removed
      rw [pc] at store
      have left := store.removeTx bounds.2.1 ticks lastCTS
      refine ⟨⟨?_, left⟩, rfl, rfl, List.suffix_refl _, ?_, left.owned⟩
      · rw [owner_setWriter state _ _ state.history]
        exact owners
      · rw [pc]
        exact .of_same (fun _ => rfl) (fun _ => rfl) fun _ _ => rfl

end Writer

/-! ## Steps of the readers -/

section Readers

variable [DecidableEq ρ] [DecidableEq K]

omit [DecidableEq ρ] in
/-- The store does not depend on what readers do to the context. -/
private theorem store_of_reader {state : State ρ K R} (inv : Inv state)
    {sCtx : StateContext} {txnID : Nat} {changed : Option ActiveTx}
    (grows : state.group.sCtx.nextTxID ≤ sCtx.nextTxID)
    (last : sCtx.lastCTS = state.group.sCtx.lastCTS)
    (active : sCtx.activeTx =
      Function.update state.group.sCtx.activeTx txnID changed)
    (known : state.group.sCtx.nextTxID ≤ txnID ∨
      ∃ entry, state.group.sCtx.activeTx txnID = some entry) :
    StoreInv state.group.regStates state.writer state.history sCtx := by
  refine inv.store.context ?_ grows last ?_
  · intro id running
    exact (inv.owners.bounds none running).2.1
  · intro other entry found
    by_cases same : other = txnID
    · subst other
      exact known
    · rw [active, Function.update_of_ne same] at found
      exact Or.inr ⟨entry, found⟩

private theorem reader_moves {state : State ρ K R} {reader : ρ}
    {value : Reader K R} {sCtx : StateContext}
    (published : List (Query K R))
    (owners : Owners sCtx
      (Function.update state.owner (some reader) value.txn))
    (store : StoreInv state.group.regStates state.writer state.history sCtx) :
    let next := { state with
      group := state.group.setCtx sCtx, published := published }.setReader
        reader value
    Inv next ∧ ReaderFrame reader state next := by
  refine ⟨⟨?_, store⟩, rfl, rfl, rfl, ?_⟩
  · rw [owner_setReader { state with
      group := state.group.setCtx sCtx, published := published } reader value]
    exact owners
  · intro other different
    simp [State.setReader, different]

omit [DecidableEq K] in
private theorem owners_same {state : State ρ K R} {reader : ρ}
    {value : Reader K R} {sCtx : StateContext}
    (same : value.txn = (state.readers reader).txn)
    (owners : Owners sCtx state.owner) :
    Owners sCtx (Function.update state.owner (some reader) value.txn) := by
  have unchanged : Function.update state.owner (some reader)
      (state.readers reader).txn = state.owner :=
    Function.update_eq_self (some reader) state.owner
  rw [same, unchanged]
  exact owners

private theorem reader_moves_only {state : State ρ K R} (inv : Inv state)
    {reader : ρ} {value : Reader K R} (published : List (Query K R))
    (same : value.txn = (state.readers reader).txn) :
    let next := { state with published := published }.setReader reader value
    Inv next ∧ ReaderFrame reader state next :=
  reader_moves published (owners_same same inv.owners) inv.store

private theorem begin_step {state next : State ρ K R} (inv : Inv state)
    {reader : ρ} {query : Query K R}
    (stepped : beginStep state reader query = some next) :
    Inv next ∧ ReaderFrame reader state next := by
  unfold beginStep at stepped
  obtain ⟨⟨txnID, sCtx⟩, begun, ended⟩ := Option.bind_eq_some_iff.mp stepped
  cases ended
  obtain ⟨owners, new, counter, last, active⟩ :=
    inv.owners.beginTx (some reader) begun
  exact reader_moves state.published owners
    (store_of_reader inv (by omega) last active
      (Or.inl (le_of_eq new.symm)))

private theorem tick_step {state : State ρ K R} (inv : Inv state) {reader : ρ}
    {value : Reader K R} {ts : Nat} {sCtx : StateContext}
    (same : value.txn = (state.readers reader).txn)
    (fetched : fetchTS state.group.sCtx = some (ts, sCtx)) :
    let next := { state with group := state.group.setCtx sCtx }.setReader
      reader value
    Inv next ∧ ReaderFrame reader state next := by
  obtain ⟨owners, _, counter, last, active, _⟩ := inv.owners.fetchTS fetched
  refine reader_moves state.published (owners_same same owners)
    (inv.store.context ?_ (by omega) last ?_)
  · intro id running
    exact (inv.owners.bounds none running).2.1
  · intro other entry found
    rw [active] at found
    exact Or.inr ⟨entry, found⟩

private theorem leave_step {state : State ρ K R} (inv : Inv state) {reader : ρ}
    {value : Reader K R} {txnID : Nat} {sCtx : StateContext}
    (running : (state.readers reader).txn = some txnID)
    (left : value.txn = none)
    (removed : state.group.sCtx.removeTx txnID = some sCtx) :
    let next := { state with group := state.group.setCtx sCtx }.setReader
      reader value
    Inv next ∧ ReaderFrame reader state next := by
  obtain ⟨entry, found⟩ := inv.owners.live (some reader) txnID running
  obtain ⟨owners, counter, last, active⟩ :=
    inv.owners.removeTx (some reader) running removed
  rw [← left] at owners
  exact reader_moves state.published owners
    (store_of_reader inv (le_of_eq counter.symm) last active
      (Or.inr ⟨entry, found⟩))

theorem read_step {state next : State ρ K R} (inv : Inv state) {reader : ρ}
    (stepped : readStep state reader = some next) :
    Inv next ∧ ReaderFrame reader state next := by
  unfold readStep at stepped
  cases pc : (state.readers reader).pc with
  | idle => simp [pc] at stepped
  | lookup cursor =>
      have running : (state.readers reader).txn =
          some (state.readers reader).query.mTxnID := by
        simp [Reader.txn, pc]
      simp only [pc, Option.some.injEq] at stepped
      subst next
      unfold lookupStep
      dsimp only
      split
      · exact reader_moves_only inv state.published
          running.symm
      · split
        · exact reader_moves_only inv state.published
            running.symm
        · exact reader_moves_only inv state.published
            running.symm
  | restart =>
      have running : (state.readers reader).txn =
          some (state.readers reader).query.mTxnID := by
        simp [Reader.txn, pc]
      simp only [pc] at stepped
      obtain ⟨sCtx, set, ended⟩ := Option.bind_eq_some_iff.mp stepped
      cases ended
      obtain ⟨owners, counter, last, entry, found, active⟩ :=
        inv.owners.setReadCTS (some reader) running
          (Nat.zero_le _) set
      exact reader_moves state.published
        (owners_same (by rw [running]; rfl) owners)
        (store_of_reader inv (le_of_eq counter.symm) last active
          (Or.inr ⟨entry, found⟩))
  | firstTS tblID ok =>
      simp only [pc] at stepped
      obtain ⟨result, fetched, ended⟩ := Option.bind_eq_some_iff.mp stepped
      cases ended
      exact tick_step inv (by simp [Reader.txn, pc]) fetched
  | fetchValTS tblID ok =>
      simp only [pc] at stepped
      obtain ⟨result, fetched, ended⟩ := Option.bind_eq_some_iff.mp stepped
      cases ended
      exact tick_step inv (by simp [Reader.txn, pc]) fetched
  | scan tblID valTS ok =>
      simp only [pc, Option.some.injEq] at stepped
      subst next
      obtain ⟨notIdle, notNew⟩ := afterScan_running tblID
        (ok && (state.group.regStates tblID).validate
          (state.readers reader).query.mTxnID valTS
          (state.readers reader).query.mKeys == .SUCCESS)
      refine reader_moves_only inv state.published ?_
      rw [Reader.txn_eq_some notIdle notNew]
      simp [Reader.txn, pc]
  | publish =>
      simp only [pc, Option.some.injEq] at stepped
      subst next
      exact reader_moves_only inv _ (by simp [Reader.txn, pc])
  | abort =>
      simp only [pc] at stepped
      obtain ⟨sCtx, removed, ended⟩ := Option.bind_eq_some_iff.mp stepped
      cases ended
      exact leave_step inv (by simp [Reader.txn, pc]) rfl removed
  | newTx =>
      simp only [pc] at stepped
      exact begin_step inv stepped
  | removeTx =>
      simp only [pc] at stepped
      obtain ⟨sCtx, removed, ended⟩ := Option.bind_eq_some_iff.mp stepped
      cases ended
      exact leave_step inv (by simp [Reader.txn, pc]) rfl removed

end Readers

/-! ## All steps -/

variable [DecidableEq ρ] [DecidableEq K]

/-- Who takes the step of an action. -/
def Action.thread : Action ρ K R → Option ρ
  | .start reader _ => some reader
  | .read reader => some reader
  | _ => none

theorem step_inv {state next : State ρ K R} {action : Action ρ K R}
    (inv : Inv state) (stepped : step state action = some next) :
    Inv next ∧
      match action.thread with
      | none => WriterFrame state next
      | some reader => ReaderFrame reader state next := by
  unfold step at stepped
  cases action with
  | newTx =>
      cases pc : state.writer with
      | idle =>
          simp only [pc] at stepped
          obtain ⟨⟨txnID, sCtx⟩, begun, ended⟩ := Option.bind_eq_some_iff.mp stepped
          cases ended
          exact newTx_step inv pc begun
      | _ => simp [pc] at stepped
  | transactionBegin tblID =>
      cases pc : state.writer with
      | active txnID =>
          simp only [pc, Option.some.injEq] at stepped
          subst next
          have store := inv.store
          rw [pc] at store
          obtain ⟨buffered, frame⟩ := store.buffer tblID state.live
            { (state.group.regStates tblID).writeSet with txnID := txnID }
            (Or.inr rfl)
          rw [← pc] at frame
          refine writer_moves (.active txnID)
            (congrArg WriterPC.txn pc).symm inv.owners buffered
            (List.suffix_refl _) ?_
          rw [← pc]
          exact frame
      | _ => simp [pc] at stepped
  | insert tblID key rec =>
      cases pc : state.writer with
      | active txnID =>
          simp only [pc, Option.some.injEq] at stepped
          subst next
          have store := inv.store
          rw [pc] at store
          have owned : ((state.group.regStates tblID).writeSet.insert key
              rec).txnID = 0 ∨ ((state.group.regStates tblID).writeSet.insert
                key rec).txnID = txnID :=
            (store.owned tblID).imp_right fun same =>
              (Option.some.inj same).symm
          obtain ⟨buffered, frame⟩ := store.buffer tblID state.live _ owned
          rw [← pc] at frame
          refine writer_moves (.active txnID)
            (congrArg WriterPC.txn pc).symm inv.owners buffered
            (List.suffix_refl _) ?_
          rw [← pc]
          exact frame
      | _ => simp [pc] at stepped
  | transactionPreCommit tblID =>
      cases pc : state.writer with
      | active txnID =>
          simp only [pc] at stepped
          exact preCommit_step inv pc stepped
      | _ => simp [pc] at stepped
  | write => exact write_step inv stepped
  | start reader keys =>
      cases pc : (state.readers reader).pc with
      | idle =>
          simp only [pc] at stepped
          exact begin_step inv stepped
      | _ => simp [pc] at stepped
  | read reader => exact read_step inv stepped

end PipeFabric.Bocc
