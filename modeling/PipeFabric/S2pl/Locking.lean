import PipeFabric.S2pl.WriterSteps

/-!
# Two-phase locking

Every step keeps the invariant.  A query publishes while it holds the locks of
all its keys, and the writer changes a key only while it holds the exclusive
lock, so the published records are the ones of the last committed state.
-/

namespace PipeFabric.S2pl

open FromTxTables TransitionSystem

variable {ρ K R : Type} [DecidableEq ρ] [DecidableEq K] [Fintype ρ]
  {state : State ρ K R}

theorem step_inv {next : State ρ K R} {action : Action ρ K R} (inv : Inv state)
    (stepped : step state action = some next) : Inv next := by
  cases action with
  | newTx =>
      cases pc : state.writer with
      | idle =>
          simp only [step, pc, Option.bind_eq_bind,
            Option.bind_eq_some_iff] at stepped
          obtain ⟨⟨txnID, sCtx⟩, _, same⟩ := stepped
          cases same
          apply inv.move_writer_only
          · intro i
            rw [pc]
            rfl
          · intro i key wanted
            cases wanted
          · intro unlocking
            cases unlocking
      | _ => simp [step, pc] at stepped
  | transactionBegin tblID =>
      cases pc : state.writer with
      | active txnID =>
          simp only [step, pc, Option.some.injEq] at stepped
          subst next
          have unchanged : state.setTable tblID
              ((state.group.regStates tblID).transactionBegin txnID) = state := by
            simp [State.setTable, S2PLTable.transactionBegin,
              TableGroup.setTable]
          rw [unchanged]
          exact inv
      | _ => simp [step, pc] at stepped
  | insert tblID key rec =>
      cases pc : state.writer with
      | active txnID =>
          simp only [step, pc, Option.some.injEq] at stepped
          subst next
          exact lock_inv inv pc
      | _ => simp [step, pc] at stepped
  | transactionPreCommit tblID =>
      cases pc : state.writer with
      | active txnID =>
          simp only [step, pc] at stepped
          exact preCommit_inv inv pc stepped
      | _ => simp [step, pc] at stepped
  | write => exact write_inv inv stepped
  | start reader keys => exact start_inv inv stepped
  | read reader => exact read_inv inv stepped

/-! ## What every reachable state satisfies -/

omit [Fintype ρ] in
/-- A query leaves the storage as it is. -/
theorem read_tbl {next : State ρ K R} {reader : ρ}
    (stepped : readStep state reader = some next) (i : TableID) :
    (next.group.regStates i).tbl = (state.group.regStates i).tbl := by
  unfold readStep at stepped
  cases pc : (state.readers reader).pc with
  | idle => simp [pc] at stepped
  | lockShared cursor =>
      simp only [pc, lockSharedStep, Option.some.injEq] at stepped
      subst next
      split
      · rfl
      · split
        · rfl
        · exact state.setLocks_tbl _ _ _
  | get cursor key =>
      simp only [pc] at stepped
      split at stepped <;> cases stepped <;> rfl
  | unlockShared cursor key =>
      simp only [pc, Option.some.injEq] at stepped
      subst next
      exact state.setLocks_tbl _ _ _
  | cleanUp again todo later =>
      cases todo with
      | cons key todo =>
          simp only [pc, Option.some.injEq] at stepped
          subst next
          exact state.setLocks_tbl _ _ _
      | nil =>
          cases later with
          | cons key later =>
              simp only [pc, Option.some.injEq] at stepped
              subst next
              exact state.setLocks_tbl _ _ _
          | nil =>
              simp only [pc, Option.some.injEq] at stepped
              subst next
              rfl
  | restart =>
      simp only [pc, Option.bind_eq_bind, Option.bind_eq_some_iff] at stepped
      obtain ⟨_, _, same⟩ := stepped
      cases same
      rfl
  | publish =>
      simp only [pc, Option.some.injEq] at stepped
      subst next
      rfl
  | removeTx =>
      simp only [pc, Option.bind_eq_bind, Option.bind_eq_some_iff] at stepped
      obtain ⟨_, _, same⟩ := stepped
      cases same
      rfl

omit [DecidableEq ρ] [Fintype ρ] in
/-- The writer changes a record in its insert only. -/
theorem write_tbl {next : State ρ K R} (stepped : writeStep state = some next)
    (i : TableID) (key : K) :
    (∃ txnID rec, state.writer = .insert txnID i key rec) ∨
      (next.group.regStates i).tbl.getByKey key =
        (state.group.regStates i).tbl.getByKey key := by
  unfold writeStep at stepped
  cases pc : state.writer with
  | idle => simp [pc] at stepped
  | active txnID => simp [pc] at stepped
  | wait txnID tblID other rec =>
      simp only [pc] at stepped
      split at stepped <;> cases stepped
      right
      exact congrArg (OverwritingTable.getByKey · key)
        (state.setTable_tbl (by rfl) i)
  | insert txnID tblID other rec =>
      simp only [pc, Option.some.injEq] at stepped
      subst next
      by_cases here : i = tblID ∧ key = other
      · left
        obtain ⟨rfl, rfl⟩ := here
        exact ⟨txnID, rec, rfl⟩
      · right
        by_cases table : i = tblID
        · subst table
          have different : key ≠ other := fun same => here ⟨rfl, same⟩
          simp [State.setTable, different]
        · simp [State.setTable, table]
  | unlock txnID tblID todo last =>
      right
      cases todo with
      | cons other todo =>
          simp only [pc, Option.some.injEq] at stepped
          subst next
          exact congrArg (OverwritingTable.getByKey · key)
            (state.setLocks_tbl _ _ _)
      | nil =>
          simp only [pc] at stepped
          split at stepped <;> cases stepped <;>
            exact congrArg (OverwritingTable.getByKey · key)
              (state.setTable_tbl (by rfl) i)
  | publish txnID =>
      right
      simp only [pc, Option.some.injEq] at stepped
      subst next
      rfl
  | removeTx txnID =>
      right
      simp only [pc, Option.bind_eq_bind, Option.bind_eq_some_iff] at stepped
      obtain ⟨_, _, same⟩ := stepped
      cases same
      rfl

/-- What the locks promise in one state. -/
structure LockProtocol (state : State ρ K R) : Prop where
  /-- The counter is the number of shared locks taken and not given back. -/
  counted : ∀ i key,
    ((state.group.regStates i).locks.locks key).active_readers =
      ∑ reader, (state.readers reader).held i key
  /-- Which locks these are can be told from the program point. -/
  held : ∀ reader i key, (state.readers reader).held i key =
    ((state.readers reader).pc.heldKeys (state.readers reader).query.mKeys
      i).count key
  nonneg : ∀ i key,
    0 ≤ ((state.group.regStates i).locks.locks key).active_readers
  exclusive : ∀ txnID i key rec, state.writer = .insert txnID i key rec →
    ((state.group.regStates i).locks.locks key).active_writer = true ∧
      ∀ reader, (state.readers reader).held i key = 0
  modified : ∀ action next, step state action = some next → ∀ i key,
    (next.group.regStates i).tbl.getByKey key ≠
      (state.group.regStates i).tbl.getByKey key →
    ((state.group.regStates i).locks.locks key).active_writer = true ∧
      ∀ reader, (state.readers reader).held i key = 0
  /-- A query that ended or starts over holds nothing. -/
  readerReleased : ∀ reader,
    ((state.readers reader).pc = .idle ∨ (state.readers reader).pc = .removeTx ∨
      (state.readers reader).pc = .restart ∨
      (state.readers reader).pc = .lockShared .first) →
    ∀ i key, (state.readers reader).held i key = 0
  /-- So does a transaction that ended. -/
  writerReleased : (state.writer = .idle ∨ (∃ txnID, state.writer =
      .publish txnID) ∨ ∃ txnID, state.writer = .removeTx txnID) →
    ∀ i key,
      ((state.group.regStates i).locks.locks key).active_writer = false
  serial : ∀ query ∈ state.published, Serial state.history query

omit [Fintype ρ] in
theorem changed_by_insert {next : State ρ K R} {action : Action ρ K R}
    (stepped : step state action = some next) {i : TableID} {key : K}
    (changed : (next.group.regStates i).tbl.getByKey key ≠
      (state.group.regStates i).tbl.getByKey key) :
    ∃ txnID rec, state.writer = .insert txnID i key rec := by
  cases action with
  | newTx =>
      cases pc : state.writer with
      | idle =>
          simp only [step, pc, Option.bind_eq_bind,
            Option.bind_eq_some_iff] at stepped
          obtain ⟨_, _, same⟩ := stepped
          cases same
          exact absurd rfl changed
      | _ => simp [step, pc] at stepped
  | transactionBegin tblID =>
      cases pc : state.writer with
      | active txnID =>
          simp only [step, pc, Option.some.injEq] at stepped
          subst next
          apply absurd _ changed
          exact congrArg (OverwritingTable.getByKey · key)
            (state.setTable_tbl (by rfl) i)
      | _ => simp [step, pc] at stepped
  | insert tblID other rec =>
      cases pc : state.writer with
      | active txnID =>
          simp only [step, pc, Option.some.injEq] at stepped
          subst next
          apply absurd _ changed
          exact congrArg (OverwritingTable.getByKey · key)
            (state.setLocks_tbl _ _ _)
      | _ => simp [step, pc] at stepped
  | transactionPreCommit tblID =>
      cases pc : state.writer with
      | active txnID =>
          simp only [step, pc, preCommitStep, Option.bind_eq_bind,
            Option.bind_eq_some_iff] at stepped
          obtain ⟨_, _, _, _, decided⟩ := stepped
          split at decided <;> cases decided <;> exact absurd rfl changed
      | _ => simp [step, pc] at stepped
  | write => exact (write_tbl stepped i key).resolve_right changed
  | start reader keys =>
      cases pc : (state.readers reader).pc with
      | idle =>
          simp only [step, pc, Option.bind_eq_bind,
            Option.bind_eq_some_iff] at stepped
          obtain ⟨_, _, same⟩ := stepped
          cases same
          exact absurd rfl changed
      | _ => simp [step, pc] at stepped
  | read reader =>
      apply absurd _ changed
      rw [read_tbl stepped]

omit [DecidableEq ρ] in
theorem Inv.exclusive_insert (inv : Inv state) {txnID : Nat} {i : TableID}
    {key : K} {rec : R} (pc : state.writer = .insert txnID i key rec) :
    ((state.group.regStates i).locks.locks key).active_writer = true ∧
      ∀ reader, (state.readers reader).held i key = 0 := by
  constructor
  · apply inv.wants
    rw [pc]
    exact ⟨rfl, rfl⟩
  · apply inv.held_eq_zero
    apply inv.granted
    rw [pc]
    exact ⟨rfl, rfl⟩

/-- The writer commits a record for the key to both tables. -/
def commitBoth (key rec : Nat) : List (Action (Fin 1) Nat Nat) :=
  [.newTx, .insert 0 key rec, .write, .write, .insert 1 key rec, .write, .write,
    .transactionPreCommit 0, .transactionPreCommit 1] ++
    List.replicate 6 .write

/-- The writer locks a key between two reads of the key by one query; the query
gives its locks back and reads the new record in its second attempt. -/
def restartedQuery : List (Action (Fin 1) Nat Nat) :=
  commitBoth 7 10 ++ [.start 0 [7, 7]] ++ List.replicate 4 (.read 0) ++
    [.newTx, .insert 0 7 20] ++ List.replicate 5 (.read 0) ++
    [.write, .write, .insert 1 7 20, .write, .write,
      .transactionPreCommit 0, .transactionPreCommit 1] ++
    List.replicate 6 .write ++ List.replicate 14 (.read 0)

end PipeFabric.S2pl
