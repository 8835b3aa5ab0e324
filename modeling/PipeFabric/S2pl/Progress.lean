import PipeFabric.S2pl.Locking

/-!
# What the locks achieve

A query publishes while it holds the locks of all its keys, so that it reads the last
committed state.  The exclusive flag keeps new queries away from a key, so that a writer
that waits for the queries on the key waits no longer than these take to end.
-/

namespace PipeFabric.S2pl

open FromTxTables TransitionSystem

variable {ρ K R : Type} [DecidableEq ρ] [DecidableEq K]
  {state next : State ρ K R} {action : Action ρ K R}

/-! ## What the steps leave alone -/

omit [DecidableEq ρ] in
theorem writeStep_history (stepped : writeStep state = some next) :
    next.history = state.history ∧ next.published = state.published := by
  unfold writeStep at stepped
  cases pc : state.writer with
  | idle => simp [pc] at stepped
  | active txnID => simp [pc] at stepped
  | wait txnID tblID key rec =>
      simp only [pc] at stepped
      split at stepped <;> cases stepped
      exact ⟨rfl, rfl⟩
  | insert txnID tblID key rec =>
      simp only [pc] at stepped
      cases stepped
      exact ⟨rfl, rfl⟩
  | unlock txnID tblID todo last =>
      cases todo with
      | cons key todo =>
          simp only [pc] at stepped
          cases stepped
          exact ⟨rfl, rfl⟩
      | nil =>
          simp only [pc] at stepped
          split at stepped <;> cases stepped <;> exact ⟨rfl, rfl⟩
  | publish txnID =>
      simp only [pc] at stepped
      cases stepped
      exact ⟨rfl, rfl⟩
  | removeTx txnID =>
      simp only [pc, Option.bind_eq_bind, Option.bind_eq_some_iff] at stepped
      obtain ⟨_, _, same⟩ := stepped
      cases same
      exact ⟨rfl, rfl⟩

/-- What the next step of a query publishes. -/
def Reader.answer (this : Reader K R) : Option (Query K R) :=
  match this.pc with
  | .publish => some this.query
  | _ => none

/-- What a step of a query leaves alone. -/
structure ReaderFrame (reader : ρ) (state next : State ρ K R) : Prop where
  writer : next.writer = state.writer
  history : next.history = state.history
  published : next.published = state.published ++ (state.readers reader).answer.toList
  readers : ∀ other, other ≠ reader → next.readers other = state.readers other

omit [DecidableEq K] in
theorem ReaderFrame.of_update {reader : ρ} (writer : next.writer = state.writer)
    (history : next.history = state.history)
    (published : next.published = state.published ++ (state.readers reader).answer.toList)
    {value : Reader K R}
    (readers : next.readers = Function.update state.readers reader value) :
    ReaderFrame reader state next := by
  refine ⟨writer, history, published, ?_⟩
  intro other different
  rw [readers]
  exact Function.update_of_ne different _ _

omit [DecidableEq K] in
theorem ReaderFrame.of_silent {reader : ρ} (silent : (state.readers reader).answer = none)
    (writer : next.writer = state.writer) (history : next.history = state.history)
    (published : next.published = state.published) {value : Reader K R}
    (readers : next.readers = Function.update state.readers reader value) :
    ReaderFrame reader state next := by
  apply ReaderFrame.of_update writer history ?_ readers
  rw [silent, published]
  exact (List.append_nil _).symm

theorem readStep_frame {reader : ρ} (stepped : readStep state reader = some next) :
    ReaderFrame reader state next := by
  unfold readStep at stepped
  cases pc : (state.readers reader).pc with
  | idle => simp [pc] at stepped
  | lockShared cursor =>
      have silent : (state.readers reader).answer = none := by rw [Reader.answer, pc]
      simp only [pc, lockSharedStep, Option.some.injEq] at stepped
      subst next
      split
      · exact .of_silent silent rfl rfl rfl rfl
      · split <;> exact .of_silent silent rfl rfl rfl rfl
  | get cursor key =>
      have silent : (state.readers reader).answer = none := by rw [Reader.answer, pc]
      simp only [pc] at stepped
      split at stepped <;> cases stepped <;> exact .of_silent silent rfl rfl rfl rfl
  | unlockShared cursor key =>
      have silent : (state.readers reader).answer = none := by rw [Reader.answer, pc]
      simp only [pc] at stepped
      cases stepped
      exact .of_silent silent rfl rfl rfl rfl
  | cleanUp again todo later =>
      have silent : (state.readers reader).answer = none := by rw [Reader.answer, pc]
      cases todo with
      | cons key todo =>
          simp only [pc] at stepped
          cases stepped
          exact .of_silent silent rfl rfl rfl rfl
      | nil =>
          cases later <;> simp only [pc] at stepped <;> cases stepped <;>
            exact .of_silent silent rfl rfl rfl rfl
  | restart =>
      have silent : (state.readers reader).answer = none := by rw [Reader.answer, pc]
      simp only [pc] at stepped
      obtain ⟨_, _, same⟩ := Option.bind_eq_some_iff.mp stepped
      cases same
      exact .of_silent silent rfl rfl rfl rfl
  | publish =>
      simp only [pc] at stepped
      cases stepped
      exact .of_update rfl rfl (by rw [Reader.answer, pc]; rfl) rfl
  | removeTx =>
      have silent : (state.readers reader).answer = none := by rw [Reader.answer, pc]
      simp only [pc] at stepped
      obtain ⟨_, _, same⟩ := Option.bind_eq_some_iff.mp stepped
      cases same
      exact .of_silent silent rfl rfl rfl rfl

/-! ## Queries take effect at once -/

/-- The calls of `start`: a query is answered when it is published. -/
def queries : Calls (State ρ K R) (Action ρ K R) ρ (Query K R) (List (Writes K R)) where
  begins _ action :=
    match action with
    | .start reader _ => some reader
    | _ => none
  answers state action :=
    match action with
    | .read reader => (state.readers reader).answer.map fun query => (reader, query)
    | _ => none
  past state := state.history

/-- Committed transactions stay committed, and a step publishes what it answers. -/
structure Grows (state : State ρ K R) (action : Action ρ K R) (next : State ρ K R) :
    Prop where
  history : state.history <:+ next.history
  published : next.published =
    state.published ++ (queries.answers state action).toList.map Prod.snd

omit [DecidableEq ρ] [DecidableEq K] in
theorem Grows.of_same (silent : queries.answers state action = none)
    (history : next.history = state.history) (published : next.published = state.published) :
    Grows state action next := by
  constructor
  · rw [history]
  · rw [silent, published]
    exact (List.append_nil _).symm

theorem step_grows (stepped : step state action = some next) : Grows state action next := by
  cases action with
  | newTx =>
      cases pc : state.writer with
      | idle =>
          simp only [step, pc] at stepped
          obtain ⟨_, _, same⟩ := Option.bind_eq_some_iff.mp stepped
          cases same
          exact .of_same rfl rfl rfl
      | _ => simp [step, pc] at stepped
  | transactionBegin tblID =>
      cases pc : state.writer with
      | active txnID =>
          simp only [step, pc, Option.some.injEq] at stepped
          subst next
          exact .of_same rfl rfl rfl
      | _ => simp [step, pc] at stepped
  | insert tblID key rec =>
      cases pc : state.writer with
      | active txnID =>
          simp only [step, pc, Option.some.injEq] at stepped
          subst next
          exact .of_same rfl rfl rfl
      | _ => simp [step, pc] at stepped
  | transactionPreCommit tblID =>
      cases pc : state.writer with
      | active txnID =>
          simp only [step, pc, preCommitStep, Option.bind_eq_bind,
            Option.bind_eq_some_iff] at stepped
          obtain ⟨_, _, _, _, decided⟩ := stepped
          split at decided <;> cases decided
          · exact ⟨List.suffix_cons _ _, (List.append_nil _).symm⟩
          · exact .of_same rfl rfl rfl
      | _ => simp [step, pc] at stepped
  | write =>
      obtain ⟨history, published⟩ := writeStep_history stepped
      exact .of_same rfl history published
  | start reader keys =>
      cases pc : (state.readers reader).pc with
      | idle =>
          simp only [step, pc] at stepped
          obtain ⟨_, _, same⟩ := Option.bind_eq_some_iff.mp stepped
          cases same
          exact .of_same rfl rfl rfl
      | _ => simp [step, pc] at stepped
  | read reader =>
      have frame := readStep_frame stepped
      constructor
      · rw [frame.history]
      · rw [frame.published]
        simp only [queries]
        cases (state.readers reader).answer <;> rfl

/-- The system with the histories at which the last calls began. -/
structure Called [Fintype ρ] (began : ρ → List (Writes K R)) (state : State ρ K R) :
    Prop where
  inv : Inv state
  past : ∀ reader, began reader <:+ state.history

theorem Called.step [Fintype ρ] {began : ρ → List (Writes K R)}
    (called : Called began state) (stepped : step state action = some next) :
    Called (queries.begun began state action) next := by
  have grows := (step_grows stepped).history
  refine ⟨step_inv called.inv stepped, ?_⟩
  intro reader
  cases action with
  | start other keys =>
      simp only [Calls.begun, queries, Function.update_apply]
      split
      · exact grows
      · exact (called.past reader).trans grows
  | _ => exact (called.past reader).trans grows

omit [DecidableEq ρ] in
/-- The records of an answered query are those of the last committed state. -/
theorem Called.answers [Fintype ρ] {began : ρ → List (Writes K R)}
    (called : Called began state) {reader : ρ} {query : Query K R}
    (answered : queries.answers state action = some (reader, query)) :
    began reader <:+ state.history ∧ query.ReadsAfter state.history := by
  cases action with
  | read other =>
      obtain ⟨_, answer, same⟩ := Option.map_eq_some_iff.mp answered
      cases same
      refine ⟨called.past _, ?_⟩
      unfold Reader.answer at answer
      split at answer
      next pc =>
        cases answer
        exact publish_readsAfter called.inv pc
      next => cases answer
  | _ => cases answered

/-- A bound for the steps until a query has given its locks back: it takes two steps for
each read and one for each lock that it gives back. -/
def Reader.bound (this : Reader K R) : Nat :=
  let n := this.query.mKeys.length
  match this.pc with
  | .lockShared cursor => 2 * (2 * n + 1 - (cursor.readsOf 0 + cursor.readsOf 1)) + 2 * n + 2
  | .get cursor _ => 2 * (2 * n + 1 - (cursor.readsOf 0 + cursor.readsOf 1)) + 2 * n + 1
  | .unlockShared _ _ => 2 * n + 1
  | .publish => 2 * n + 1
  | .cleanUp _ todo later => todo.length + later.length
  | .idle => 0
  | .restart => 0
  | .removeTx => 0

/-- The bound, for a query that holds a lock of the key. -/
def State.left (i : TableID) (key : K) (state : State ρ K R) (reader : ρ) : Nat :=
  if (state.readers reader).held i key = 0 then 0 else (state.readers reader).bound

/-- Whose step an action is, if it is a step of a running query. -/
def Action.reader : Action ρ K R → Option ρ
  | .read reader => some reader
  | _ => none

/-- The writer has set the flag of the key and waits for the queries on it. -/
structure Waiting [Fintype ρ] (txnID : Nat) (i : TableID) (key : K) (rec : R)
    (state : State ρ K R) : Prop where
  inv : Inv state
  pc : state.writer = .wait txnID i key rec

/-- What a step does to a query while the flag of a key is set: it gets no lock of the key,
and if it has one it comes closer to its end. -/
structure Advances (i : TableID) (key : K) (this after : Reader K R) : Prop where
  held : after.held i key ≤ this.held i key
  bound : this.held i key ≠ 0 → after.bound + 1 ≤ this.bound

theorem reads_eq (cursor : Cursor) :
    cursor.readsOf 0 + cursor.readsOf 1 = 2 * cursor.j + cursor.i := by
  obtain ⟨row, table⟩ := cursor
  rcases Fin.exists_fin_two.mp ⟨table, rfl⟩ with zero | one
  · subst zero
    simp only [Cursor.readsOf, gt_iff_lt, lt_irrefl, if_false, Fin.val_zero]
    rw [if_neg (Fin.not_lt_zero _)]
    omega
  · subst one
    simp only [Cursor.readsOf, gt_iff_lt, lt_irrefl, if_false, Fin.val_one, Fin.zero_lt_one,
      if_true]
    omega

theorem reads_next (cursor : Cursor) :
    cursor.next.readsOf 0 + cursor.next.readsOf 1 =
      cursor.readsOf 0 + cursor.readsOf 1 + 1 := by
  rw [Cursor.readsOf_next, Cursor.readsOf_next]
  rcases Fin.exists_fin_two.mp ⟨cursor.i, rfl⟩ with zero | one
  · rw [zero, if_pos rfl, if_neg one_ne_zero]
    omega
  · rw [one, if_neg zero_ne_one, if_pos rfl]
    omega

omit [DecidableEq K] in
/-- The locks to give back after a failed read. -/
theorem length_fail (this : Reader K R) (cursor : Cursor) :
    (this.fail cursor).bound ≤ 2 * this.query.mKeys.length := by
  have first := List.length_take_le' (cursor.readsOf 0) this.query.mKeys
  have second := List.length_take_le' (cursor.readsOf 1) this.query.mKeys
  simp only [Reader.fail, Reader.bound]
  omega

/-- A query that gives a lock back. -/
theorem Advances.unlock {i tblID : TableID} {key other : K} {this : Reader K R}
    {pc : ReaderPC K} (shorter : ({ this with pc := pc } : Reader K R).bound + 1 ≤ this.bound) :
    Advances i key this { this.count tblID other (-1) with pc := pc } := by
  constructor
  · rw [show ({ this.count tblID other (-1) with pc := pc } : Reader K R).held i key =
      (this.count tblID other (-1)).held i key from rfl, Reader.count_held]
    split <;> omega
  · intro _
    exact shorter

theorem readStep_advances [Fintype ρ] (inv : Inv state) {i : TableID} {key : K}
    (flag : ((state.group.regStates i).locks.locks key).active_writer = true) {reader : ρ}
    (stepped : readStep state reader = some next) :
    Advances i key (state.readers reader) (next.readers reader) := by
  have ok := inv.readers reader
  have here := ok.held i key
  unfold readStep at stepped
  generalize this_eq : state.readers reader = this at *
  cases pc : this.pc with
  | idle => simp [pc] at stepped
  | lockShared cursor =>
      simp only [pc, lockSharedStep, Option.some.injEq, this_eq] at stepped
      subst next
      cases position : this.query.mKeys[cursor.j]? with
      | none =>
          simp only [State.setReader, Function.update_self]
          refine ⟨le_refl _, ?_⟩
          intro _
          simp only [Reader.bound, pc]
          omega
      | some other =>
          dsimp only
          cases locked : (state.group.regStates cursor.i).locks.lockShared other with
          | none =>
              simp only [State.setReader, Function.update_self]
              refine ⟨le_refl _, ?_⟩
              intro _
              have bound := length_fail this cursor
              simp only [Reader.bound, pc] at bound ⊢
              omega
          | some locks =>
              simp only [State.setReader, Function.update_self]
              have unset := (S2PLLocks.lockShared_eq_some locked).1
              have different : ¬ (i = cursor.i ∧ key = other) := by
                rintro ⟨rfl, rfl⟩
                rw [flag] at unset
                cases unset
              constructor
              · exact le_of_eq ((Reader.count_held this cursor.i i other key 1).trans
                  (by rw [if_neg different, add_zero]))
              · intro _
                simp only [Reader.bound, pc, Reader.count_query]
                omega
  | get cursor other =>
      have atKey := ok.atKey
      rw [pc] at atKey
      obtain ⟨inside, _⟩ := List.getElem?_eq_some_iff.mp atKey
      have reads := reads_eq cursor
      have table := cursor.i.isLt
      simp only [pc] at stepped
      split at stepped
      · cases stepped
        simp only [State.setReader, Function.update_self]
        refine ⟨le_refl _, ?_⟩
        intro _
        simp only [Reader.bound, pc]
        omega
      · cases stepped
        simp only [State.setReader, Function.update_self]
        refine ⟨le_refl _, ?_⟩
        intro _
        have next := reads_next cursor
        simp only [Reader.bound, pc, Query.store] at *
        omega
  | unlockShared cursor other =>
      simp only [pc] at stepped
      cases stepped
      simp only [unlockSharedStep, State.setReader, Function.update_self, this_eq]
      apply Advances.unlock
      have bound := length_fail this cursor
      simp only [Reader.fail, Reader.bound, pc] at bound ⊢
      omega
  | cleanUp again todo later =>
      cases todo with
      | cons other todo =>
          simp only [pc] at stepped
          cases stepped
          simp only [unlockSharedStep, State.setReader, Function.update_self, this_eq]
          apply Advances.unlock
          simp only [Reader.bound, pc, List.length_cons]
          omega
      | nil =>
          cases later with
          | cons other later =>
              simp only [pc] at stepped
              cases stepped
              simp only [unlockSharedStep, State.setReader, Function.update_self, this_eq]
              apply Advances.unlock
              simp only [Reader.bound, pc, List.length_cons]
              omega
          | nil =>
              simp only [pc] at stepped
              cases stepped
              simp only [State.setReader, Function.update_self]
              refine ⟨le_refl _, ?_⟩
              intro holds
              rw [pc, ReaderPC.heldKeys, ite_self] at here
              exact absurd here holds
  | restart =>
      rw [pc] at here
      simp only [pc] at stepped
      obtain ⟨_, _, same⟩ := Option.bind_eq_some_iff.mp stepped
      cases same
      simp only [State.setReader, Function.update_self]
      exact ⟨le_refl _, fun holds => absurd here holds⟩
  | publish =>
      simp only [pc] at stepped
      cases stepped
      simp only [State.setReader, Function.update_self]
      refine ⟨le_refl _, ?_⟩
      intro _
      simp only [Reader.bound, pc]
      omega
  | removeTx =>
      rw [pc] at here
      simp only [pc] at stepped
      obtain ⟨_, _, same⟩ := Option.bind_eq_some_iff.mp stepped
      cases same
      simp only [State.setReader, Function.update_self]
      exact ⟨le_refl _, fun holds => absurd here holds⟩

section

variable [Fintype ρ] {txnID : Nat} {i : TableID} {key : K} {rec : R}

omit [DecidableEq ρ] in
theorem Waiting.flag (waiting : Waiting txnID i key rec state) :
    ((state.group.regStates i).locks.locks key).active_writer = true := by
  apply waiting.inv.wants
  rw [waiting.pc]
  exact ⟨rfl, rfl⟩

/-- While the writer waits, only the queries move. -/
theorem Waiting.step (waiting : Waiting txnID i key rec state) (others : action ≠ .write)
    (stepped : step state action = some next) :
    Waiting txnID i key rec next ∧ ∀ reader, State.left i key next reader ≤
      State.left i key state reader - if action.reader = some reader then 1 else 0 := by
  have inv := step_inv waiting.inv stepped
  cases action with
  | write => exact absurd rfl others
  | start other keys =>
      cases pc : (state.readers other).pc with
      | idle =>
          simp only [S2pl.step, pc] at stepped
          obtain ⟨_, _, same⟩ := Option.bind_eq_some_iff.mp stepped
          cases same
          refine ⟨⟨inv, waiting.pc⟩, ?_⟩
          intro reader
          have nothing : (state.readers other).held i key = 0 := by
            rw [(waiting.inv.readers other).held, pc]
            rfl
          simp only [Action.reader, reduceCtorEq, if_false, Nat.sub_zero]
          by_cases here : reader = other
          · subst here
            simp [State.left, State.setReader, nothing]
          · simp [State.left, State.setReader, here]
      | _ => simp [S2pl.step, pc] at stepped
  | read other =>
      have frame := readStep_frame stepped
      have advances := readStep_advances waiting.inv waiting.flag stepped
      refine ⟨⟨inv, frame.writer.trans waiting.pc⟩, ?_⟩
      intro reader
      have before := waiting.inv.held_nonneg reader i key
      have after := inv.held_nonneg reader i key
      simp only [State.left, Action.reader, Option.some.injEq]
      by_cases here : other = reader
      · subst here
        have held := advances.held
        have bound := advances.bound
        rw [if_pos rfl]
        split <;> split <;> omega
      · rw [frame.readers reader (Ne.symm here), if_neg here]
        exact Nat.le_refl _
  | _ => simp [S2pl.step, waiting.pc] at stepped

omit [DecidableEq ρ] [Fintype ρ] in
/-- A query that holds a lock has steps to take. -/
theorem ReaderOk.bound_pos {tables : TableID → Table K R} {this : Reader K R}
    (ok : ReaderOk tables this) (holds : this.held i key ≠ 0) : 0 < this.bound := by
  rw [ok.held] at holds
  simp only [Reader.bound]
  cases pc : this.pc with
  | cleanUp again todo later =>
      rw [pc] at holds
      rcases Fin.exists_fin_two.mp ⟨i, rfl⟩ with zero | one
      · cases todo with
        | nil => exact absurd (by rw [zero]; rfl) holds
        | cons other todo => simp
      · cases later with
        | nil => exact absurd (by rw [one]; rfl) holds
        | cons other later => simp
  | idle => exact absurd (by rw [pc]; rfl) holds
  | restart => exact absurd (by rw [pc]; rfl) holds
  | removeTx => exact absurd (by rw [pc]; rfl) holds
  | _ =>
      dsimp only
      omega

omit [Fintype ρ] in
/-- Its next step does not fail. -/
theorem ReaderOk.enabled {reader : ρ} {tables : TableID → Table K R}
    (ok : ReaderOk tables (state.readers reader))
    (holds : (state.readers reader).held i key ≠ 0) :
    (S2pl.step state (.read reader : Action ρ K R)).isSome := by
  rw [ok.held] at holds
  simp only [S2pl.step, readStep]
  cases pc : (state.readers reader).pc with
  | idle => exact absurd (by rw [pc]; rfl) holds
  | restart => exact absurd (by rw [pc]; rfl) holds
  | removeTx => exact absurd (by rw [pc]; rfl) holds
  | get cursor other =>
      dsimp only
      split <;> rfl
  | cleanUp again todo later =>
      cases todo with
      | nil => cases later <;> rfl
      | cons other todo => rfl
  | _ => rfl

/-- Once nobody holds a lock of the key, the writer has got it. -/
theorem Waiting.granted (waiting : Waiting txnID i key rec state)
    (released : ∀ reader, State.left i key state reader = 0) :
    (S2pl.step state (.write : Action ρ K R)).isSome := by
  have free : ∀ reader, (state.readers reader).held i key = 0 := by
    intro reader
    by_contra holds
    have bound := released reader
    rw [State.left, if_neg holds] at bound
    have positive := (waiting.inv.readers reader).bound_pos holds
    omega
  have readers : ((state.group.regStates i).locks.locks key).active_readers = 0 := by
    rw [waiting.inv.counts]
    exact Finset.sum_eq_zero fun reader _ => free reader
  simp [S2pl.step, writeStep, waiting.pc, S2PLLocks.noReaders, readers]

end

/-- What the writer waits for. -/
def WriterPC.awaited : WriterPC K R → Option (Nat × TableID × K × R)
  | .wait txnID tblID key rec => some (txnID, tblID, key, rec)
  | _ => none

omit [DecidableEq K] in
theorem WriterPC.eq_wait {writer : WriterPC K R} {txnID : Nat} {i : TableID} {key : K} {rec : R}
    (awaited : writer.awaited = some (txnID, i, key, rec)) :
    writer = .wait txnID i key rec := by
  cases writer with
  | wait => cases awaited; rfl
  | _ => cases awaited

/-- The writer waits for a key that a query has read in one of the tables. -/
def heldKey : List (Action (Fin 1) Nat Nat) :=
  commitBoth 7 10 ++ [.start 0 [7], .read 0, .read 0] ++ [.newTx, .insert 0 7 20]

end PipeFabric.S2pl
