import PipeFabric.S2pl.Invariant

/-!
# The steps of the queries

A query takes and gives back shared locks and copies records.  The storage and
the exclusive flags stay as they are.
-/

namespace PipeFabric.S2pl

open FromTxTables

variable {ρ K R : Type} [DecidableEq ρ] [DecidableEq K] [Fintype ρ]
  {state : State ρ K R}

omit [DecidableEq ρ] [Fintype ρ] in
/-- A query does not notice a change of records it has not read. -/
theorem ReaderOk.frame {tables changed : TableID → Table K R}
    {this : Reader K R} (ok : ReaderOk tables this)
    (same : ∀ i j key, this.query.mKeys[j]? = some key → this.pc.Read i j →
      (changed i).tbl.getByKey key = (tables i).tbl.getByKey key) :
    ReaderOk changed this := by
  constructor
  · exact ok.held
  · exact ok.atKey
  · intro i j key position read
    rw [same i j key position read]
    exact ok.values i j key position read

/-- A query moves; the storage and the exclusive flags stay.  A key with the
flag set gets no new reader. -/
theorem Inv.move_reader (inv : Inv state) {reader : ρ} {value : Reader K R}
    {sCtx : StateContext} {tables : TableID → Table K R}
    {published : List (Query K R)}
    (same : ∀ i, (tables i).tbl = (state.group.regStates i).tbl ∧
      (tables i).wKeysLocked = (state.group.regStates i).wKeysLocked)
    (flags : ∀ i key, ((tables i).locks.locks key).active_writer =
      ((state.group.regStates i).locks.locks key).active_writer)
    (counts : ∀ i key, ((tables i).locks.locks key).active_readers =
      ((state.group.regStates i).locks.locks key).active_readers +
        (value.held i key - (state.readers reader).held i key))
    (quiet : ∀ i key,
      ((state.group.regStates i).locks.locks key).active_writer = true →
        value.held i key ≤ (state.readers reader).held i key)
    (ok : ReaderOk state.group.regStates value)
    (serial : ∀ query ∈ published, Serial state.history query) :
    Inv ({ state with
      group := { sCtx := sCtx, regStates := tables }
      published := published }.setReader reader value) := by
  have total : ∀ i key, ((tables i).locks.locks key).active_readers =
      ∑ other, (Function.update state.readers reader value other).held i key := by
    intro i key
    rw [counts, sum_held_update, inv.counts]
  have oks : ∀ other, ReaderOk tables
      (Function.update state.readers reader value other) := by
    intro other
    apply ReaderOk.frame
    · by_cases moved : other = reader
      · subst moved
        rw [Function.update_self]
        exact ok
      · rw [Function.update_of_ne moved]
        exact inv.readers other
    · intro i j key _ _
      rw [(same i).1]
  -- A counter that is zero under the flag cannot grow, and never gets negative.
  have free : ∀ i key,
      ((state.group.regStates i).locks.locks key).active_writer = true →
      ((state.group.regStates i).locks.locks key).active_readers = 0 →
      ((tables i).locks.locks key).active_readers = 0 := by
    intro i key flag none
    have nonneg : 0 ≤ ((tables i).locks.locks key).active_readers := by
      rw [total]
      apply Finset.sum_nonneg
      intro other _
      rw [(oks other).held]
      exact Int.natCast_nonneg _
    have step := counts i key
    have bound := quiet i key flag
    omega
  constructor
  · exact total
  · exact oks
  · intro i key flag
    have member := inv.flagged i key ((flags i key).symm.trans flag)
    have lists : ∀ writer : WriterPC K R,
        writer.locked tables i = writer.locked state.group.regStates i := by
      intro writer
      cases writer <;> simp [WriterPC.locked, (same i).2]
    rw [State.setReader, lists]
    exact member
  · intro i key wanted
    exact (flags i key).trans (inv.wants i key wanted)
  · intro i key granted
    apply free i key _ (inv.granted i key granted)
    exact inv.wants i key (WriterPC.Granted.wants granted)
  · intro i key member
    obtain ⟨flag, none⟩ := inv.exclusive i key member
    constructor
    · exact (flags i key).trans flag
    · exact free i key flag none
  · exact inv.committed
  · intro i
    exact (congrArg OverwritingTable.getByKey (same i).1).trans (inv.contents i)
  · exact serial

/-- A query moves and keeps its locks. -/
theorem Inv.move_reader_only (inv : Inv state) {reader : ρ}
    {value : Reader K R} {sCtx : StateContext} {published : List (Query K R)}
    (held : value.held = (state.readers reader).held)
    (ok : ReaderOk state.group.regStates value)
    (serial : ∀ query ∈ published, Serial state.history query) :
    Inv ({ state with
      group := state.group.setCtx sCtx
      published := published }.setReader reader value) := by
  apply inv.move_reader
  · intro i
    exact ⟨rfl, rfl⟩
  · intro i key
    rfl
  · intro i key
    rw [held, Int.sub_self, Int.add_zero]
  · intro i key _
    rw [held]
  · exact ok
  · exact serial

omit [DecidableEq ρ] [Fintype ρ] in
theorem ReaderOk.of_silent {tables : TableID → Table K R} {this : Reader K R}
    {pc : ReaderPC K}
    (held : ∀ i key,
      this.held i key = (pc.heldKeys this.query.mKeys i).count key)
    (atKey : pc.AtKey this.query.mKeys) (silent : ∀ i j, ¬ pc.Read i j) :
    ReaderOk tables { this with pc := pc } := by
  constructor
  · exact held
  · exact atKey
  · intro i j key _ read
    exact absurd read (silent i j)

omit [DecidableEq ρ] [Fintype ρ] in
/-- A query that begins, or begins again, has read nothing. -/
theorem ReaderOk.of_first {tables : TableID → Table K R} {this : Reader K R}
    {query : Query K R} (held : ∀ i key, this.held i key = 0) :
    ReaderOk tables { this with pc := .lockShared .first, query := query } := by
  constructor
  · intro i key
    rw [held]
    simp [ReaderPC.heldKeys, Cursor.readsOf, Cursor.first]
  · trivial
  · intro i j key _ read
    exact absurd read (Cursor.not_passed_first j i)

omit [DecidableEq ρ] [DecidableEq K] [Fintype ρ] in
/-- A failed read keeps the locks of the reads before the cursor. -/
theorem cleanUp_heldKeys (mKeys : List K) (cursor : Cursor) (i : TableID) :
    (ReaderPC.cleanUp true (mKeys.take (cursor.readsOf 0))
      (mKeys.take (cursor.readsOf 1))).heldKeys mKeys i =
        mKeys.take (cursor.readsOf i) := by
  rcases Fin.exists_fin_two.mp ⟨i, rfl⟩ with zero | one
  · subst zero
    rfl
  · subst one
    rfl

/-- One lock is given back, and the query is at a point without reads. -/
theorem unlockShared_inv (inv : Inv state) {reader : ρ} {tblID : TableID}
    {key : K} {pc : ReaderPC K}
    (held : ∀ i other, (state.readers reader).held i other =
      ((pc.heldKeys (state.readers reader).query.mKeys i).count other : Int) +
        if i = tblID ∧ other = key then 1 else 0)
    (atKey : pc.AtKey (state.readers reader).query.mKeys)
    (silent : ∀ i j, ¬ pc.Read i j) :
    Inv (unlockSharedStep state reader tblID key pc) := by
  apply inv.move_reader
  · intro i
    exact ⟨state.setLocks_tbl tblID i _, state.setLocks_wKeysLocked tblID i _⟩
  · intro i other
    exact State.setLocks_part RowLock.active_writer state
      (S2PLLocks.unlockShared_writer _ key) i other
  · intro i other
    rw [Reader.count_held]
    by_cases here : i = tblID
    · subst here
      by_cases same : other = key
      · subst same
        simp [S2PLLocks.unlockShared]
        omega
      · simp [S2PLLocks.unlockShared, same]
    · simp [here]
  · intro i other _
    rw [Reader.count_held]
    split <;> omega
  · apply ReaderOk.of_silent
    · intro i other
      rw [Reader.count_held, held]
      have cancel : ∀ count : Int,
          count + (if i = tblID ∧ other = key then 1 else 0) +
            (if i = tblID ∧ other = key then -1 else 0) = count := by
        intro count
        split <;> omega
      exact cancel _
    · exact atKey
    · exact silent
  · exact inv.published

omit [DecidableEq K] in
/-- At the end of the loop all keys are locked on both tables. -/
theorem take_readsOf {cursor : Cursor} {mKeys : List K}
    (ended : mKeys[cursor.j]? = none) (i : TableID) :
    mKeys.take (cursor.readsOf i) = mKeys := by
  apply List.take_of_length_le
  have long := List.getElem?_eq_none_iff.mp ended
  unfold Cursor.readsOf
  split <;> omega

theorem lockShared_inv (inv : Inv state) {reader : ρ} {cursor : Cursor}
    (pc : (state.readers reader).pc = .lockShared cursor) :
    Inv (lockSharedStep state reader cursor) := by
  have ok := inv.readers reader
  have held : ∀ i key, (state.readers reader).held i key =
      ((state.readers reader).query.mKeys.take (cursor.readsOf i)).count key := by
    intro i key
    rw [ok.held, pc]
    rfl
  simp only [lockSharedStep]
  cases position : (state.readers reader).query.mKeys[cursor.j]? with
  | none =>
      apply inv.move_reader_only
      · rfl
      · constructor
        · intro i key
          exact (held i key).trans (by rw [take_readsOf position]; rfl)
        · trivial
        · intro i j key found _
          apply ok.values i j key found
          rw [pc]
          apply (cursor.passed_iff j i).mpr
          have inside : j < (state.readers reader).query.mKeys.length :=
            (List.getElem?_eq_some_iff.mp found).1
          have long := List.getElem?_eq_none_iff.mp position
          unfold Cursor.readsOf
          split <;> omega
      · exact inv.published
  | some key =>
      dsimp only
      cases locked : (state.group.regStates cursor.i).locks.lockShared key with
      | none =>
          apply inv.move_reader_only
          · rfl
          · apply ReaderOk.of_silent
            · intro i other
              rw [cleanUp_heldKeys]
              exact held i other
            · trivial
            · intro i j read
              cases read
          · exact inv.published
      | some locks =>
          obtain ⟨unset, rfl⟩ := S2PLLocks.lockShared_eq_some locked
          apply inv.move_reader
          · intro i
            by_cases here : i = cursor.i
            · subst here
              simp
            · simp [here]
          · intro i other
            by_cases here : i = cursor.i
            · subst here
              by_cases same : other = key
              · subst same
                simp
              · simp [same]
            · simp [here]
          · intro i other
            rw [Reader.count_held]
            by_cases here : i = cursor.i
            · subst here
              by_cases same : other = key
              · subst same
                simp
              · simp [same]
            · simp [here]
          · intro i other flag
            rw [Reader.count_held]
            split
            case isTrue same =>
              obtain ⟨rfl, rfl⟩ := same
              rw [unset] at flag
              cases flag
            case isFalse => omega
          · constructor
            · intro i other
              rw [Reader.count_held, held]
              simp only [ReaderPC.heldKeys, List.count_append]
              by_cases here : i = cursor.i
              · by_cases same : other = key
                · simp [here, same]
                · simp [here, same, Ne.symm same]
              · simp [here]
            · exact position
            · intro i j other found read
              apply ok.values i j other found
              rw [pc]
              exact read
          · exact inv.published

/-- Reading the storage under the lock. -/
theorem get_inv (inv : Inv state) {reader : ρ} {cursor : Cursor} {key : K}
    {rec : R} (pc : (state.readers reader).pc = .get cursor key)
    (found : (state.group.regStates cursor.i).tbl.getByKey key = some rec) :
    Inv (state.setReader reader
      { state.readers reader with
        pc := .lockShared cursor.next
        query := (state.readers reader).query.store cursor rec }) := by
  have ok := inv.readers reader
  have position : (state.readers reader).query.mKeys[cursor.j]? = some key := by
    have atKey := ok.atKey
    rw [pc] at atKey
    exact atKey
  apply inv.move_reader_only
  · rfl
  · constructor
    · intro i other
      have held := ok.held i other
      rw [pc, ← heldKeys_next position] at held
      exact held
    · trivial
    · intro i j other member read
      rcases (cursor.passed_next j i).mp read with before | ⟨rfl, rfl⟩
      · have different : ¬ (j = cursor.j ∧ i = cursor.i) := by
          rintro ⟨rfl, rfl⟩
          rw [Cursor.passed_iff, Cursor.readsOf_self] at before
          exact Nat.lt_irrefl _ before
        rw [Query.store_tpls, if_neg different]
        apply ok.values i j other member
        rw [pc]
        exact before
      · have same : some other = some key := member.symm.trans position
        cases same
        exact ⟨rec, by rw [Query.store_tpls, if_pos ⟨rfl, rfl⟩], found⟩
  · exact inv.published

omit [DecidableEq ρ] in
/-- The records of a query that holds all its locks are those of the last
committed state: the keys the writer has changed have no readers. -/
theorem publish_readsAfter (inv : Inv state) {reader : ρ}
    (pc : (state.readers reader).pc = .publish) :
    (state.readers reader).query.ReadsAfter state.history := by
  intro i j key position
  have read : (state.readers reader).pc.Read i j := by
    rw [pc]
    trivial
  obtain ⟨rec, stored, current⟩ := (inv.readers reader).values i j key position read
  refine ⟨rec, stored, ?_⟩
  have unwritten : key ∉ (state.written i).map Prod.fst := by
    intro member
    exact inv.not_read (inv.exclusive i key member).2 position read
  rw [inv.contents i, WriteFold.overwrite_of_not_mem unwritten] at current
  exact current

omit [DecidableEq ρ] in
theorem publish_serial (inv : Inv state) {reader : ρ}
    (pc : (state.readers reader).pc = .publish) :
    Serial state.history (state.readers reader).query :=
  ⟨state.history, List.suffix_refl _, publish_readsAfter inv pc⟩

theorem read_inv {next : State ρ K R} (inv : Inv state) {reader : ρ}
    (stepped : readStep state reader = some next) : Inv next := by
  have ok := inv.readers reader
  unfold readStep at stepped
  cases pc : (state.readers reader).pc with
  | idle => simp [pc] at stepped
  | lockShared cursor =>
      simp only [pc, Option.some.injEq] at stepped
      subst next
      exact lockShared_inv inv pc
  | get cursor key =>
      simp only [pc] at stepped
      cases found : (state.group.regStates cursor.i).tbl.getByKey key with
      | none =>
          simp only [found, Option.some.injEq] at stepped
          subst next
          apply inv.move_reader_only
          · rfl
          · apply ReaderOk.of_silent
            · intro i other
              rw [ok.held, pc]
              rfl
            · trivial
            · intro i j read
              cases read
          · exact inv.published
      | some rec =>
          simp only [found, Option.some.injEq] at stepped
          subst next
          exact get_inv inv pc found
  | unlockShared cursor key =>
      simp only [pc, Option.some.injEq] at stepped
      subst next
      apply unlockShared_inv inv
      · intro i other
        rw [ok.held, pc, Reader.fail, cleanUp_heldKeys]
        simp only [ReaderPC.heldKeys, List.count_append]
        by_cases here : i = cursor.i
        · by_cases same : other = key
          · simp [here, same]
          · simp [here, same, Ne.symm same]
        · simp [here]
      · trivial
      · intro i j read
        cases read
  | cleanUp again todo later =>
      have held := ok.held
      rw [pc] at held
      cases todo with
      | cons key todo =>
          simp only [pc, Option.some.injEq] at stepped
          subst next
          apply unlockShared_inv inv
          · intro i other
            rw [held]
            rcases Fin.exists_fin_two.mp ⟨i, rfl⟩ with zero | one
            · subst zero
              simpa [ReaderPC.heldKeys] using count_cons_key key other todo
            · subst one
              simp [ReaderPC.heldKeys]
          · trivial
          · intro i j read
            cases read
      | nil =>
          cases later with
          | cons key later =>
              simp only [pc, Option.some.injEq] at stepped
              subst next
              apply unlockShared_inv inv
              · intro i other
                rw [held]
                rcases Fin.exists_fin_two.mp ⟨i, rfl⟩ with zero | one
                · subst zero
                  simp [ReaderPC.heldKeys]
                · subst one
                  simpa [ReaderPC.heldKeys] using count_cons_key key other later
              · trivial
              · intro i j read
                cases read
          | nil =>
              simp only [pc, Option.some.injEq] at stepped
              subst next
              apply inv.move_reader_only
              · rfl
              · apply ReaderOk.of_silent
                · intro i other
                  rw [held]
                  cases again <;> simp [ReaderPC.heldKeys]
                · cases again <;> trivial
                · intro i j read
                  cases again <;> cases read
              · exact inv.published
  | restart =>
      simp only [pc, Option.bind_eq_bind, Option.bind_eq_some_iff] at stepped
      obtain ⟨sCtx, _, same⟩ := stepped
      cases same
      apply inv.move_reader_only
      · rfl
      · apply ReaderOk.of_first
        intro i key
        rw [ok.held, pc]
        rfl
      · exact inv.published
  | publish =>
      simp only [pc, Option.some.injEq] at stepped
      subst next
      apply inv.move_reader_only
      · rfl
      · apply ReaderOk.of_silent
        · intro i key
          rw [ok.held, pc]
          simp [ReaderPC.heldKeys]
        · trivial
        · intro i j read
          cases read
      · intro query member
        rcases List.mem_append.mp member with before | new
        · exact inv.published query before
        · rw [List.mem_singleton.mp new]
          exact publish_serial inv pc
  | removeTx =>
      simp only [pc, Option.bind_eq_bind, Option.bind_eq_some_iff] at stepped
      obtain ⟨sCtx, _, same⟩ := stepped
      cases same
      apply inv.move_reader_only
      · rfl
      · apply ReaderOk.of_silent
        · intro i key
          rw [ok.held, pc]
          rfl
        · trivial
        · intro i j read
          cases read
      · exact inv.published

theorem start_inv {next : State ρ K R} (inv : Inv state) {reader : ρ}
    {keys : List K} (stepped : step state (.start reader keys) = some next) :
    Inv next := by
  have ok := inv.readers reader
  simp only [step] at stepped
  cases pc : (state.readers reader).pc with
  | idle =>
      simp only [pc, Option.bind_eq_bind, Option.bind_eq_some_iff] at stepped
      obtain ⟨⟨txnID, sCtx⟩, _, same⟩ := stepped
      cases same
      apply inv.move_reader_only
      · rfl
      · apply ReaderOk.of_first
        intro i key
        rw [ok.held, pc]
        rfl
      · exact inv.published
  | _ => simp [pc] at stepped

end PipeFabric.S2pl
