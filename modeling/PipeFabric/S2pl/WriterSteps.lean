import PipeFabric.S2pl.ReaderSteps

/-!
# The steps of the writer

A record changes in `insert` only, where the exclusive lock excludes every query
that has read the key.
-/

namespace PipeFabric.S2pl

open FromTxTables

variable {ρ K R : Type} [DecidableEq K] [Fintype ρ]
  {state : State ρ K R}

/-- The writer moves; the storage and the counters of the readers stay. -/
theorem Inv.move_writer (inv : Inv state) {writer : WriterPC K R}
    {sCtx : StateContext} {tables : TableID → Table K R}
    (tbls : ∀ i, (tables i).tbl = (state.group.regStates i).tbl)
    (counters : ∀ i key, ((tables i).locks.locks key).active_readers =
      ((state.group.regStates i).locks.locks key).active_readers)
    (flagged : ∀ i key, ((tables i).locks.locks key).active_writer = true →
      key ∈ writer.locked tables i)
    (wants : ∀ i key, writer.Wants i key →
      ((tables i).locks.locks key).active_writer = true)
    (granted : ∀ i key, writer.Granted i key →
      ((state.group.regStates i).locks.locks key).active_readers = 0)
    (exclusive : ∀ i key, key ∈ (state.written i).map Prod.fst →
      ((tables i).locks.locks key).active_writer = true)
    (committed : writer.Unlocking → ∀ i, state.written i = []) :
    Inv { state with
      group := { sCtx := sCtx, regStates := tables }, writer := writer } := by
  constructor
  · intro i key
    exact (counters i key).trans (inv.counts i key)
  · intro reader
    apply (inv.readers reader).frame
    intro i j key _ _
    exact congrArg (OverwritingTable.getByKey · key) (tbls i)
  · exact flagged
  · exact wants
  · intro i key isGranted
    exact (counters i key).trans (granted i key isGranted)
  · intro i key member
    constructor
    · exact exclusive i key member
    · exact (counters i key).trans (inv.exclusive i key member).2
  · exact committed
  · intro i
    exact (congrArg OverwritingTable.getByKey (tbls i)).trans (inv.contents i)
  · exact inv.published

/-- The writer moves between points without locks. -/
theorem Inv.move_writer_only (inv : Inv state) {writer : WriterPC K R}
    {sCtx : StateContext}
    (unlocked : ∀ i, state.writer.locked state.group.regStates i = [])
    (quiet : ∀ i key, ¬ writer.Wants i key) (done : ¬ writer.Unlocking) :
    Inv { state with group := state.group.setCtx sCtx, writer := writer } := by
  apply inv.move_writer
  · intro i
    rfl
  · intro i key
    rfl
  · intro i key flag
    have member := inv.flagged i key flag
    rw [unlocked] at member
    cases member
  · intro i key wanted
    exact absurd wanted (quiet i key)
  · intro i key granted
    exact absurd granted.wants (quiet i key)
  · intro i key member
    exact (inv.exclusive i key member).1
  · intro unlocking
    exact absurd unlocking done

theorem lock_inv (inv : Inv state) {txnID : Nat} {tblID : TableID} {key : K}
    {rec : R} (pc : state.writer = .active txnID) :
    Inv (lockStep state txnID tblID key rec) := by
  have flags : ∀ i other,
      (((state.setLocks tblID ((state.group.regStates tblID).locks.setWriter
        key)).group.regStates i).locks.locks other).active_writer = true ↔
      i = tblID ∧ other = key ∨
        ((state.group.regStates i).locks.locks other).active_writer = true := by
    intro i other
    by_cases here : i = tblID
    · subst here
      by_cases same : other = key
      · subst same
        simp [State.setLocks, State.setTable, S2PLLocks.setWriter]
      · simp [State.setLocks, State.setTable, S2PLLocks.setWriter, same]
    · simp [State.setLocks, State.setTable, here]
  apply inv.move_writer
  · intro i
    exact state.setLocks_tbl tblID i _
  · intro i other
    exact State.setLocks_part RowLock.active_readers state
      (S2PLLocks.setWriter_readers _ key) i other
  · intro i other flag
    apply List.mem_append.mpr
    rcases (flags i other).mp flag with ⟨rfl, rfl⟩ | before
    · right
      simp
    · left
      have member := inv.flagged i other before
      rw [pc] at member
      exact (state.setLocks_wKeysLocked tblID i _).symm ▸ member
  · intro i other wanted
    exact (flags i other).mpr (Or.inl wanted)
  · intro i other granted
    cases granted
  · intro i other member
    exact (flags i other).mpr (Or.inr (inv.exclusive i other member).1)
  · intro unlocking
    cases unlocking

theorem wait_inv (inv : Inv state) {txnID : Nat} {tblID : TableID} {key : K}
    {rec : R} (pc : state.writer = .wait txnID tblID key rec)
    (free : (state.group.regStates tblID).locks.noReaders key = true) :
    Inv { state.setTable tblID
        { state.group.regStates tblID with
          wKeysLocked := (state.group.regStates tblID).wKeysLocked ++ [key] } with
      writer := .insert txnID tblID key rec } := by
  apply inv.move_writer
  · intro i
    exact state.setTable_tbl (by rfl) i
  · intro i other
    exact congrArg (fun locks => (S2PLLocks.locks locks other).active_readers)
      (state.setTable_locks (by rfl) i)
  · intro i other flag
    by_cases here : i = tblID
    · subst here
      have member := inv.flagged i other (by simpa using flag)
      rw [pc] at member
      simpa [WriterPC.locked] using member
    · have member := inv.flagged i other (by simpa [here] using flag)
      rw [pc] at member
      simpa [WriterPC.locked, here] using member
  · intro i other wanted
    obtain ⟨rfl, rfl⟩ := wanted
    have flag := inv.wants i other (by rw [pc]; exact ⟨rfl, rfl⟩)
    simpa using flag
  · intro i other granted
    obtain ⟨rfl, rfl⟩ := granted
    exact beq_iff_eq.mp free
  · intro i other member
    have flag := (inv.exclusive i other member).1
    by_cases here : i = tblID
    · subst here
      simpa using flag
    · simpa [here] using flag
  · intro unlocking
    cases unlocking

/-- The key is exclusively locked, so no query has read it. -/
theorem insert_inv (inv : Inv state) {txnID : Nat} {tblID : TableID} {key : K}
    {rec : R} (pc : state.writer = .insert txnID tblID key rec) :
    Inv { state.setTable tblID
        { state.group.regStates tblID with
          tbl := (state.group.regStates tblID).tbl.insert key rec } with
      writer := .active txnID
      written := Function.update state.written tblID
        (state.written tblID ++ [(key, rec)]) } := by
  have flag := inv.wants tblID key (by rw [pc]; exact ⟨rfl, rfl⟩)
  have free := inv.granted tblID key (by rw [pc]; exact ⟨rfl, rfl⟩)
  have locks : ∀ i, (Function.update state.group.regStates tblID
      { state.group.regStates tblID with
        tbl := (state.group.regStates tblID).tbl.insert key rec } i).locks =
      (state.group.regStates i).locks := by
    intro i
    exact state.setTable_locks (by rfl) i
  constructor
  · intro i other
    exact (congrArg (fun locks => (S2PLLocks.locks locks other).active_readers)
      (locks i)).trans (inv.counts i other)
  · intro reader
    apply (inv.readers reader).frame
    intro i j other position read
    by_cases here : i = tblID
    · subst here
      have different : other ≠ key := by
        rintro rfl
        exact inv.not_read free position read
      simp [State.setTable, different]
    · simp [State.setTable, here]
  · intro i other set
    have member := inv.flagged i other
      ((congrArg (fun locks => (S2PLLocks.locks locks other).active_writer)
        (locks i)).symm.trans set)
    rw [pc] at member
    by_cases here : i = tblID
    · subst here
      simpa [WriterPC.locked, State.setTable] using member
    · simpa [WriterPC.locked, State.setTable, here] using member
  · intro i other wanted
    cases wanted
  · intro i other granted
    cases granted
  · intro i other member
    simp only [State.setTable, TableGroup.setTable_regStates, locks]
    dsimp only at member
    by_cases here : i = tblID
    · subst here
      rw [Function.update_self, List.map_append, List.mem_append] at member
      rcases member with before | new
      · exact inv.exclusive i other before
      · rw [List.map_singleton, List.mem_singleton] at new
        subst new
        exact ⟨flag, free⟩
    · rw [Function.update_of_ne here] at member
      exact inv.exclusive i other member
  · intro unlocking
    cases unlocking
  · intro i
    by_cases here : i = tblID
    · subst here
      simp only [State.setTable, TableGroup.setTable_regStates,
        Function.update_self, OverwritingTable.getByKey_insert,
        WriteFold.overwrite_append, inv.contents]
      rfl
    · simpa [State.setTable, here] using inv.contents i
  · exact inv.published

/-- The decision to commit: the records in the storage are committed from here
on, and no key is unlocked before. -/
theorem preCommit_inv {next : State ρ K R} (inv : Inv state) {txnID : Nat}
    {tblID : TableID} (pc : state.writer = .active txnID)
    (stepped : preCommitStep state txnID tblID = some next) : Inv next := by
  simp only [preCommitStep, Option.bind_eq_bind,
    Option.bind_eq_some_iff] at stepped
  obtain ⟨sCtx, _, otherState, _, decided⟩ := stepped
  split at decided
  case isTrue =>
    cases decided
    constructor
    · exact inv.counts
    · exact inv.readers
    · intro i key flag
      have member := inv.flagged i key flag
      rw [pc] at member
      by_cases here : i = tblID
      · subst here
        simpa [WriterPC.locked] using member
      · simpa [WriterPC.locked, here] using member
    · intro i key wanted
      cases wanted
    · intro i key granted
      cases granted
    · intro i key member
      cases member
    · intro _ i
      rfl
    · exact inv.contents
    · intro query member
      exact (inv.published query member).grow (List.suffix_cons _ _)
  case isFalse =>
    cases decided
    exact ⟨inv.counts, inv.readers, inv.flagged, inv.wants, inv.granted,
      inv.exclusive, inv.committed, inv.contents, inv.published⟩

theorem unlockCons_inv (inv : Inv state) {txnID : Nat} {tblID : TableID}
    {key : K} {todo : List K} {last : Bool}
    (pc : state.writer = .unlock txnID tblID (key :: todo) last) :
    Inv { state.setLocks tblID
        ((state.group.regStates tblID).locks.unlockExclusive key) with
      writer := .unlock txnID tblID todo last } := by
  have written : ∀ i, state.written i = [] :=
    inv.committed (by rw [pc]; trivial)
  apply inv.move_writer
  · intro i
    exact state.setLocks_tbl tblID i _
  · intro i other
    exact State.setLocks_part RowLock.active_readers state
      (S2PLLocks.unlockExclusive_readers _ key) i other
  · intro i other flag
    by_cases here : i = tblID
    · subst here
      by_cases same : other = key
      · subst same
        simp [S2PLLocks.unlockExclusive] at flag
      · have member := inv.flagged i other
          (by simpa [S2PLLocks.unlockExclusive, same] using flag)
        rw [pc] at member
        simpa [WriterPC.locked, same] using member
    · have member := inv.flagged i other (by simpa [here] using flag)
      rw [pc] at member
      simpa [WriterPC.locked, here] using member
  · intro i other wanted
    cases wanted
  · intro i other granted
    cases granted
  · intro i other member
    rw [written] at member
    cases member
  · intro _
    exact written

theorem unlockNil_inv (inv : Inv state) {txnID : Nat} {tblID : TableID}
    {last : Bool} (pc : state.writer = .unlock txnID tblID [] last) :
    Inv { state.setTable tblID
        { state.group.regStates tblID with wKeysLocked := [] } with
      writer := if last then .publish txnID
        else .unlock txnID (otherID tblID)
          (state.group.regStates (otherID tblID)).wKeysLocked true } := by
  have written : ∀ i, state.written i = [] :=
    inv.committed (by rw [pc]; trivial)
  apply inv.move_writer
  · intro i
    exact state.setTable_tbl (by rfl) i
  · intro i other
    exact congrArg (fun locks => (S2PLLocks.locks locks other).active_readers)
      (state.setTable_locks (by rfl) i)
  · intro i other flag
    by_cases here : i = tblID
    · subst here
      have member := inv.flagged i other (by simpa using flag)
      rw [pc] at member
      simp [WriterPC.locked] at member
    · have member := inv.flagged i other (by simpa [here] using flag)
      have second : i = otherID tblID := (eq_or_eq_otherID i tblID).resolve_left here
      rw [pc] at member
      cases last with
      | true => simp [WriterPC.locked, here] at member
      | false => simpa [WriterPC.locked, here, ← second] using member
  · intro i other wanted
    cases last <;> cases wanted
  · intro i other granted
    cases last <;> cases granted
  · intro i other member
    rw [written] at member
    cases member
  · intro _
    exact written

theorem write_inv {next : State ρ K R} (inv : Inv state)
    (stepped : writeStep state = some next) : Inv next := by
  unfold writeStep at stepped
  cases pc : state.writer with
  | idle => simp [pc] at stepped
  | active txnID => simp [pc] at stepped
  | wait txnID tblID key rec =>
      simp only [pc] at stepped
      split at stepped
      case isTrue free =>
        cases stepped
        exact wait_inv inv pc free
      case isFalse => cases stepped
  | insert txnID tblID key rec =>
      simp only [pc, Option.some.injEq] at stepped
      subst next
      exact insert_inv inv pc
  | unlock txnID tblID todo last =>
      cases todo with
      | cons key todo =>
          simp only [pc, Option.some.injEq] at stepped
          subst next
          exact unlockCons_inv inv pc
      | nil =>
          have unlocked := unlockNil_inv inv pc
          cases last with
          | true =>
              simp only [pc, if_true, Option.some.injEq] at stepped
              subst next
              exact unlocked
          | false =>
              simp only [pc, Bool.false_eq_true, if_false,
                Option.some.injEq] at stepped
              subst next
              exact unlocked
  | publish txnID =>
      simp only [pc, Option.some.injEq] at stepped
      subst next
      apply inv.move_writer_only
      · intro i
        rw [pc]
        rfl
      · intro i key wanted
        cases wanted
      · intro unlocking
        cases unlocking
  | removeTx txnID =>
      simp only [pc, Option.bind_eq_bind, Option.bind_eq_some_iff] at stepped
      obtain ⟨sCtx, _, same⟩ := stepped
      cases same
      apply inv.move_writer_only
      · intro i
        rw [pc]
        rfl
      · intro i key wanted
        cases wanted
      · intro unlocking
        cases unlocking

end PipeFabric.S2pl
