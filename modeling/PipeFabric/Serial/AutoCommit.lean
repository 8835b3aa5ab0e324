import PipeFabric.Library.Transducer
import PipeFabric.Qop.ToTxTable
import PipeFabric.Serial.LastWrite

/-!
# Auto-commit on a multi-version table

With `mAutoCommit` a tuple is installed as a version of its key at once, but
`lastCTS`, which decides what new readers see and which versions a clean-up may
drop, stays where the last group commit has left it.
-/

namespace PipeFabric.MVCCTable

open MVCCObject

variable {K R : Type}

/-! ## The slot of the new version -/

/-- The slot a new version gets if no active transaction has read: the first free
one, or else the first one whose version ended by the last commit. -/
def slotFor (lastCTS : Nat) (mvcc : MVCCTuple R) : Option (Fin 2) :=
  mvcc.freeSlot.or
    ((List.finRange 2).find? fun q => decide (mvcc.dts q ≤ lastCTS))

theorem used_of_full {mvcc : MVCCTuple R} (full : mvcc.freeSlot = none)
    (p : Fin 2) : mvcc.isUsed p = true := by
  apply Bool.eq_true_of_not_eq_false
  intro unused
  obtain ⟨q, free⟩ := freeSlot_isSome (by omega) unused
  rw [full] at free
  cases free

/-- What a clean-up of a full array frees. -/
theorem freeSlot_cleanUp {mvcc : MVCCTuple R} (full : mvcc.freeSlot = none)
    (lastCTS : Nat) :
    (mvcc.cleanUpVersions lastCTS).freeSlot = slotFor lastCTS mvcc := by
  rw [slotFor, full, Option.none_or]
  have used : ∀ q, (mvcc.cleanUpVersions lastCTS).isUsed q = true ↔
      lastCTS < mvcc.dts q := by
    intro q
    rw [cleanUpVersions_isUsed, used_of_full full q]
    simp
  cases found : (List.finRange 2).find? fun q =>
      decide (mvcc.dts q ≤ lastCTS) with
  | none =>
      rw [List.find?_eq_none] at found
      cases free : (mvcc.cleanUpVersions lastCTS).freeSlot with
      | none => rfl
      | some q =>
          have unused := freeSlot_unused (by omega) free
          have kept := found q (List.mem_finRange q)
          rw [decide_eq_true_eq, Nat.not_le] at kept
          rw [(used q).mpr kept] at unused
          cases unused
  | some q =>
      rw [← Fin.find?_eq_find?_finRange, Fin.find?_eq_some_iff] at found
      rw [freeSlot_eq_some_iff (by omega)]
      constructor
      · apply Bool.eq_false_of_not_eq_true
        rw [used q, Nat.not_lt]
        exact of_decide_eq_true found.1
      · intro j before
        rw [used j, ← Nat.not_le]
        exact of_decide_eq_false (found.2 j before)

/-! ## Waiting for it -/

theorem slotFor_cleanUp {lastCTS : Nat} {mvcc : MVCCTuple R}
    (nowhere : slotFor lastCTS mvcc = none) :
    slotFor lastCTS (mvcc.cleanUpVersions lastCTS) = none := by
  obtain ⟨full, finds⟩ := Option.or_eq_none_iff.mp nowhere
  have kept : ∀ q, (mvcc.cleanUpVersions lastCTS).dts q = mvcc.dts q := by
    intro q
    apply cleanUpVersions_dts
    rw [← Nat.not_le]
    have none := List.find?_eq_none.mp finds q (List.mem_finRange q)
    rwa [decide_eq_true_eq] at none
  rw [slotFor, freeSlot_cleanUp full, nowhere, Option.none_or]
  simp only [kept]
  exact finds

/-- Without a slot the loop never ends: `lastCTS` does not move while it waits. -/
theorem waitForSlot_never {sCtx : StateContext} {mvcc : MVCCTuple R}
    (wellFormed : sCtx.WellFormed) (quiet : Quiet sCtx)
    (nowhere : slotFor sCtx.lastCTS mvcc = none) (txnID : Nat) (dPos : Fin 2)
    (rec : R) (fuel : Nat) :
    waitForSlot txnID dPos rec fuel sCtx mvcc = none := by
  induction fuel generalizing sCtx mvcc with
  | zero => rfl
  | succ fuel induction =>
      obtain ⟨full, _⟩ := Option.or_eq_none_iff.mp nowhere
      simp only [waitForSlot, slotStep, full]
      rw [recalcOldestVisible_quiet wellFormed quiet]
      apply induction
      · exact wellFormed.recalcOldestVisible txnID
      · intro id entry active
        rw [StateContext.recalcOldestVisible_activeTx] at active
        exact quiet id entry active
      · rw [StateContext.recalcOldestVisible_lastCTS]
        exact slotFor_cleanUp nowhere

/-- With a slot the loop ends, after a clean-up if the array was full. -/
theorem waitForSlot_slotFor {sCtx : StateContext} {mvcc : MVCCTuple R}
    {iPos : Fin 2} (wellFormed : sCtx.WellFormed) (quiet : Quiet sCtx)
    (found : slotFor sCtx.lastCTS mvcc = some iPos) (txnID : Nat)
    (dPos : Fin 2) (rec : R) (fuel : Nat) :
    ∃ oldest before,
      (before = mvcc ∨ before = mvcc.cleanUpVersions sCtx.lastCTS) ∧
      before.freeSlot = some iPos ∧
      waitForSlot txnID dPos rec (fuel + 2) sCtx mvcc =
        some ({ sCtx with oldestVisibleVersion := oldest },
          before.newEntry txnID iPos dPos rec) := by
  cases free : mvcc.freeSlot with
  | some q =>
      rw [slotFor, free, Option.some_or, Option.some_inj] at found
      subst q
      refine ⟨sCtx.oldestVisibleVersion, mvcc, Or.inl rfl, free, ?_⟩
      simp only [waitForSlot, slotStep, free]
  | none =>
      have freed := (freeSlot_cleanUp free sCtx.lastCTS).trans found
      obtain ⟨oldest, frame⟩ := recalcOldestVisible_frame sCtx txnID
      refine ⟨oldest, _, Or.inr rfl, freed, ?_⟩
      simp only [waitForSlot, slotStep, free,
        recalcOldestVisible_quiet wellFormed quiet, freed, frame]

/-! ## What a new reader sees of it -/

theorem readVisible_eq_some_iff {mvcc : MVCCTuple R} {t : Nat} {rec : R}
    (unique : ∀ p q, mvcc.ValidAt t p → mvcc.ValidAt t q → p = q) :
    readVisible mvcc t = some rec ↔
      ∃ p, mvcc.ValidAt t p ∧ mvcc.values p = rec := by
  rw [readVisible, Option.map_eq_some_iff]
  constructor
  · intro found
    obtain ⟨p, current, value⟩ := found
    exact ⟨p, getCurrent_validAt current, value⟩
  · intro found
    obtain ⟨p, valid, value⟩ := found
    exact ⟨p, getCurrent_eq_some valid fun q other => unique q p other valid,
      value⟩

theorem validAt_before {lastCTS : Nat} {mvcc before : MVCCTuple R}
    (cleaned : before = mvcc ∨ before = mvcc.cleanUpVersions lastCTS)
    {t : Nat} (late : lastCTS ≤ t) (q : Fin 2) :
    before.ValidAt t q ↔ mvcc.ValidAt t q := by
  rcases cleaned with rfl | rfl
  · rfl
  · exact validAt_cleanUpVersions late q

/-- A tuple of a transaction `txnID` is shown to new readers right after it was
installed: its version is valid at the last commit, or the one that is says the
same. -/
def Fits (lastCTS txnID : Nat) (rec : R) (mvcc : MVCCTuple R) : Prop :=
  ∃ dPos iPos, mvcc.getCurrent txnID = some dPos ∧
    slotFor lastCTS mvcc = some iPos ∧
    if iPos = dPos then
      ∃ q, q ≠ dPos ∧ mvcc.ValidAt lastCTS q ∧ mvcc.values q = rec
    else txnID ≤ lastCTS ∨ mvcc.cts dPos ≤ lastCTS ∧ mvcc.values dPos = rec

instance [DecidableEq R] (lastCTS txnID : Nat) (rec : R) (mvcc : MVCCTuple R) :
    Decidable (Fits lastCTS txnID rec mvcc) :=
  inferInstanceAs (Decidable (∃ dPos iPos, mvcc.getCurrent txnID = some dPos ∧
    slotFor lastCTS mvcc = some iPos ∧
    if iPos = dPos then
      ∃ q, q ≠ dPos ∧ (mvcc.isUsed q = true ∧ mvcc.cts q ≤ lastCTS ∧
        lastCTS < mvcc.dts q) ∧ mvcc.values q = rec
    else txnID ≤ lastCTS ∨ mvcc.cts dPos ≤ lastCTS ∧ mvcc.values dPos = rec))

theorem readVisible_newEntry {lastCTS txnID : Nat} {rec : R}
    {mvcc before : MVCCTuple R} {iPos dPos : Fin 2}
    (finite : lastCTS < DTS_INF)
    (cleaned : before = mvcc ∨ before = mvcc.cleanUpVersions lastCTS)
    (free : before.freeSlot = some iPos)
    (current : mvcc.getCurrent txnID = some dPos) :
    readVisible (before.newEntry txnID iPos dPos rec) lastCTS = some rec ↔
      if iPos = dPos then
        ∃ q, q ≠ dPos ∧ mvcc.ValidAt lastCTS q ∧ mvcc.values q = rec
      else txnID ≤ lastCTS ∨
        mvcc.cts dPos ≤ lastCTS ∧ mvcc.values dPos = rec := by
  have values : before.values = mvcc.values := by
    rcases cleaned with rfl | rfl
    · rfl
    · exact cleanUpVersions_values _ _
  by_cases reused : iPos = dPos
  · -- the new version ends when it begins, and the other slot decides
    have valid : ∀ q, (before.newEntry txnID iPos dPos rec).ValidAt lastCTS q ↔
        q ≠ dPos ∧ mvcc.ValidAt lastCTS q := by
      intro q
      rw [← validAt_before cleaned (le_refl _), ValidAt, ValidAt,
        newEntry_isUsed (by omega), newEntry_cts, newEntry_dts, reused]
      by_cases here : q = dPos
      · simp [here]
      · simp [here]
    rw [readVisible_eq_some_iff, if_pos reused]
    · apply exists_congr
      intro q
      rw [valid, newEntry_values, reused, values, and_assoc]
      apply and_congr_right
      intro different
      rw [if_neg different]
    · intro p q left right
      have first := ((valid p).mp left).1
      have second := ((valid q).mp right).1
      omega
  · have opened : (before.newEntry txnID iPos dPos rec).ValidAt lastCTS iPos ↔
        txnID ≤ lastCTS := by
      rw [ValidAt, newEntry_isUsed (by omega), newEntry_cts, newEntry_dts]
      simp [reused, finite]
    have apart : dPos ≠ iPos := fun same => reused same.symm
    have closed : (before.newEntry txnID iPos dPos rec).ValidAt lastCTS dPos ↔
        lastCTS < txnID ∧ mvcc.cts dPos ≤ lastCTS := by
      rw [ValidAt, newEntry_isUsed (by omega), newEntry_cts, newEntry_dts,
        if_neg apart, if_pos rfl]
      by_cases late : lastCTS < txnID
      · have running := getCurrent_validAt current
        have used := ((validAt_before cleaned (Nat.le_of_lt late) dPos).mpr
          running).1
        have start : before.cts dPos = mvcc.cts dPos := by
          rcases cleaned with rfl | rfl
          · rfl
          · exact cleanUpVersions_cts (Nat.lt_trans late running.2.2)
        simp [used, start, late]
      · simp [late]
    have either : ∀ q, q = iPos ∨ q = dPos := by
      intro q
      omega
    rw [readVisible_eq_some_iff, if_neg reused]
    · constructor
      · intro shown
        obtain ⟨q, isValid, value⟩ := shown
        rcases either q with here | there
        · subst q
          exact Or.inl (opened.mp isValid)
        · subst q
          rw [newEntry_values, if_neg apart, values] at value
          exact Or.inr ⟨(closed.mp isValid).2, value⟩
      · intro shown
        by_cases late : lastCTS < txnID
        · have kept := shown.resolve_left (Nat.not_le.mpr late)
          refine ⟨dPos, closed.mpr ⟨late, kept.1⟩, ?_⟩
          rw [newEntry_values, if_neg apart, values]
          exact kept.2
        · refine ⟨iPos, opened.mpr (Nat.not_lt.mp late), ?_⟩
          rw [newEntry_values, if_pos rfl]
    · intro p q left right
      rcases either p with rfl | rfl
      · rcases either q with rfl | rfl
        · rfl
        · have early := opened.mp left
          have late := (closed.mp right).1
          omega
      · rcases either q with rfl | rfl
        · have late := (closed.mp left).1
          have early := opened.mp right
          omega
        · rfl

theorem readVisible_first [Inhabited R] {lastCTS txnID : Nat} {rec : R}
    (finite : lastCTS < DTS_INF) :
    readVisible (.first txnID rec) lastCTS = some rec ↔ txnID ≤ lastCTS := by
  have valid : ∀ p, (MVCCObject.first txnID rec : MVCCTuple R).ValidAt lastCTS p ↔
      p = 0 ∧ txnID ≤ lastCTS := by
    intro p
    rw [ValidAt, first_isUsed (by omega), cts, dts, first_headers]
    by_cases zero : p = 0
    · simp [zero, finite]
    · simp [zero]
  rw [readVisible_eq_some_iff]
  · simp [valid, first_values]
  · intro p q left right
    exact ((valid p).mp left).1.trans ((valid q).mp right).1.symm

/-! ## One tuple -/

section Tuple

variable {D : Type} [LinearOrder K] [LinearOrder R] [Inhabited R]

/-- No active transaction has read, a new reader finds a slot, and the table has
nothing buffered. -/
structure AutoReady (tblID : TableID) (group : TableGroup (MVCCTable K R)) :
    Prop where
  wellFormed : group.sCtx.WellFormed
  quiet : Quiet group.sCtx
  room : group.sCtx.occupied.card < 64
  finite : group.sCtx.lastCTS < DTS_INF
  clean : (group.regStates tblID).writeSet = { txnID := 0, set := [] }

/-- The group after a tuple: an object of the table and the bound of the clean-up
have changed. -/
def afterTuple (tblID : TableID) (group : TableGroup (MVCCTable K R))
    (oldest : Nat) (tbl : CuckooTable K (MVCCTuple R)) :
    TableGroup (MVCCTable K R) :=
  (group.setCtx { group.sCtx with oldestVisibleVersion := oldest }).setTable
    tblID { writeSet := { txnID := 0, set := [] }, tbl := tbl }

omit [LinearOrder K] [LinearOrder R] [Inhabited R] in
theorem AutoReady.afterTuple {tblID : TableID}
    {group : TableGroup (MVCCTable K R)} (ready : AutoReady tblID group)
    (oldest : Nat) (tbl : CuckooTable K (MVCCTuple R)) :
    AutoReady tblID (afterTuple tblID group oldest tbl) where
  wellFormed := ready.wellFormed.congr rfl rfl (le_refl _)
  quiet := ready.quiet
  room := ready.room
  finite := ready.finite
  clean := by simp [MVCCTable.afterTuple]

omit [LinearOrder K] [LinearOrder R] [Inhabited R] in
@[simp] theorem setTable_setTable (group : TableGroup (MVCCTable K R))
    (tblID : TableID) (table later : MVCCTable K R) :
    (group.setTable tblID table).setTable tblID later =
      group.setTable tblID later := by
  simp [TableGroup.setTable]

/-- The tuple is the only entry of the write set when its table commits. -/
theorem AutoReady.processDataElement {op : ToTxTable D K R}
    {group : TableGroup (MVCCTable K R)} (ready : AutoReady op.mTable group)
    (auto : op.mAutoCommit = true) (data : D) (fuel : Nat) :
    op.processDataElement fuel data false group =
      (installEntry fuel (op.mTxFunc data) op.mTable
        (group.setTable op.mTable
          { writeSet := { txnID := 0
                          set := [(op.mKeyFunc data, op.tuple data)] }
            tbl := (group.regStates op.mTable).tbl })
        (op.mKeyFunc data, op.tuple data)).map fun installed =>
          installed.setTable op.mTable
            { installed.regStates op.mTable with
              writeSet := { txnID := 0, set := [] } } := by
  have inserted : TransactionalTable.insert (group.regStates op.mTable)
      (op.mTxFunc data) (op.mKeyFunc data) (op.tuple data) = some
        { writeSet := { txnID := 0
                        set := [(op.mKeyFunc data, op.tuple data)] }
          tbl := (group.regStates op.mTable).tbl } := by
    change some ((group.regStates op.mTable).insert _ _ _) = _
    rw [MVCCTable.insert, ready.clean]
    rfl
  unfold ToTxTable.processDataElement
  simp only [Bool.false_eq_true, if_false, inserted, Option.bind_eq_bind,
    Option.bind_some, auto, if_true]
  change MVCCTable.transactionCommit fuel _ _ _ = _
  simp only [transactionCommit, TableGroup.setTable_regStates,
    Function.update_self, WriteSet.removeDuplicates, setTable_setTable,
    SortUnique.sortUnique_singleton, List.foldlM_cons, List.foldlM_nil,
    Option.bind_eq_bind, Option.pure_def, WriteSet.clean]
  rw [Option.bind_fun_some]
  exact Option.map_eq_bind.symm

/-- The first version of a key goes to an empty array. -/
theorem AutoReady.newKey {op : ToTxTable D K R}
    {group : TableGroup (MVCCTable K R)} (ready : AutoReady op.mTable group)
    (auto : op.mAutoCommit = true) {data : D} (fuel : Nat)
    (found : (group.regStates op.mTable).tbl.getByKey (op.mKeyFunc data) =
      none) :
    op.processDataElement fuel data false group =
      some (MVCCTable.afterTuple op.mTable group
        group.sCtx.oldestVisibleVersion
        ((group.regStates op.mTable).tbl.insert (op.mKeyFunc data)
          (.first (op.mTxFunc data) (op.tuple data)))) := by
  rw [ready.processDataElement auto]
  simp [installEntry, found, MVCCTable.afterTuple, TableGroup.setTable,
    TableGroup.setCtx]

theorem AutoReady.installed {op : ToTxTable D K R}
    {group : TableGroup (MVCCTable K R)} (ready : AutoReady op.mTable group)
    (auto : op.mAutoCommit = true) {data : D} (fuel : Nat)
    {mvcc : MVCCTuple R} {dPos iPos : Fin 2}
    (found : (group.regStates op.mTable).tbl.getByKey (op.mKeyFunc data) =
      some mvcc)
    (current : mvcc.getCurrent (op.mTxFunc data) = some dPos)
    (slot : slotFor group.sCtx.lastCTS mvcc = some iPos) :
    ∃ oldest before,
      (before = mvcc ∨ before = mvcc.cleanUpVersions group.sCtx.lastCTS) ∧
      before.freeSlot = some iPos ∧
      op.processDataElement (fuel + 2) data false group =
        some (MVCCTable.afterTuple op.mTable group oldest
          ((group.regStates op.mTable).tbl.update (op.mKeyFunc data)
            (before.newEntry (op.mTxFunc data) iPos dPos (op.tuple data)))) := by
  obtain ⟨oldest, before, cleaned, free, waited⟩ := waitForSlot_slotFor
    ready.wellFormed ready.quiet slot (op.mTxFunc data) dPos (op.tuple data) fuel
  refine ⟨oldest, before, cleaned, free, ?_⟩
  rw [ready.processDataElement auto]
  simp [installEntry, found, current, waited, MVCCTable.afterTuple,
    TableGroup.setTable, TableGroup.setCtx]

/-- No version to close, or no slot ever. -/
theorem AutoReady.stuck {op : ToTxTable D K R}
    {group : TableGroup (MVCCTable K R)} (ready : AutoReady op.mTable group)
    (auto : op.mAutoCommit = true) {data : D} (fuel : Nat)
    {mvcc : MVCCTuple R}
    (found : (group.regStates op.mTable).tbl.getByKey (op.mKeyFunc data) =
      some mvcc)
    (fails : mvcc.getCurrent (op.mTxFunc data) = none ∨
      slotFor group.sCtx.lastCTS mvcc = none) :
    op.processDataElement fuel data false group = none := by
  rw [ready.processDataElement auto]
  cases current : mvcc.getCurrent (op.mTxFunc data) with
  | none => simp [installEntry, found, current]
  | some dPos =>
      have nowhere := fails.resolve_left (by rw [current]; exact Option.some_ne_none _)
      have never := waitForSlot_never ready.wellFormed ready.quiet nowhere
        (op.mTxFunc data) dPos (op.tuple data) fuel
      simp [installEntry, found, current, never]

/-- A tuple for a stored key returns only if there is a version to close and a slot
for the new one. -/
theorem AutoReady.replaced {op : ToTxTable D K R}
    {group next : TableGroup (MVCCTable K R)} (ready : AutoReady op.mTable group)
    (auto : op.mAutoCommit = true) {data : D} {fuel : Nat} {mvcc : MVCCTuple R}
    (found : (group.regStates op.mTable).tbl.getByKey (op.mKeyFunc data) =
      some mvcc)
    (processed : op.processDataElement (fuel + 2) data false group = some next) :
    ∃ dPos iPos oldest before, mvcc.getCurrent (op.mTxFunc data) = some dPos ∧
      slotFor group.sCtx.lastCTS mvcc = some iPos ∧
      (before = mvcc ∨ before = mvcc.cleanUpVersions group.sCtx.lastCTS) ∧
      before.freeSlot = some iPos ∧
      next = MVCCTable.afterTuple op.mTable group oldest
        ((group.regStates op.mTable).tbl.update (op.mKeyFunc data)
          (before.newEntry (op.mTxFunc data) iPos dPos (op.tuple data))) := by
  cases current : mvcc.getCurrent (op.mTxFunc data) with
  | none =>
      rw [ready.stuck auto _ found (Or.inl current)] at processed
      cases processed
  | some dPos =>
      cases slot : slotFor group.sCtx.lastCTS mvcc with
      | none =>
          rw [ready.stuck auto _ found (Or.inr slot)] at processed
          cases processed
      | some iPos =>
          obtain ⟨oldest, before, cleaned, free, returned⟩ :=
            ready.installed auto fuel found current slot
          rw [returned, Option.some_inj] at processed
          exact ⟨dPos, iPos, oldest, before, rfl, rfl, cleaned, free, processed.symm⟩

omit [LinearOrder R] [Inhabited R] in
theorem AutoReady.newRead {tblID : TableID} {group : TableGroup (MVCCTable K R)}
    (ready : AutoReady tblID group) (key : K) :
    newRead group tblID key = some (answer (committedRecord group tblID key)) := by
  apply newRead_eq ready.wellFormed ready.room
  rw [ready.clean]
  exact Nat.ne_of_lt ready.wellFormed.nextTxID_pos

omit [LinearOrder K] [LinearOrder R] [Inhabited R] in
theorem committedRecord_afterTuple (tblID : TableID)
    (group : TableGroup (MVCCTable K R)) (oldest : Nat)
    (tbl : CuckooTable K (MVCCTuple R)) (key : K) :
    committedRecord (MVCCTable.afterTuple tblID group oldest tbl) tblID key =
      (tbl.getByKey key).bind fun mvcc =>
        readVisible mvcc group.sCtx.lastCTS := by
  simp [committedRecord, MVCCTable.afterTuple]

/-- A tuple that returns leaves the group ready, and the other keys alone. -/
theorem AutoReady.frame {op : ToTxTable D K R}
    {group next : TableGroup (MVCCTable K R)}
    (ready : AutoReady op.mTable group) (auto : op.mAutoCommit = true) {data : D}
    {fuel : Nat}
    (processed : op.processDataElement (fuel + 2) data false group = some next) :
    AutoReady op.mTable next ∧ ∀ key, key ≠ op.mKeyFunc data →
      MVCCTable.newRead next op.mTable key =
        MVCCTable.newRead group op.mTable key := by
  obtain ⟨oldest, tbl, rfl, other⟩ : ∃ oldest tbl,
      next = MVCCTable.afterTuple op.mTable group oldest tbl ∧
      ∀ key, key ≠ op.mKeyFunc data → tbl.getByKey key =
        (group.regStates op.mTable).tbl.getByKey key := by
    cases found : (group.regStates op.mTable).tbl.getByKey
        (op.mKeyFunc data) with
    | none =>
        rw [ready.newKey auto _ found, Option.some_inj] at processed
        refine ⟨_, _, processed.symm, ?_⟩
        intro key different
        rw [CuckooTable.getByKey_insert, if_neg different]
    | some mvcc =>
        obtain ⟨dPos, iPos, oldest, before, _, _, _, _, same⟩ :=
          ready.replaced auto found processed
        refine ⟨oldest, _, same, ?_⟩
        intro key different
        rw [CuckooTable.getByKey_update, if_neg different]
  refine ⟨ready.afterTuple oldest tbl, ?_⟩
  intro key different
  rw [(ready.afterTuple oldest tbl).newRead, ready.newRead,
    committedRecord_afterTuple, other key different]
  rfl

/-- What a tuple has to meet in the state before it.  A new key needs the id of a
transaction that is not newer than the last commit. -/
def FitsTuple (op : ToTxTable D K R) (group : TableGroup (MVCCTable K R))
    (data : D) : Prop :=
  match (group.regStates op.mTable).tbl.getByKey (op.mKeyFunc data) with
  | none => op.mTxFunc data ≤ group.sCtx.lastCTS
  | some mvcc =>
    Fits group.sCtx.lastCTS (op.mTxFunc data) (op.tuple data) mvcc

omit [LinearOrder K] [LinearOrder R] [Inhabited R] in
theorem fitsTuple_of_stored {op : ToTxTable D K R}
    {group : TableGroup (MVCCTable K R)} {data : D} {mvcc : MVCCTuple R}
    (found : (group.regStates op.mTable).tbl.getByKey (op.mKeyFunc data) =
      some mvcc)
    (fits : Fits group.sCtx.lastCTS (op.mTxFunc data) (op.tuple data) mvcc) :
    FitsTuple op group data := by
  unfold FitsTuple
  rw [found]
  exact fits

/-- Processing a tuple returns and shows it to new readers. -/
def Shown (fuel : Nat) (op : ToTxTable D K R)
    (group : TableGroup (MVCCTable K R)) (data : D) : Prop :=
  ∃ next, op.processDataElement (fuel + 2) data false group = some next ∧
    MVCCTable.newRead next op.mTable (op.mKeyFunc data) =
      some (.SUCCESS, some (op.tuple data))

theorem AutoReady.shown_iff {op : ToTxTable D K R}
    {group : TableGroup (MVCCTable K R)} (ready : AutoReady op.mTable group)
    (auto : op.mAutoCommit = true) (data : D) (fuel : Nat) :
    Shown fuel op group data ↔ FitsTuple op group data := by
  have reads : ∀ oldest tbl,
      MVCCTable.newRead (MVCCTable.afterTuple op.mTable group oldest tbl)
        op.mTable (op.mKeyFunc data) = some (.SUCCESS, some (op.tuple data)) ↔
      ((tbl.getByKey (op.mKeyFunc data)).bind fun mvcc =>
        readVisible mvcc group.sCtx.lastCTS) = some (op.tuple data) := by
    intro oldest tbl
    rw [(ready.afterTuple oldest tbl).newRead, committedRecord_afterTuple,
      Option.some_inj]
    constructor
    · intro same
      exact answer_injective same
    · intro same
      rw [same]
      rfl
  unfold Shown FitsTuple
  cases found : (group.regStates op.mTable).tbl.getByKey
      (op.mKeyFunc data) with
  | none =>
      simp only [ready.newKey auto _ found, Option.some.injEq, exists_eq_left',
        reads, CuckooTable.getByKey_insert, found, if_true, Option.getD_none,
        Option.bind_some]
      exact readVisible_first ready.finite
  | some mvcc =>
      dsimp only
      constructor
      · intro shown
        obtain ⟨next, processed, read⟩ := shown
        obtain ⟨dPos, iPos, oldest, before, current, slot, cleaned, free, rfl⟩ :=
          ready.replaced auto found processed
        rw [reads, CuckooTable.getByKey_update, if_pos rfl, Option.bind_some,
          readVisible_newEntry ready.finite cleaned free current] at read
        exact ⟨dPos, iPos, current, slot, read⟩
      · intro fits
        obtain ⟨dPos, iPos, current, slot, visible⟩ := fits
        obtain ⟨oldest, before, cleaned, free, returned⟩ :=
          ready.installed auto fuel found current slot
        refine ⟨_, returned, ?_⟩
        rw [reads, CuckooTable.getByKey_update, if_pos rfl, Option.bind_some,
          readVisible_newEntry ready.finite cleaned free current]
        exact visible

theorem AutoReady.elements {op : ToTxTable D K R}
    {group final : TableGroup (MVCCTable K R)}
    (ready : AutoReady op.mTable group) (auto : op.mAutoCommit = true)
    {fuel : Nat} {tuples : List D}
    (processed : op.processDataElements (fuel + 2) tuples group = some final) :
    AutoReady op.mTable final := by
  induction tuples generalizing group with
  | nil =>
      cases processed
      exact ready
  | cons data tuples induction =>
      rw [ToTxTable.processDataElements, List.foldlM_cons] at processed
      obtain ⟨next, first, rest⟩ := Option.bind_eq_some_iff.mp processed
      exact induction (ready.frame auto first).1 rest

end Tuple

end PipeFabric.MVCCTable

namespace PipeFabric.Mvcc

open MVCCTable TransitionSystem WriteFold

variable {ρ D K R : Type} [LinearOrder K] [LinearOrder R]

/-- Without active transactions the writer is idle and all slots are free. -/
theorem Inv.autoReady {state : State ρ K R} (inv : Inv state)
    (alone : ∀ txnID, state.group.sCtx.activeTx txnID = none)
    (tblID : TableID) : AutoReady tblID state.group := by
  have unowned : state.writer.txn = none := by
    cases owned : state.writer.txn with
    | none => rfl
    | some txnID =>
        obtain ⟨entry, active⟩ := inv.owners.live none txnID owned
        rw [alone txnID] at active
        cases active
  have idle : state.writer = .idle := by
    cases writer : state.writer with
    | idle => rfl
    | _ =>
        rw [writer] at unowned
        cases unowned
  constructor
  · exact inv.owners.wellFormed
  · intro id entry active
    rw [alone id] at active
    cases active
  · have free : state.group.sCtx.occupied = ∅ := by
      apply Finset.eq_empty_of_forall_notMem
      intro pos member
      have used := StateContext.mem_occupied.mp member
      have active := inv.owners.wellFormed.activeTx_eq_some.mpr
        ⟨pos, used, rfl, rfl⟩
      rw [alone] at active
      cases active
    rw [free]
    decide
  · exact Nat.lt_of_lt_of_le inv.store.lastOld inv.owners.counter
  · exact (inv.betweenTransactions idle).clean tblID

/-- New readers see the last tuple of every key. -/
def ShowsLast (op : ToTxTable D K R) (group : TableGroup (MVCCTable K R))
    (tuples : List D) : Prop :=
  ∀ key rec,
    lastWrite (tuples.map fun data => (op.mKeyFunc data, op.tuple data)) key =
      some rec →
    newRead group op.mTable key = some (.SUCCESS, some rec)

variable [DecidableEq ρ] [Inhabited R]

/-- One more tuple, when all tuples before are shown. -/
theorem showsLast_concat {op : ToTxTable D K R}
    {group before : TableGroup (MVCCTable K R)}
    (ready : AutoReady op.mTable group) (auto : op.mAutoCommit = true)
    {fuel : Nat} {seen : List D} (data : D)
    (processed : op.processDataElements (fuel + 2) seen group = some before)
    (shown : ShowsLast op before seen) :
    (∃ next, op.processDataElements (fuel + 2) (seen ++ [data]) group =
        some next ∧ ShowsLast op next (seen ++ [data])) ↔
      FitsTuple op before data := by
  rw [← (ready.elements auto processed).shown_iff auto data fuel]
  simp only [ToTxTable.processDataElements_concat, processed, Option.bind_some]
  constructor
  · intro every
    obtain ⟨next, returned, last⟩ := every
    refine ⟨next, returned, last _ _ ?_⟩
    rw [List.map_append, lastWrite_append]
    simp [lastWrite, firstWrite_cons]
  · intro newest
    obtain ⟨next, returned, read⟩ := newest
    refine ⟨next, returned, ?_⟩
    intro key rec last
    rw [List.map_append, lastWrite_append] at last
    by_cases here : key = op.mKeyFunc data
    · subst key
      simp only [List.map_cons, List.map_nil, lastWrite, List.reverse_singleton,
        firstWrite_cons, if_true, Option.some_or, Option.some.injEq] at last
      rw [← last]
      exact read
    · have other : op.mKeyFunc data ≠ key := fun same => here same.symm
      rw [((ready.elements auto processed).frame auto returned).2 key here]
      apply shown
      simpa [lastWrite, firstWrite_cons, other] using last

/-- Tuple after tuple is committed and shown exactly if every tuple fits the
state it meets. -/
theorem autoCommit_showsLast {clock : Nat} (positive : 0 < clock)
    (small : clock ≤ DTS_INF) {state : State ρ K R}
    (reachable : Reachable step (Mvcc.initial clock) state)
    (alone : ∀ txnID, state.group.sCtx.activeTx txnID = none)
    (op : ToTxTable D K R) (auto : op.mAutoCommit = true) (tuples : List D)
    (fuel : Nat) :
    (∀ seen, seen <+: tuples → ∃ next,
      op.processDataElements (fuel + 2) seen state.group = some next ∧
        ShowsLast op next seen) ↔
      ∀ seen data, seen ++ [data] <+: tuples → ∃ before,
        op.processDataElements (fuel + 2) seen state.group = some before ∧
          FitsTuple op before data := by
  have ready := (Inv.of_execution positive small reachable).autoReady alone
    op.mTable
  refine Transducer.forall_arrivals_iff
    (fun tuples => ∀ seen, seen <+: tuples → ∃ next,
      op.processDataElements (fuel + 2) seen state.group = some next ∧
        ShowsLast op next seen) tuples ?_ ?_
  · intro seen start
    rw [List.prefix_nil.mp start]
    refine ⟨state.group, rfl, ?_⟩
    intro key rec impossible
    cases impossible
  · intro seen data start
    constructor
    · intro every
      have before : ∀ earlier, earlier <+: seen → ∃ next,
          op.processDataElements (fuel + 2) earlier state.group = some next ∧
            ShowsLast op next earlier :=
        fun earlier part => every earlier (part.trans (List.prefix_append _ _))
      obtain ⟨middle, processed, shown⟩ := before seen List.prefix_rfl
      exact ⟨before, middle, processed,
        (showsLast_concat ready auto data processed shown).mp
          (every _ List.prefix_rfl)⟩
    · intro every
      obtain ⟨before, middle, processed, fits⟩ := every
      intro earlier part
      rcases List.prefix_concat_iff.mp part with whole | inside
      · obtain ⟨same, returned, shown⟩ := before seen List.prefix_rfl
        rw [processed, Option.some_inj] at returned
        subst same
        rw [whole]
        exact (showsLast_concat ready auto data processed shown).mpr fits
      · exact before earlier inside

section Runs

/-- Tuples that carry their transaction id and their key. -/
def smallOp : ToTxTable (Nat × Nat × Nat) Nat Nat :=
  { mTable := 0
    mKeyFunc := fun data => data.2.1
    mTxFunc := fun data => data.1
    tuple := fun data => data.2.2
    mAutoCommit := true }

theorem autoCommit_showsLast_repeatedRecord :
    ∃ state : State (Fin 1) Nat Nat,
      run step (Mvcc.initial 1) (commitBoth 7 10 6) = some state ∧
      ∀ seen, seen <+: [(5, 7, 10)] → ∃ next,
        smallOp.processDataElements 2 seen state.group = some next ∧
          ShowsLast smallOp next seen := by
  have ends : ((run step (Mvcc.initial 1 : State (Fin 1) Nat Nat)
      (commitBoth 7 10 6)).bind fun state =>
        ((state.group.regStates 0).tbl.getByKey 7).map fun mvcc =>
          (state.group.sCtx.usedSlots,
            decide (Fits state.group.sCtx.lastCTS 5 10 mvcc))) =
      some (0#64, true) := by
    decide
  obtain ⟨state, ran, rest⟩ := Option.bind_eq_some_iff.mp ends
  obtain ⟨mvcc, found, facts⟩ := Option.map_eq_some_iff.mp rest
  obtain ⟨free, fits⟩ := Prod.mk.inj facts
  refine ⟨state, ran, ?_⟩
  apply (autoCommit_showsLast (by decide) (by decide) (Execution.of_run ran)
    (StateContext.activeTx_of_free free) smallOp rfl [(5, 7, 10)] 0).mpr
  intro seen data start
  have only : seen ++ [data] <+: [] ++ [(5, 7, 10)] := start
  rcases List.prefix_concat_iff.mp only with whole | inside
  · obtain ⟨rfl, same⟩ := List.append_inj' whole rfl
    obtain rfl := List.singleton_inj.mp same
    exact ⟨state.group, rfl, fitsTuple_of_stored found (of_decide_eq_true fits)⟩
  · simp at inside

/-- On an empty table no new reader sees the first tuple. -/
theorem not_autoCommit_showsLast :
    (smallOp.processDataElements 2 [(1, 7, 10)]
      (Mvcc.initial 1 : State (Fin 1) Nat Nat).group).map
        (fun next => newRead next 0 7) = some (some (.NOT_FOUND, none)) ∧
      ¬ ∀ seen, seen <+: [(1, 7, 10)] → ∃ next,
        smallOp.processDataElements 2 seen
          (Mvcc.initial 1 : State (Fin 1) Nat Nat).group = some next ∧
            ShowsLast smallOp next seen := by
  have reads : (smallOp.processDataElements 2 [(1, 7, 10)]
      (Mvcc.initial 1 : State (Fin 1) Nat Nat).group).map
        (fun next => newRead next 0 7) = some (some (.NOT_FOUND, none)) := by
    decide
  refine ⟨reads, ?_⟩
  intro every
  obtain ⟨next, processed, shown⟩ := every _ List.prefix_rfl
  have read := shown 7 10 (by decide)
  rw [processed, Option.map_some, Option.some_inj] at reads
  exact absurd (reads.symm.trans read) (by decide)

end Runs

end PipeFabric.Mvcc
