import PipeFabric.Mvcc.CleanUp
import PipeFabric.Mvcc.Effects
import PipeFabric.Mvcc.ScanSystem
import PipeFabric.Mvcc.Snapshot

/-!
# What a scan knows while the writer goes on

When a scan takes its id there is at most one transaction with a smaller id whose
commit is not over.  All the others are in the table already.  So a copy may miss
the writes of that transaction, and no others; and until a key is met its array
keeps the version for the copy, provided no clean-up takes it.
-/

namespace PipeFabric.Mvcc

open SelectFromMVCCTable
open CleanUp (ShowsSame)

variable {ρ K R : Type} [LinearOrder K] [LinearOrder R]

/-! ## Keys that are stored -/

/-- Writes that are not pending are in the tables. -/
def Complete (state : State ρ K R) : Prop :=
  ∀ commit ∈ state.history, ∀ i key, (commit.record i key).isSome →
    ¬ state.writer.Pending i key commit.txnID →
    ∃ mvcc, (state.group.regStates i).tbl.getByKey key = some mvcc

theorem complete_initial (clock : Nat) :
    Complete (initial clock : State ρ K R) := by
  intro commit impossible
  cases impossible

theorem Complete.effect [Inhabited R] {state next : State ρ K R}
    (complete : Complete state) (effect : Effect state next) :
    Complete next := by
  intro commit member i key written settled
  cases effect with
  | quiet stored history pending txn =>
      rw [history] at member
      rw [pending commit member i key written] at settled
      rw [stored]
      exact complete commit member i key written settled
  | commit new stored history newer running txn before pending only =>
      rw [history] at member
      rcases List.mem_cons.mp member with same | old
      · subst commit
        exact absurd (pending i key written) settled
      · rw [stored]
        exact complete commit old i key written (before i key _)
  | install txnID tblID e updated history running txn finite version stored
      pending only =>
      rw [history] at member
      rw [stored]
      by_cases here : i = tblID ∧ key = e.1
      · rw [if_pos here]
        exact ⟨updated, rfl⟩
      · rw [if_neg here]
        apply complete commit member i key written
        intro waits
        exact settled ((pending i key _).mpr ⟨waits, here⟩)
  | cleanUp txnID tblID e dPos todo last mvcc history waiting writer found full
      stored =>
      rw [history] at member
      rw [writer] at settled
      rw [stored]
      by_cases here : i = tblID ∧ key = e.1
      · rw [if_pos here]
        exact ⟨_, rfl⟩
      · rw [if_neg here]
        exact complete commit member i key written settled

/-! ## Keys a scan has still to meet -/

/-- The keys that were written up to the id of the scan show a version. -/
def ShowsUnmet (state : State ρ K R) (scan : Scan K R) : Prop :=
  ∀ key, key ∉ scan.keys → ∀ commit,
    WritesBefore state.history scan key commit →
    ¬ state.writer.Pending scan.mTable key commit.txnID →
    ∃ mvcc p,
      (state.group.regStates scan.mTable).tbl.getByKey key = some mvcc ∧
        mvcc.getCurrent scan.mTxnID = some p

/-- A clean-up leaves what the scan has still to see. -/
def KeepsUnmet (state : State ρ K R) (scan : Scan K R) : Prop :=
  match state.writer with
  | .wait txnID tblID e _ _ _ =>
    ∀ mvcc, (state.group.regStates tblID).tbl.getByKey e.1 = some mvcc →
      mvcc.freeSlot = none → scan.mTable = tblID → e.1 ∉ scan.keys →
      ∀ p, mvcc.ValidAt scan.mTxnID p →
        (state.group.sCtx.recalcOldestVisible txnID).1 < mvcc.dts p
  | _ => True

omit [LinearOrder K] [LinearOrder R] in
/-- A new version up to the id of a scan is the one the scan sees. -/
theorem NewVersion.shows_le [Inhabited R] {txnID t : Nat} {rec : R}
    {before : Option (MVCCTuple R)} {updated : MVCCTuple R}
    (version : NewVersion txnID rec before updated) (finite : t < DTS_INF)
    (later : txnID ≤ t)
    (chain : ∀ mvcc, before = some mvcc → mvcc.VersionChain) :
    ∃ p, updated.getCurrent t = some p := by
  have small : txnID < DTS_INF := Nat.lt_of_le_of_lt later finite
  cases version with
  | first =>
      have fresh : (MVCCObject.first txnID rec : MVCCTuple R).VersionChain :=
        .first small
      refine ⟨0, fresh.getCurrent_iff.mpr ?_⟩
      simpa [MVCCObject.IsLive, MVCCObject.cts, MVCCObject.dts,
        MVCCObject.first_headers] using ⟨small, later, finite⟩
  | @next mvcc iPos dPos free isOpen newer =>
      have old := chain mvcc rfl
      have dead : ¬ mvcc.IsLive iPos := by
        rw [← old.isUsed, free]
        exact Bool.false_ne_true
      have opened : (mvcc.newEntry txnID iPos dPos rec).IsOpen iPos :=
        MVCCObject.VersionChain.newEntry_isOpen isOpen dead newer small
      refine ⟨iPos, (old.newEntry (by omega) isOpen dead newer
        small).getCurrent_open opened ?_ finite⟩
      rw [MVCCObject.newEntry_cts, if_pos rfl]
      exact later

omit [LinearOrder K] [LinearOrder R] in
/-- A new version above the id of a scan leaves what the scan sees. -/
theorem NewVersion.shows_lt [Inhabited R] {txnID t : Nat} {rec : R}
    {mvcc updated : MVCCTuple R} {p : Fin 2}
    (version : NewVersion txnID rec (some mvcc) updated)
    (small : txnID < DTS_INF) (newer : t < txnID)
    (current : mvcc.getCurrent t = some p) :
    updated.getCurrent t = some p := by
  cases version with
  | next free isOpen _ =>
      have same := ShowsSame.newEntry rec newer free
        fun _ => by rw [isOpen.2]; exact small
      exact (same.getCurrent current).1

omit [LinearOrder R] in
/-- The version valid at the id survives a clean-up that keeps it. -/
theorem getCurrent_cleanUpVersions {mvcc : MVCCTuple R} {oldest t : Nat}
    {p : Fin 2} (chain : mvcc.VersionChain) (finite : oldest < DTS_INF)
    (current : mvcc.getCurrent t = some p) (kept : oldest < mvcc.dts p) :
    (mvcc.cleanUpVersions oldest).getCurrent t = some p := by
  obtain ⟨live, started, ends⟩ := chain.getCurrent_iff.mp current
  apply (chain.cleanUpVersions finite).getCurrent_iff.mpr
  rw [MVCCObject.VersionChain.cleanUpVersions_isLive,
    MVCCObject.cleanUpVersions_cts kept, MVCCObject.cleanUpVersions_dts kept]
  exact ⟨⟨live, kept⟩, started, ends⟩

theorem ShowsUnmet.effect [Inhabited R] {state next : State ρ K R}
    {scan : Scan K R} (unmet : ShowsUnmet state scan) (inv : Inv state)
    (finite : scan.mTxnID < DTS_INF) (keeps : KeepsUnmet state scan)
    (effect : Effect state next) : ShowsUnmet next scan := by
  intro key notMet commit writes settled
  cases effect with
  | quiet stored history pending txn =>
      rw [history] at writes
      rw [pending commit writes.1 _ key writes.2.2] at settled
      rw [stored]
      exact unmet key notMet commit writes settled
  | commit new stored history newer running txn before pending only =>
      obtain ⟨member, early, written⟩ := writes
      rw [history] at member
      rw [stored]
      rcases List.mem_cons.mp member with same | old
      · subst commit
        exact absurd (pending _ key written) settled
      · exact unmet key notMet commit ⟨old, early, written⟩ (before _ key _)
  | install txnID tblID e updated history running txn small version stored
      pending only =>
      rw [history] at writes
      rw [stored]
      by_cases here : scan.mTable = tblID ∧ key = e.1
      · rw [if_pos here]
        refine ⟨updated, ?_⟩
        by_cases early : txnID ≤ scan.mTxnID
        · obtain ⟨p, current⟩ := version.shows_le finite early
            fun mvcc found => (inv.store.objects tblID e.1 mvcc found).chain
          exact ⟨p, rfl, current⟩
        · have late : scan.mTxnID < txnID := Nat.lt_of_not_le early
          obtain ⟨mvcc, p, found, current⟩ := unmet key notMet commit writes
            fun waits => by
              have same := only _ key _ waits
              have bound := writes.2.1
              omega
          rw [here.1, here.2] at found
          rw [found] at version
          exact ⟨p, rfl, version.shows_lt small late current⟩
      · rw [if_neg here]
        apply unmet key notMet commit writes
        intro waits
        exact settled ((pending _ key _).mpr ⟨waits, here⟩)
  | cleanUp txnID tblID e dPos todo last mvcc history waiting writer found full
      stored =>
      rw [history] at writes
      rw [writer] at settled
      rw [stored]
      by_cases here : scan.mTable = tblID ∧ key = e.1
      · rw [if_pos here]
        obtain ⟨table, same⟩ := here
        subst same
        obtain ⟨shown, p, shownFound, current⟩ :=
          unmet e.1 notMet commit writes settled
        rw [table, found, Option.some_inj] at shownFound
        subst shown
        unfold KeepsUnmet at keeps
        rw [waiting] at keeps
        have kept := keeps mvcc found full table notMet p
          (MVCCObject.getCurrent_validAt current)
        exact ⟨_, p, rfl, getCurrent_cleanUpVersions
          (inv.store.objects tblID e.1 mvcc found).chain
          (inv.recalcOldestVisible_lt txnID) current kept⟩
      · rw [if_neg here]
        exact unmet key notMet commit writes settled

/-! ## Copies -/

/-- A copy shows a write of a commit.  Later commits up to the id that write the
key are newer than the last commit when the scan began, `since`. -/
structure Copied (history : List (Commit K R)) (since : Nat) (scan : Scan K R)
    (key : K) (mvccObj : MVCCTuple R) : Prop where
  chain : mvccObj.VersionChain
  known : ∀ q, mvccObj.cts q ≤ scan.mTxnID →
    ∃ commit ∈ history, commit.txnID = mvccObj.cts q
  current : ∃ p, mvccObj.getCurrent scan.mTxnID = some p ∧
    (∃ commit ∈ history, commit.txnID = mvccObj.cts p ∧
      commit.record scan.mTable key = some (mvccObj.values p)) ∧
    ∀ commit, WritesBefore history scan key commit →
      mvccObj.cts p < commit.txnID → since < commit.txnID

/-- The copy does not depend on how far the scan is. -/
theorem Copied.move {history : List (Commit K R)} {since : Nat}
    {scan moved : Scan K R} {key : K} {mvccObj : MVCCTuple R}
    (copied : Copied history since scan key mvccObj)
    (id : moved.mTxnID = scan.mTxnID) (table : moved.mTable = scan.mTable) :
    Copied history since moved key mvccObj where
  chain := copied.chain
  known := by
    rw [id]
    exact copied.known
  current := by
    have current := copied.current
    unfold WritesBefore at current ⊢
    rw [id, table]
    exact current

/-- Taking a copy from the store. -/
theorem Inv.copied {state : State ρ K R} (inv : Inv state) {scan : Scan K R}
    {since : Nat} (old : since ≤ state.group.sCtx.lastCTS) {key : K}
    {mvccObj : MVCCTuple R} {p : Fin 2} (finite : scan.mTxnID < DTS_INF)
    (found : (state.group.regStates scan.mTable).tbl.getByKey key =
      some mvccObj)
    (current : mvccObj.getCurrent scan.mTxnID = some p) :
    Copied state.history since scan key mvccObj := by
  have ok := inv.store.objects scan.mTable key mvccObj found
  obtain ⟨live, _, ends⟩ := ok.chain.getCurrent_iff.mp current
  refine ⟨ok.chain, ?_, p, current, ok.written p live, ?_⟩
  · intro q early
    by_cases qLive : mvccObj.IsLive q
    · obtain ⟨commit, member, stamp, _⟩ := ok.written q qLive
      exact ⟨commit, member, stamp⟩
    · have blank := ok.chain.blank q qLive
      unfold MVCCObject.cts at early
      rw [blank] at early
      exact absurd finite (Nat.not_lt_of_le early)
  · intro commit complete later
    obtain ⟨member, early, written⟩ := complete
    rcases ok.covered p live commit member later
      (Nat.lt_of_le_of_lt early ends) with silent | waits
    · rw [silent] at written
      cases written
    · exact Nat.lt_of_le_of_lt old (inv.store.pending_newer waits)

section Growing

variable {history : List (Commit K R)} {since : Nat} {scan : Scan K R}
  {key : K} {mvccObj : MVCCTuple R} {new : Commit K R}

/-- A commit that comes later is not in the copy. -/
theorem Copied.not_installed
    (copied : Copied history since scan key mvccObj)
    (newest : ∀ older ∈ history, older.txnID < new.txnID) :
    ¬ Installed mvccObj scan.mTxnID new := by
  intro between
  obtain ⟨q, later, early⟩ := between
  obtain ⟨commit, member, stamp⟩ := copied.known q early
  have older := newest commit member
  omega

theorem Copied.grow (copied : Copied history since scan key mvccObj)
    (newer : since < new.txnID) :
    Copied (new :: history) since scan key mvccObj := by
  obtain ⟨p, current, ⟨commit, member, facts⟩, missed⟩ := copied.current
  refine ⟨copied.chain, ?_, p, current,
    ⟨commit, List.mem_cons_of_mem new member, facts⟩, ?_⟩
  · intro q early
    obtain ⟨other, otherMember, stamp⟩ := copied.known q early
    exact ⟨other, List.mem_cons_of_mem new otherMember, stamp⟩
  · intro other otherComplete later
    obtain ⟨otherMember, early, written⟩ := otherComplete
    rcases List.mem_cons.mp otherMember with same | old
    · subst other
      exact newer
    · exact missed other ⟨old, early, written⟩ later

/-- The version a copy shows is the newest one up to the id. -/
theorem Copied.installed_iff (copied : Copied history since scan key mvccObj)
    {p : Fin 2} (current : mvccObj.getCurrent scan.mTxnID = some p)
    (finite : scan.mTxnID < DTS_INF) (commit : Commit K R) :
    Installed mvccObj scan.mTxnID commit ↔ commit.txnID ≤ mvccObj.cts p := by
  obtain ⟨live, started, ends⟩ := copied.chain.getCurrent_iff.mp current
  constructor
  · intro between
    obtain ⟨q, later, early⟩ := between
    by_cases same : q = p
    · rw [← same]
      exact later
    · have qLive : mvccObj.IsLive q := by
        by_contra dead
        have blank := copied.chain.blank q dead
        unfold MVCCObject.cts at early
        rw [blank] at early
        exact absurd finite (Nat.not_lt_of_le early)
      have interval := qLive
      unfold MVCCObject.IsLive at interval
      rcases copied.chain.disjoint q p qLive live same with before | after
      · omega
      · omega
  · intro earlier
    exact ⟨p, earlier, started⟩

end Growing

/-! ## Scans -/

/-- What has been published comes from the copies, one record after the other. -/
def PublishedOk (scan : Scan K R) : Prop :=
  match scan.pc with
  | .lookup mvccObj => ∃ earlier key,
      scan.visited = earlier ++ [(key, mvccObj)] ∧
      earlier.map (fun e => MVCCTable.readVisible e.2 scan.mTxnID) =
        scan.published.map some
  | _ => scan.visited.map (fun e => MVCCTable.readVisible e.2 scan.mTxnID) =
      scan.published.map some

/-- What is known of a scan that began when `since` was the last commit. -/
structure ScanOk (state : State ρ K R) (scan : Scan K R) (since : Nat) :
    Prop where
  taken : scan.mTxnID < state.group.sCtx.nextTxID
  old : since ≤ state.group.sCtx.lastCTS
  one : ∀ commit ∈ state.history, since < commit.txnID →
    commit.txnID ≤ scan.mTxnID → ∀ other ∈ state.history,
    since < other.txnID → other.txnID ≤ scan.mTxnID →
    commit.txnID = other.txnID
  writer : ∀ commit ∈ state.history, since < commit.txnID →
    commit.txnID ≤ scan.mTxnID → ∀ txnID, state.writer.txn = some txnID →
    txnID ≤ scan.mTxnID → commit.txnID = txnID
  copies : ∀ e ∈ scan.visited, Copied state.history since scan e.1 e.2
  agree : ∀ e ∈ scan.visited, ∀ other ∈ scan.visited, ∀ commit,
    WritesBefore state.history scan e.1 commit →
    WritesBefore state.history scan other.1 commit →
    (Installed e.2 scan.mTxnID commit ↔
      Installed other.2 scan.mTxnID commit)
  distinct : scan.keys.Nodup
  published : PublishedOk scan
  unmet : scan.Running → ShowsUnmet state scan
  selected : scan.pc ≠ .select → ∀ key commit,
    WritesBefore state.history scan key commit → commit.txnID ≤ since →
    (scan.selected.getByKey key).isSome
  ended : scan.pc = .done →
    (∀ key, (scan.selected.getByKey key).isSome → key ∈ scan.keys) ∧
      EndsSnapshot state.history scan

section Steps

variable {state next : State ρ K R} {scan : Scan K R} {since : Nat}

/-- What the scan knows of the history stays true when a commit starts. -/
theorem ScanOk.commit (ok : ScanOk state scan since) {new : Commit K R}
    (history : next.history = new :: state.history)
    (newest : ∀ older ∈ state.history, older.txnID < new.txnID)
    (newer : state.group.sCtx.lastCTS < new.txnID)
    (running : state.writer.txn = some new.txnID)
    (txn : next.writer.txn = some new.txnID)
    (counter : state.group.sCtx.nextTxID ≤ next.group.sCtx.nextTxID)
    (last : state.group.sCtx.lastCTS ≤ next.group.sCtx.lastCTS)
    (unmet : scan.Running → ShowsUnmet next scan) :
    ScanOk next scan since := by
  have above : since < new.txnID := Nat.lt_of_le_of_lt ok.old newer
  -- with the new commit up to the id there is no other one after `since`
  have alone : new.txnID ≤ scan.mTxnID → ∀ commit ∈ state.history,
      since < commit.txnID → commit.txnID ≤ scan.mTxnID → False := by
    intro early commit member after before
    have same := ok.writer commit member after before new.txnID running early
    have older := newest commit member
    omega
  have writes : ∀ key commit, WritesBefore next.history scan key commit →
      commit = new ∨ WritesBefore state.history scan key commit := by
    intro key commit complete
    obtain ⟨member, early, written⟩ := complete
    rw [history] at member
    exact (List.mem_cons.mp member).imp_right fun old => ⟨old, early, written⟩
  have missed : ∀ e ∈ scan.visited, ¬ Installed e.2 scan.mTxnID new :=
    fun e member => (ok.copies e member).not_installed newest
  refine
    { taken := Nat.lt_of_lt_of_le ok.taken counter
      old := Nat.le_trans ok.old last
      one := ?_
      writer := ?_
      copies := ?_
      agree := ?_
      distinct := ok.distinct
      published := ok.published
      unmet := unmet
      selected := ?_
      ended := ?_ }
  · intro commit member after early other otherMember otherAfter otherEarly
    rw [history] at member otherMember
    rcases List.mem_cons.mp member with same | old
    · rcases List.mem_cons.mp otherMember with otherSame | otherOld
      · rw [same, otherSame]
      · rw [same] at early
        exact (alone early other otherOld otherAfter otherEarly).elim
    · rcases List.mem_cons.mp otherMember with otherSame | otherOld
      · rw [otherSame] at otherEarly
        exact (alone otherEarly commit old after early).elim
      · exact ok.one commit old after early other otherOld otherAfter otherEarly
  · intro commit member after early txnID runs before
    rw [txn, Option.some_inj] at runs
    rw [history] at member
    rcases List.mem_cons.mp member with same | old
    · rw [same, runs]
    · rw [← runs] at before
      exact (alone before commit old after early).elim
  · intro e member
    rw [history]
    exact (ok.copies e member).grow above
  · intro e member other otherMember commit left right
    rcases writes e.1 commit left with same | leftOld
    · subst commit
      exact iff_of_false (missed e member) (missed other otherMember)
    · rcases writes other.1 commit right with same | rightOld
      · subst commit
        exact iff_of_false (missed e member) (missed other otherMember)
      · exact ok.agree e member other otherMember commit leftOld rightOld
  · intro made key commit before old
    rcases writes key commit before with same | known
    · subst commit
      exact absurd above (Nat.not_lt_of_le old)
    · exact ok.selected made key commit known old
  · intro done
    refine ⟨(ok.ended done).1, ?_⟩
    intro commit key before notMet e member met
    rcases writes key commit before with same | known
    · subst commit
      exact missed e member
    · rcases writes e.1 commit met with same | metOld
      · subst commit
        exact missed e member
      · exact (ok.ended done).2 commit key known notMet e member metOld

/-- As long as no commit starts the scan only has to be shown its keys. -/
theorem ScanOk.sameHistory (ok : ScanOk state scan since)
    (history : next.history = state.history)
    (txn : ∀ txnID, next.writer.txn = some txnID →
      state.writer.txn = some txnID ∨ state.group.sCtx.nextTxID ≤ txnID)
    (counter : state.group.sCtx.nextTxID ≤ next.group.sCtx.nextTxID)
    (last : state.group.sCtx.lastCTS ≤ next.group.sCtx.lastCTS)
    (unmet : scan.Running → ShowsUnmet next scan) :
    ScanOk next scan since where
  taken := Nat.lt_of_lt_of_le ok.taken counter
  old := Nat.le_trans ok.old last
  one := by
    rw [history]
    exact ok.one
  writer := by
    intro commit member after early txnID runs before
    rw [history] at member
    rcases txn txnID runs with same | fresh
    · exact ok.writer commit member after early txnID same before
    · have taken := ok.taken
      omega
  copies := by
    rw [history]
    exact ok.copies
  agree := by
    rw [history]
    exact ok.agree
  distinct := ok.distinct
  published := ok.published
  unmet := unmet
  selected := by
    rw [history]
    exact ok.selected
  ended := by
    rw [history]
    exact ok.ended

/-- A step of the writer or of a reader. -/
theorem ScanOk.effect [Inhabited R] (ok : ScanOk state scan since)
    (inv : Inv state) (nextInv : Inv next) (effect : Effect state next)
    (counter : state.group.sCtx.nextTxID ≤ next.group.sCtx.nextTxID)
    (last : state.group.sCtx.lastCTS ≤ next.group.sCtx.lastCTS)
    (keeps : scan.Running → KeepsUnmet state scan) :
    ScanOk next scan since := by
  have finite : scan.mTxnID < DTS_INF :=
    Nat.lt_of_lt_of_le ok.taken inv.owners.counter
  have unmet : scan.Running → ShowsUnmet next scan := by
    intro runs
    exact (ok.unmet runs).effect inv finite (keeps runs) effect
  cases effect with
  | quiet stored history pending txn =>
      exact ok.sameHistory history txn counter last unmet
  | commit new stored history newer running txn before pending only =>
      have ordered := nextInv.store.newestFirst
      rw [history] at ordered
      exact ok.commit history (List.pairwise_cons.mp ordered).1 newer running
        txn counter last unmet
  | install txnID tblID e updated history running txn small version stored
      pending only =>
      apply ok.sameHistory history _ counter last unmet
      intro t same
      rw [txn] at same
      rw [running]
      exact Or.inl same
  | cleanUp txnID tblID e dPos todo rest mvcc history waiting writer found full
      stored =>
      apply ok.sameHistory history _ counter last unmet
      intro t same
      rw [writer] at same
      exact Or.inl same

end Steps

end PipeFabric.Mvcc
