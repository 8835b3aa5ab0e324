import PipeFabric.Mvcc.ScanInvariant

/-!
# Scans that see a snapshot

A scan holds no lock between its steps and is not registered with the state
context.  It publishes the contents of its table at one commit point as long as
the writer and the clean-ups stay out of its way in the sense of `Undisturbed`.
-/

namespace PipeFabric.Mvcc

open TransitionSystem SelectFromMVCCTable

variable {ρ σ K R : Type} [LinearOrder K] [LinearOrder R]

/-- The published records are the contents of the table after the commits up to a
point. -/
def Snapshot (history : List (Commit K R)) (scan : Scan K R) : Prop :=
  ∃ cts, cts ≤ scan.mTxnID ∧ scan.keys.Nodup ∧
    (∀ key, key ∈ scan.keys ↔
      (contentsAt history cts scan.mTable key).isSome) ∧
    scan.keys.map (contentsAt history cts scan.mTable) =
      scan.published.map some

section

variable {state : State ρ K R} {scan : Scan K R} {since : Nat}

/-- A copy shows the contents at every point from its version up to the next write
of the key. -/
theorem Copied.contentsAt {key : K} {mvccObj : MVCCTuple R}
    (copied : Copied state.history since scan key mvccObj) (inv : Inv state)
    {p : Fin 2} (current : mvccObj.getCurrent scan.mTxnID = some p) {cts : Nat}
    (started : mvccObj.cts p ≤ cts) (early : cts ≤ scan.mTxnID)
    (last : ∀ commit, WritesBefore state.history scan key commit →
      mvccObj.cts p < commit.txnID → ¬ commit.txnID ≤ cts) :
    contentsAt state.history cts scan.mTable key =
      some (mvccObj.values p) := by
  obtain ⟨q, found, ⟨commit, member, stamp, record⟩, _⟩ := copied.current
  rw [current, Option.some_inj] at found
  subst q
  refine VersionedHistory.valueAt_eq_some inv.store.newestFirst member record
    (by rw [stamp]; exact started) ?_
  intro later laterMember after before
  rw [stamp] at after
  by_contra written
  exact last later ⟨laterMember, Nat.le_trans before early,
    Option.isSome_iff_ne_none.mpr written⟩ after before

/-- The keys the scan has not met have no record at a point without a write of
theirs. -/
theorem contentsAt_unmet {key : K} {cts : Nat} (early : cts ≤ scan.mTxnID)
    (silent : ∀ commit, WritesBefore state.history scan key commit →
      ¬ commit.txnID ≤ cts) :
    contentsAt state.history cts scan.mTable key = none := by
  apply VersionedHistory.valueAt_eq_none
  intro commit member before
  by_contra written
  exact silent commit ⟨member, Nat.le_trans before early,
    Option.isSome_iff_ne_none.mpr written⟩ before

/-- A point where every copy shows the contents and the other keys have none is the
point of a snapshot. -/
theorem ScanOk.snapshot_of_point (ok : ScanOk state scan since)
    (done : scan.pc = .done) {cts : Nat} (early : cts ≤ scan.mTxnID)
    (met : ∀ e ∈ scan.visited, ∀ p,
      e.2.getCurrent scan.mTxnID = some p →
      contentsAt state.history cts scan.mTable e.1 = some (e.2.values p))
    (unmet : ∀ key, key ∉ scan.keys →
      contentsAt state.history cts scan.mTable key = none) :
    Snapshot state.history scan := by
  have shown : ∀ e ∈ scan.visited,
      contentsAt state.history cts scan.mTable e.1 =
        MVCCTable.readVisible e.2 scan.mTxnID := by
    intro e member
    obtain ⟨p, current, _⟩ := (ok.copies e member).current
    rw [met e member p current]
    unfold MVCCTable.readVisible
    rw [current]
    rfl
  refine ⟨cts, early, ok.distinct, ?_, ?_⟩
  · intro key
    constructor
    · intro member
      obtain ⟨e, visited, rfl⟩ := List.mem_map.mp member
      obtain ⟨p, current, _⟩ := (ok.copies e visited).current
      rw [met e visited p current]
      rfl
    · intro written
      by_contra absent
      rw [unmet key absent] at written
      cases written
  · have published := ok.published
    unfold PublishedOk at published
    rw [done] at published
    rw [← published]
    unfold Scan.keys
    rw [List.map_map]
    exact List.map_congr_left shown

/-- A scan that has come to its end has seen a snapshot: with or without the one
commit that was under way. -/
theorem ScanOk.snapshot (ok : ScanOk state scan since) (inv : Inv state)
    (done : scan.pc = .done) : Snapshot state.history scan := by
  have finite : scan.mTxnID < DTS_INF :=
    Nat.lt_of_lt_of_le ok.taken inv.owners.counter
  have made : scan.pc ≠ .select := by
    rw [done]
    simp
  obtain ⟨reached, ends⟩ := ok.ended done
  -- keys written by the time the scan began have been met
  have recent : ∀ key, key ∉ scan.keys → ∀ commit,
      WritesBefore state.history scan key commit → since < commit.txnID := by
    intro key notMet commit writes
    by_contra old
    exact notMet (reached key (ok.selected made key commit writes
      (Nat.le_of_not_lt old)))
  by_cases missing : ∃ commit key, since < commit.txnID ∧
      WritesBefore state.history scan key commit ∧
      ∀ e ∈ scan.visited, e.1 = key → ¬ Installed e.2 scan.mTxnID commit
  · obtain ⟨commit, key, after, writes, misses⟩ := missing
    obtain ⟨member, early, written⟩ := writes
    -- no copy shows the commit
    have hidden : ∀ e ∈ scan.visited,
        WritesBefore state.history scan e.1 commit →
        ¬ Installed e.2 scan.mTxnID commit := by
      intro e visited other
      by_cases met : key ∈ scan.keys
      · obtain ⟨first, firstVisited, same⟩ := List.mem_map.mp met
        rw [ok.agree e visited first firstVisited commit other
          (same.symm ▸ ⟨member, early, written⟩)]
        exact misses first firstVisited same
      · exact ends commit key ⟨member, early, written⟩ met e visited other
    have positive := (inv.store.stamped commit member).1
    have alone : ∀ key other, WritesBefore state.history scan key other →
        since < other.txnID → ¬ other.txnID ≤ commit.txnID - 1 := by
      intro key other writes otherAfter before
      have same := ok.one other writes.1 otherAfter writes.2.1 commit member
        after early
      omega
    refine ok.snapshot_of_point done
      (Nat.le_trans (Nat.sub_le commit.txnID 1) early) ?_ ?_
    · intro e visited p current
      have copied := ok.copies e visited
      obtain ⟨q, found, ⟨source, sourceMember, stamp, record⟩, missed⟩ :=
        copied.current
      rw [current, Option.some_inj] at found
      subst q
      have before : e.2.cts p < commit.txnID := by
        by_contra above
        have shows := (copied.installed_iff current finite commit).mpr
          (Nat.le_of_not_lt above)
        have valid := (MVCCObject.getCurrent_validAt current).2.1
        have sourceWrites : WritesBefore state.history scan e.1 source :=
          ⟨sourceMember, stamp ▸ valid, by rw [record]; rfl⟩
        have same := ok.one source sourceMember (by omega) (by omega) commit
          member after early
        have equal := inv.store.newestFirst.eq_of_stamp sourceMember member same
        rw [equal] at sourceWrites
        exact hidden e visited sourceWrites shows
      refine copied.contentsAt inv current (by omega)
        (Nat.le_trans (Nat.sub_le commit.txnID 1) early) ?_
      intro other writes later
      exact alone e.1 other writes (missed other writes later)
    · intro other notMet
      refine contentsAt_unmet
        (Nat.le_trans (Nat.sub_le commit.txnID 1) early) ?_
      intro late writes
      exact alone other late writes (recent other notMet late writes)
  · refine ok.snapshot_of_point done le_rfl ?_ ?_
    · intro e visited p current
      have copied := ok.copies e visited
      have valid := (MVCCObject.getCurrent_validAt current).2.1
      refine copied.contentsAt inv current valid le_rfl ?_
      intro commit writes later _
      obtain ⟨q, found, _, missed⟩ := copied.current
      rw [current, Option.some_inj] at found
      subst q
      apply missing
      refine ⟨commit, e.1, missed commit writes later, writes, ?_⟩
      intro first firstVisited same
      have equal := List.inj_on_of_nodup_map ok.distinct firstVisited visited
        same
      rw [equal, copied.installed_iff current finite commit]
      exact Nat.not_le_of_lt later
    · intro key notMet
      refine contentsAt_unmet le_rfl ?_
      intro commit writes _
      apply missing
      refine ⟨commit, key, recent key notMet commit writes, writes, ?_⟩
      intro e visited same
      exact absurd (List.mem_map.mpr ⟨e, visited, same⟩) notMet

/-! ## The steps of a scan -/

/-- A scan takes its id. -/
theorem ScanOk.start {system : State ρ K R} {started : Scan K R}
    {sCtx : StateContext} {mTable : TableID} (inv : Inv system)
    (complete : Complete system)
    (taken : Scan.start mTable system.group.sCtx = some (started, sCtx)) :
    ScanOk { system with group := system.group.setCtx sCtx } started
      system.group.sCtx.lastCTS := by
  unfold Scan.start at taken
  simp only [Option.bind_eq_bind, Option.bind_eq_some_iff, Option.pure_def,
    Option.some.injEq, Prod.mk.injEq] at taken
  obtain ⟨⟨mTxnID, next⟩, fetched, rfl, same⟩ := taken
  dsimp only at same
  subst next
  obtain ⟨room, new, counted⟩ := fetchTS_eq_some fetched
  have since : ∀ commit ∈ system.history,
      system.group.sCtx.lastCTS < commit.txnID →
      system.writer.txn = some commit.txnID := by
    intro commit member after
    exact (inv.store.history_le member).resolve_left (Nat.not_le_of_lt after)
  refine
    { taken := by rw [new, counted]; exact Nat.lt_succ_self _
      old := by rw [counted]; exact le_rfl
      one := ?_
      writer := ?_
      copies := fun e impossible => absurd impossible List.not_mem_nil
      agree := fun e impossible => absurd impossible List.not_mem_nil
      distinct := List.nodup_nil
      published := rfl
      unmet := ?_
      selected := fun different => absurd rfl different
      ended := by simp }
  · intro commit member after _ other otherMember otherAfter _
    exact Option.some.inj ((since commit member after).symm.trans
      (since other otherMember otherAfter))
  · intro commit member after _ txnID runs _
    exact Option.some.inj ((since commit member after).symm.trans runs)
  · intro _ key _ commit committed settled
    obtain ⟨member, _, written⟩ := committed
    obtain ⟨mvcc, found⟩ :=
      complete commit member mTable key written settled
    have ok := inv.store.objects mTable key mvcc found
    obtain ⟨p, isOpen⟩ := ok.chain.opened
    obtain ⟨source, sourceMember, stamp, _⟩ := ok.written p isOpen.1
    have older := (inv.store.stamped source sourceMember).2
    refine ⟨mvcc, p, found, ok.chain.getCurrent_open isOpen ?_ ?_⟩
    · dsimp only
      omega
    · dsimp only
      rw [new]
      exact room

/-- The iterator is made for the table as it is. -/
theorem ScanOk.select (ok : ScanOk state scan since) (inv : Inv state)
    (complete : Complete state) (pc : scan.pc = .select) :
    ScanOk state (scan.select (state.group.regStates scan.mTable).tbl)
      since where
  taken := ok.taken
  old := ok.old
  one := ok.one
  writer := ok.writer
  copies := fun e member => (ok.copies e member).move rfl rfl
  agree := ok.agree
  distinct := ok.distinct
  published := by
    have published := ok.published
    unfold PublishedOk at published
    rw [pc] at published
    exact published
  unmet := by
    intro _
    apply ok.unmet
    unfold Scan.Running
    rw [pc]
    trivial
  selected := by
    intro _ key commit committed before
    obtain ⟨member, _, written⟩ := committed
    obtain ⟨mvcc, found⟩ := complete commit member scan.mTable key written
      fun waits => by
        have newer := inv.store.pending_newer waits
        have old := ok.old
        omega
    exact Option.isSome_iff_exists.mpr ⟨mvcc, found⟩
  ended := by
    intro impossible
    cases impossible

/-- A key that is met shows a version. -/
theorem ScanOk.shows (ok : ScanOk state scan since) (inv : Inv state)
    (running : scan.Running) {key : K} {mvccObj : MVCCTuple R}
    (notMet : key ∉ scan.keys)
    (found : (state.group.regStates scan.mTable).tbl.getByKey key =
      some mvccObj)
    (written : ∃ commit, WritesBefore state.history scan key commit) :
    ∃ p, mvccObj.getCurrent scan.mTxnID = some p := by
  have settled : ∃ commit, WritesBefore state.history scan key commit ∧
      ¬ state.writer.Pending scan.mTable key commit.txnID := by
    obtain ⟨commit, writes⟩ := written
    by_cases waits : state.writer.Pending scan.mTable key commit.txnID
    · -- the key has an older version, which is installed
      have stored := inv.store.objects scan.mTable key mvccObj found
      obtain ⟨p, isOpen⟩ := stored.chain.opened
      obtain ⟨source, member, stamp, record⟩ := stored.written p isOpen.1
      have installed := stored.installed p isOpen.1
      rw [← stamp] at installed
      refine ⟨source, ⟨member, ?_, by rw [record]; rfl⟩, installed⟩
      have newer := inv.store.pending_newer waits
      have early := writes.2.1
      rcases inv.store.history_le member with before | same
      · omega
      · rw [waits.eq same] at early
        exact early
    · exact ⟨commit, writes, waits⟩
  obtain ⟨commit, writes, installed⟩ := settled
  obtain ⟨shown, p, shownFound, current⟩ :=
    ok.unmet running key notMet commit writes installed
  rw [found, Option.some_inj] at shownFound
  subst shown
  exact ⟨p, current⟩

/-- The iterator moves to a key. -/
theorem ScanOk.meet (ok : ScanOk state scan since) (inv : Inv state)
    (pc : scan.pc = .advance) {key : K} {mvccObj : MVCCTuple R}
    (notMet : key ∉ scan.keys)
    (found : (state.group.regStates scan.mTable).tbl.getByKey key =
      some mvccObj)
    (meets : MeetsSnapshot state.history scan key mvccObj) :
    ScanOk state { scan with
      pc := .lookup mvccObj
      visited := scan.visited ++ [(key, mvccObj)] } since := by
  have running : scan.Running := by
    unfold Scan.Running
    rw [pc]
    trivial
  have finite : scan.mTxnID < DTS_INF :=
    Nat.lt_of_lt_of_le ok.taken inv.owners.counter
  obtain ⟨p, current⟩ := ok.shows inv running notMet found meets.1
  refine
    { taken := ok.taken
      old := ok.old
      one := ok.one
      writer := ok.writer
      copies := ?_
      agree := ?_
      distinct := ?_
      published := ?_
      unmet := ?_
      selected := ?_
      ended := by simp }
  · intro e member
    rcases List.mem_append.mp member with before | last
    · exact (ok.copies e before).move rfl rfl
    · rw [List.mem_singleton.mp last]
      exact (inv.copied ok.old finite found current).move rfl rfl
  · intro e member other otherMember commit left right
    rcases List.mem_append.mp member with before | last
    · rcases List.mem_append.mp otherMember with otherBefore | otherLast
      · exact ok.agree e before other otherBefore commit left right
      · rw [List.mem_singleton.mp otherLast] at right ⊢
        exact meets.2 commit right e before left
    · rw [List.mem_singleton.mp last] at left ⊢
      rcases List.mem_append.mp otherMember with otherBefore | otherLast
      · exact (meets.2 commit left other otherBefore right).symm
      · rw [List.mem_singleton.mp otherLast]
  · unfold Scan.keys
    rw [List.map_append, List.map_singleton, ← List.concat_eq_append,
      List.nodup_concat]
    exact ⟨notMet, ok.distinct⟩
  · have published := ok.published
    unfold PublishedOk at published
    rw [pc] at published
    exact ⟨scan.visited, key, rfl, published⟩
  · intro _ other otherNotMet
    apply ok.unmet running other
    intro before
    apply otherNotMet
    unfold Scan.keys at before ⊢
    rw [List.map_append]
    exact List.mem_append_left _ before
  · intro _
    apply ok.selected
    rw [pc]
    simp

/-- The iterator reaches the end. -/
theorem ScanOk.finish (ok : ScanOk state scan since) (pc : scan.pc = .advance)
    (reached : IteratorOk scan none)
    (ends : EndsSnapshot state.history scan) :
    ScanOk state { scan with pc := .done } since where
  taken := ok.taken
  old := ok.old
  one := ok.one
  writer := ok.writer
  copies := fun e member => (ok.copies e member).move rfl rfl
  agree := ok.agree
  distinct := ok.distinct
  published := by
    have published := ok.published
    unfold PublishedOk at published
    rw [pc] at published
    exact published
  unmet := fun impossible => impossible.elim
  selected := by
    intro _
    apply ok.selected
    rw [pc]
    simp
  ended := fun _ => ⟨reached, ends⟩

/-- The record of the copy is published. -/
theorem ScanOk.publish (ok : ScanOk state scan since)
    {mvccObj : MVCCTuple R} (pc : scan.pc = .lookup mvccObj) {pos : Fin 2}
    (current : mvccObj.getCurrent scan.mTxnID = some pos) :
    ScanOk state { scan with
      pc := .advance
      published := scan.published ++ [mvccObj.values pos] } since where
  taken := ok.taken
  old := ok.old
  one := ok.one
  writer := ok.writer
  copies := fun e member => (ok.copies e member).move rfl rfl
  agree := ok.agree
  distinct := ok.distinct
  published := by
    have published := ok.published
    unfold PublishedOk at published
    rw [pc] at published
    obtain ⟨earlier, key, visited, before⟩ := published
    have shown : MVCCTable.readVisible mvccObj scan.mTxnID =
        some (mvccObj.values pos) := by
      unfold MVCCTable.readVisible
      rw [current]
      rfl
    unfold PublishedOk
    dsimp only
    rw [visited, List.map_append, List.map_append, before]
    simp only [List.map_cons, List.map_nil, shown]
  unmet := by
    intro _
    apply ok.unmet
    unfold Scan.Running
    rw [pc]
    trivial
  selected := by
    intro _
    apply ok.selected
    rw [pc]
    simp
  ended := by
    intro impossible
    cases impossible

/-- A copy that is looked up shows a version. -/
theorem ScanOk.inside (ok : ScanOk state scan since) {mvccObj : MVCCTuple R}
    (pc : scan.pc = .lookup mvccObj) :
    mvccObj.getCurrent scan.mTxnID ≠ none := by
  have published := ok.published
  unfold PublishedOk at published
  rw [pc] at published
  obtain ⟨earlier, key, visited, _⟩ := published
  obtain ⟨p, current, _⟩ := (ok.copies (key, mvccObj) (by
    rw [visited]
    exact List.mem_append_right _ List.mem_cons_self)).current
  rw [current]
  exact Option.some_ne_none p

/-- The steps around a scan that leave it alone. -/
theorem ScanOk.system_step [DecidableEq ρ] [Inhabited R]
    {next : State ρ K R} {action : Action ρ K R} (ok : ScanOk state scan since)
    (inv : Inv state) (stepped : step state action = some next)
    (keeps : action = .write → scan.Running → KeepsUnmet state scan) :
    ScanOk next scan since := by
  obtain ⟨nextInv, frame⟩ := step_inv inv stepped
  obtain ⟨effect, counter⟩ := step_effect inv stepped
  -- only a commit under way cleans up
  have quiet : WriterFrame state next → (∀ txnID tblID e dPos todo last,
      state.writer ≠ .wait txnID tblID e dPos todo last) →
      ScanOk next scan since := by
    intro frame other
    apply ok.effect inv nextInv effect counter frame.lastCTS
    intro _
    unfold KeepsUnmet
    split
    · exact absurd ‹_› (other _ _ _ _ _ _)
    · trivial
  have reads : ∀ reader, ReaderFrame reader state next →
      ScanOk next scan since := by
    intro reader frame
    apply ok.sameHistory frame.history _ counter frame.lastCTS.ge
    · intro runs key notMet commit writes settled
      rw [frame.history] at writes
      rw [frame.writer] at settled
      rw [frame.tables]
      exact ok.unmet runs key notMet commit writes settled
    · intro txnID same
      rw [frame.writer] at same
      exact Or.inl same
  cases action with
  | write => exact ok.effect inv nextInv effect counter frame.lastCTS (keeps rfl)
  | start reader keys => exact reads reader frame
  | read reader => exact reads reader frame
  | newTx =>
      apply quiet frame
      intro _ _ _ _ _ _ waiting
      unfold step at stepped
      simp [waiting] at stepped
  | transactionBegin tblID =>
      apply quiet frame
      intro _ _ _ _ _ _ waiting
      unfold step at stepped
      simp [waiting] at stepped
  | insert tblID key rec =>
      apply quiet frame
      intro _ _ _ _ _ _ waiting
      unfold step at stepped
      simp [waiting] at stepped
  | transactionPreCommit tblID =>
      apply quiet frame
      intro _ _ _ _ _ _ waiting
      unfold step at stepped
      simp [waiting] at stepped

end

/-! ## Runs -/

/-- Everything that is kept on runs that do not disturb the scans. -/
structure ScanInv (state : ScanState ρ σ K R) : Prop where
  inv : Inv state.system
  complete : Complete state.system
  scans : ∀ scan, (state.scans scan).pc ≠ .idle →
    ∃ since, ScanOk state.system (state.scans scan) since

theorem ScanInv.initial {clock : Nat} (positive : 0 < clock)
    (small : clock ≤ DTS_INF) :
    ScanInv (.initial clock : ScanState ρ σ K R) where
  inv := .initial positive small
  complete := complete_initial clock
  scans := fun _ started => absurd rfl started

section Steps

variable [DecidableEq σ] {state : ScanState ρ σ K R}

/-- A scan moves and the system does not. -/
theorem ScanInv.setScan (kept : ScanInv state) {scan : σ} {moved : Scan K R}
    (ok : ∃ since, ScanOk state.system moved since) :
    ScanInv (state.setScan scan moved) where
  inv := kept.inv
  complete := kept.complete
  scans := by
    intro other started
    dsimp only [ScanState.setScan] at started ⊢
    by_cases here : other = scan
    · subst other
      rw [Function.update_self]
      exact ok
    · rw [Function.update_of_ne here] at started ⊢
      exact kept.scans other started

theorem ScanInv.start (kept : ScanInv state) {scan : σ} {mTable : TableID}
    {started : Scan K R} {sCtx : StateContext}
    (taken : Scan.start mTable state.system.group.sCtx =
      some (started, sCtx)) :
    ScanInv ({ state with
      system := { state.system with
        group := state.system.group.setCtx sCtx } }.setScan scan started) := by
  have ok := ScanOk.start kept.inv kept.complete taken
  unfold Scan.start at taken
  simp only [Option.bind_eq_bind, Option.bind_eq_some_iff, Option.pure_def,
    Option.some.injEq, Prod.mk.injEq] at taken
  obtain ⟨⟨mTxnID, next⟩, fetched, _, same⟩ := taken
  dsimp only at same
  subst next
  obtain ⟨owners, _, counter, last, _⟩ := kept.inv.owners.fetchTS fetched
  have later : ScanInv { state with
      system := { state.system with
        group := state.system.group.setCtx sCtx } } := by
    refine ⟨⟨owners, ?_⟩, kept.complete, ?_⟩
    · have store := kept.inv.store.counter_mono (Nat.le_succ _)
      dsimp only [TableGroup.setCtx]
      rw [counter, last]
      exact store
    · intro other running
      obtain ⟨since, before⟩ := kept.scans other running
      refine ⟨since, before.sameHistory rfl (fun _ => Or.inl) ?_ last.ge
        before.unmet⟩
      dsimp only [TableGroup.setCtx]
      rw [counter]
      exact Nat.le_succ _
  exact later.setScan ⟨_, ok⟩

omit [LinearOrder K] [LinearOrder R] [DecidableEq σ] in
theorem CleanUpKeeps.unmet (keeps : CleanUpKeeps state) {scan : σ}
    (running : (state.scans scan).Running) :
    KeepsUnmet state.system (state.scans scan) := by
  unfold CleanUpKeeps at keeps
  unfold KeepsUnmet
  cases waiting : state.system.writer with
  | wait txnID tblID e dPos todo last =>
      rw [waiting] at keeps
      intro mvcc found full table notMet
      exact keeps mvcc found full scan running table notMet
  | _ => trivial

variable [DecidableEq ρ] [Inhabited R] {next : ScanState ρ σ K R}

theorem ScanInv.step {action : ScanAction ρ σ K R} (kept : ScanInv state)
    (iterators : IteratorsOk state action)
    (undisturbed : Undisturbed state action)
    (stepped : ScanState.step state action = some next) : ScanInv next := by
  cases action with
  | system action =>
      simp only [ScanState.step, Option.bind_eq_bind, Option.bind_eq_some_iff,
        Option.pure_def, Option.some.injEq] at stepped
      obtain ⟨system, moved, rfl⟩ := stepped
      refine ⟨(step_inv kept.inv moved).1,
        kept.complete.effect (step_effect kept.inv moved).1, ?_⟩
      intro scan started
      obtain ⟨since, ok⟩ := kept.scans scan started
      refine ⟨since, ok.system_step kept.inv moved ?_⟩
      intro write running
      subst write
      exact CleanUpKeeps.unmet undisturbed running
  | start scan mTable =>
      unfold ScanState.step at stepped
      dsimp only at stepped
      split at stepped
      · simp only [Option.bind_eq_bind, Option.bind_eq_some_iff,
          Option.pure_def, Option.some.injEq] at stepped
        obtain ⟨⟨started, sCtx⟩, taken, rfl⟩ := stepped
        exact kept.start taken
      · cases stepped
  | select scan =>
      unfold ScanState.step at stepped
      dsimp only at stepped
      split at stepped
      case h_1 pc =>
        cases stepped
        obtain ⟨since, ok⟩ := kept.scans scan
          (by rw [pc]; simp)
        exact kept.setScan ⟨since, ok.select kept.inv kept.complete pc⟩
      case h_2 => cases stepped
  | advance scan position =>
      unfold ScanState.step at stepped
      dsimp only at stepped
      split at stepped
      case h_2 => cases stepped
      case h_1 pc =>
        obtain ⟨since, ok⟩ := kept.scans scan
          (by rw [pc]; simp)
        simp only [Option.bind_eq_bind, Option.bind_eq_some_iff,
          Option.pure_def, Option.some.injEq] at stepped
        obtain ⟨moved, advanced, rfl⟩ := stepped
        cases position with
        | none =>
            cases advanced
            exact kept.setScan ⟨since, ok.finish pc iterators undisturbed⟩
        | some key =>
            simp only [Scan.advance, Option.bind_eq_bind,
              Option.bind_eq_some_iff, Option.pure_def,
              Option.some.injEq] at advanced
            obtain ⟨mvccObj, found, rfl⟩ := advanced
            exact kept.setScan ⟨since, ok.meet kept.inv pc iterators found
              (undisturbed mvccObj found)⟩
  | lookup scan =>
      unfold ScanState.step at stepped
      dsimp only at stepped
      split at stepped
      case h_2 => cases stepped
      case h_1 mvccObj pc =>
        obtain ⟨since, ok⟩ := kept.scans scan
          (by rw [pc]; simp)
        simp only [Scan.lookup, Option.bind_eq_bind, Option.bind_eq_some_iff,
          Option.pure_def, Option.some.injEq] at stepped
        obtain ⟨moved, ⟨pos, current, rfl⟩, rfl⟩ := stepped
        exact kept.setScan ⟨since, ok.publish pc current⟩

end Steps

section Runs

abbrev SmallState : Type := ScanState (Fin 1) (Fin 1) (Fin 3) Nat

abbrev SmallAction : Type := ScanAction (Fin 1) (Fin 1) (Fin 3) Nat

/-- The writer begins a transaction and inserts the records into both tables. -/
def insertBoth (writes : List (Fin 3 × Nat)) : List SmallAction :=
  List.map .system
    (.newTx :: .transactionBegin 0 :: writes.map (fun e => .insert 0 e.1 e.2) ++
      .transactionBegin 1 :: writes.map fun e => .insert 1 e.1 e.2)

/-- The writer votes on both tables and is given the steps to finish. -/
def voteBoth (steps : Nat) : List SmallAction :=
  List.map .system ([.transactionPreCommit 0, .transactionPreCommit 1] ++
    List.replicate steps .write)

/-- Two keys are committed.  The scan meets the first one before a transaction with
a smaller id gives it a new version. -/
def overtakenScan : List SmallAction :=
  insertBoth [(0, 10), (1, 11)] ++ voteBoth 8 ++ insertBoth [(0, 20)] ++
    [.start 0 0, .select 0, .advance 0 (some 0)] ++ voteBoth 8 ++
    [.lookup 0, .advance 0 (some 1), .lookup 0, .advance 0 none]

/-- A key is committed for the first time after the scan has taken its id. -/
def insertedDuringScan : List SmallAction :=
  [.start 0 0, .select 0] ++ insertBoth [(0, 10)] ++ voteBoth 6 ++
    [.advance 0 (some 0)]

/-- A transaction with a smaller id commits between two keys it writes. -/
def committedDuringScan : List SmallAction :=
  insertBoth [(0, 10), (1, 11)] ++ voteBoth 8 ++
    insertBoth [(0, 20), (1, 21)] ++
    [.start 0 0, .select 0, .advance 0 (some 0), .lookup 0] ++ voteBoth 10 ++
    [.advance 0 (some 1), .lookup 0, .advance 0 none]

end Runs

end PipeFabric.Mvcc
