import PipeFabric.Mvcc.Reachable

/-!
# What readers publish

A reader looks up the version array first and fixes its read timestamp
afterwards.  As long as the array is still current at that moment, every query
publishes the contents of both tables at its read timestamp.  A commit that is
published between the lookup and the fetch breaks this.
-/

namespace PipeFabric.Mvcc

open TransitionSystem StateContext FromTxTables

variable {ρ K R : Type}

section Phases

variable [LinearOrder K] [LinearOrder R]

/-- At the positions read so far the query holds the contents of the tables at
its read timestamp. -/
def ReadsOk (history : List (Commit K R)) (query : Query K R) (readCTS : Nat)
    (passed : Nat → TableID → Prop) : Prop :=
  ∀ j i key, passed j i → query.mKeys[j]? = some key →
    readCTS ≠ 0 ∧ ∃ rec, query.tpls i j = some rec ∧
      contentsAt history readCTS i key = some rec

/-- What a reader knows of the array it has copied for a key. -/
structure CopyOk (history : List (Commit K R)) (readCTS : Nat) (i : TableID)
    (key : K) (mvcc : MVCCTuple R) : Prop where
  written : ∀ t p, mvcc.getCurrent t = some p → ∃ commit ∈ history,
    commit.txnID = mvcc.cts p ∧ commit.record i key = some (mvcc.values p)
  snapshot : readCTS ≠ 0 → ∀ p, mvcc.getCurrent readCTS = some p →
    contentsAt history readCTS i key = some (mvcc.values p)

def ReaderPhase (history : List (Commit K R)) (query : Query K R)
    (readCTS : Nat) : ReaderPC R → Prop
  | .lookup cursor => ReadsOk history query readCTS cursor.Passed
  | .fetch cursor mvcc =>
      ReadsOk history query readCTS cursor.Passed ∧
        ∃ key, query.mKeys[cursor.j]? = some key ∧
          CopyOk history readCTS cursor.i key mvcc
  | .publish => ReadsOk history query readCTS fun _ _ => True
  | .idle => True
  | .restart => True
  | .removeTx => True

/-- A running query reads at a commit point, or has not fixed one yet. -/
structure SnapshotOk (history : List (Commit K R)) (reader : Reader K R)
    (readCTS : Nat) : Prop where
  point : readCTS ≠ 0 → ∃ commit ∈ history, commit.txnID = readCTS
  phase : ReaderPhase history reader.query readCTS reader.pc

def ReaderOk (state : State ρ K R) (reader : ρ) : Prop :=
  ∀ txnID entry, (state.readers reader).txn = some txnID →
    state.group.sCtx.activeTx txnID = some entry →
    SnapshotOk state.history (state.readers reader) entry.readCTS

/-- The published values are the contents of both tables at the commit point
the read timestamp denotes. -/
def Consistent (history : List (Commit K R)) (lastCTS : Nat)
    (publication : Publication K R) : Prop :=
  ∀ j key, publication.mKeys[j]? = some key →
    (∃ commit ∈ history, commit.txnID = publication.readCTS) ∧
      publication.readCTS ≤ lastCTS ∧
      ∀ i, ∃ rec, publication.tpls i j = some rec ∧
        contentsAt history publication.readCTS i key = some rec

/-! ## Growing histories -/

/-- The history is the same or has one commit more, which is not published. -/
def Grows (history later : List (Commit K R)) (lastCTS : Nat) : Prop :=
  later = history ∨
    ∃ commit, later = commit :: history ∧ lastCTS < commit.txnID

variable {history later : List (Commit K R)} {lastCTS readCTS : Nat}

omit [LinearOrder K] [LinearOrder R] in
theorem Grows.mem (grows : Grows history later lastCTS) {commit : Commit K R}
    (member : commit ∈ history) : commit ∈ later := by
  rcases grows with rfl | ⟨new, rfl, _⟩
  · exact member
  · exact List.mem_cons_of_mem new member

/-- The past does not change. -/
theorem Grows.contentsAt (grows : Grows history later lastCTS)
    (old : readCTS ≤ lastCTS) (i : TableID) (key : K) :
    contentsAt later readCTS i key = contentsAt history readCTS i key := by
  rcases grows with rfl | ⟨new, rfl, newer⟩
  · rfl
  · exact VersionedHistory.valueAt_cons_of_lt (Nat.lt_of_le_of_lt old newer)

theorem ReadsOk.grow {query : Query K R} {passed : Nat → TableID → Prop}
    (ok : ReadsOk history query readCTS passed)
    (grows : Grows history later lastCTS) (old : readCTS ≤ lastCTS) :
    ReadsOk later query readCTS passed := by
  intro j i key position found
  rw [grows.contentsAt old]
  exact ok j i key position found

theorem CopyOk.grow {i : TableID} {key : K} {mvcc : MVCCTuple R}
    (ok : CopyOk history readCTS i key mvcc)
    (grows : Grows history later lastCTS) (old : readCTS ≤ lastCTS) :
    CopyOk later readCTS i key mvcc where
  written := by
    intro t p current
    obtain ⟨commit, member, facts⟩ := ok.written t p current
    exact ⟨commit, grows.mem member, facts⟩
  snapshot := by
    intro fixed p current
    rw [grows.contentsAt old]
    exact ok.snapshot fixed p current

theorem SnapshotOk.grow {reader : Reader K R}
    (ok : SnapshotOk history reader readCTS)
    (grows : Grows history later lastCTS) (old : readCTS ≤ lastCTS) :
    SnapshotOk later reader readCTS where
  point := by
    intro fixed
    obtain ⟨commit, member, stamp⟩ := ok.point fixed
    exact ⟨commit, grows.mem member, stamp⟩
  phase := by
    have phase := ok.phase
    cases pc : reader.pc with
    | lookup cursor =>
        rw [pc] at phase
        exact ReadsOk.grow phase grows old
    | fetch cursor mvcc =>
        rw [pc] at phase
        obtain ⟨reads, key, found, copy⟩ := phase
        exact ⟨reads.grow grows old, key, found, copy.grow grows old⟩
    | publish =>
        rw [pc] at phase
        exact ReadsOk.grow phase grows old
    | idle => trivial
    | restart => trivial
    | removeTx => trivial

theorem Consistent.grow {publication : Publication K R} {newCTS : Nat}
    (consistent : Consistent history lastCTS publication)
    (grows : Grows history later lastCTS) (newer : lastCTS ≤ newCTS) :
    Consistent later newCTS publication := by
  intro j key found
  obtain ⟨⟨commit, member, stamp⟩, old, values⟩ := consistent j key found
  refine ⟨⟨commit, grows.mem member, stamp⟩, Nat.le_trans old newer, ?_⟩
  intro i
  rw [grows.contentsAt old]
  exact values i

/-! ## Stored objects show the contents of the tables -/

theorem ObjectOk.contentsAt {pending : Nat → Prop} {i : TableID} {key : K}
    {mvcc : MVCCTuple R} {t : Nat} {p : Fin 2}
    (ok : ObjectOk history pending i key mvcc)
    (newestFirst : VersionedHistory.NewestFirst Commit.txnID history)
    (done : ∀ txnID, pending txnID → t < txnID)
    (current : mvcc.getCurrent t = some p) :
    contentsAt history t i key = some (mvcc.values p) := by
  obtain ⟨live, started, ends⟩ := ok.chain.getCurrent_iff.mp current
  obtain ⟨commit, member, stamp, record⟩ := ok.written p live
  refine VersionedHistory.valueAt_eq_some newestFirst member record
    (by rw [stamp]; exact started) ?_
  intro other otherMember after before
  rw [stamp] at after
  rcases ok.covered p live other otherMember after
    (Nat.lt_of_le_of_lt before ends) with silent | waits
  · exact silent
  · exact absurd before (Nat.not_le.mpr (done other.txnID waits))

/-- What the writer has not installed yet is newer than the last commit. -/
theorem StoreInv.pending_newer {tables : TableID → MVCCTable K R}
    {writer : WriterPC K R} {nextTxID : Nat}
    (inv : StoreInv tables writer history lastCTS nextTxID) {i : TableID}
    {key : K} {txnID : Nat} (waits : writer.Pending i key txnID) :
    lastCTS < txnID := by
  have phase := inv.phase
  cases writer with
  | install id tblID todo last =>
      rw [waits.1]
      exact phase.1.newer
  | wait id tblID e dPos todo last =>
      rw [waits.1]
      exact phase.1.newer
  | idle => cases waits
  | active id => cases waits
  | publish id => cases waits
  | removeTx id => cases waits

/-- A copy taken from the store. -/
theorem StoreInv.copyOk {tables : TableID → MVCCTable K R}
    {writer : WriterPC K R} {nextTxID : Nat}
    (inv : StoreInv tables writer history lastCTS nextTxID)
    (old : readCTS ≤ lastCTS) {i : TableID} {key : K} {mvcc : MVCCTuple R}
    (found : (tables i).tbl.getByKey key = some mvcc) :
    CopyOk history readCTS i key mvcc := by
  have ok := inv.objects i key mvcc found
  refine ⟨?_, ?_⟩
  · intro t p current
    exact ok.written p (ok.chain.getCurrent_iff.mp current).1
  · intro _ p current
    refine ok.contentsAt inv.newestFirst ?_ current
    intro txnID waits
    exact Nat.lt_of_le_of_lt old (inv.pending_newer waits)

end Phases

/-! ## The condition on the first fetch -/

/-- The timestamp of the version that is visible at `t`. -/
def visibleCTS (mvcc : MVCCTuple R) (t : Nat) : Option Nat :=
  (mvcc.getCurrent t).map mvcc.cts

/-- When a query fixes its read timestamp, the version its copy shows at the
last commit is the one the stored array shows. -/
def UpToDate (state : State ρ K R) : Action ρ K R → Prop
  | .read reader =>
    match (state.readers reader).pc with
    | .fetch cursor mvcc =>
      let query := (state.readers reader).query
      let lastCTS := state.group.sCtx.lastCTS
      let stored := query.mKeys[cursor.j]?.bind
        (state.group.regStates cursor.i).tbl.getByKey
      state.group.sCtx.getReadCTS query.mTxnID = some 0 →
        visibleCTS mvcc lastCTS = none ∨
          stored.bind (visibleCTS · lastCTS) = visibleCTS mvcc lastCTS
    | _ => True
  | _ => True

instance (state : State ρ K R) (action : Action ρ K R) :
    Decidable (UpToDate state action) :=
  match action with
  | .read reader => by
    unfold UpToDate
    dsimp only
    split <;> infer_instance
  | .newTx => isTrue trivial
  | .transactionBegin _ => isTrue trivial
  | .insert _ _ _ => isTrue trivial
  | .transactionPreCommit _ => isTrue trivial
  | .write => isTrue trivial
  | .start _ _ => isTrue trivial

/-! ## Steps -/

section Steps

variable [DecidableEq ρ] [LinearOrder K] [LinearOrder R]

omit [DecidableEq ρ] in
/-- Readers do not find own versions: the write sets belong to the writer. -/
theorem Inv.ownVersion_eq_none {state : State ρ K R} (inv : Inv state)
    {reader : ρ} {txnID : Nat}
    (running : (state.readers reader).txn = some txnID) (i : TableID)
    (key : K) : (state.group.regStates i).ownVersion txnID key = none := by
  have positive := (inv.owners.bounds (some reader) running).1
  unfold MVCCTable.ownVersion
  rw [if_neg]
  intro same
  rcases inv.store.writeSet_owner i with unowned | owned
  · omega
  · rw [same] at owned
    have clash := inv.owners.distinct none (some reader) txnID owned running
    cases clash

omit [DecidableEq ρ] in
/-- A step that leaves a reader and its entry alone. -/
theorem ReaderOk.frame {state next : State ρ K R} {reader : ρ}
    (ok : ReaderOk state reader) (inv : Inv state)
    (same : next.readers reader = state.readers reader)
    (grows : Grows state.history next.history state.group.sCtx.lastCTS)
    (active : ∀ txnID entry, (state.readers reader).txn = some txnID →
      state.group.sCtx.activeTx txnID = some entry →
      next.group.sCtx.activeTx txnID = some entry) :
    ReaderOk next reader := by
  intro txnID entry running found
  rw [same] at running ⊢
  obtain ⟨before, known⟩ := inv.owners.live (some reader) txnID running
  have kept := active txnID before running known
  rw [found] at kept
  cases kept
  exact (ok txnID entry running known).grow grows
    (inv.owners.snapshots txnID entry known)

/-- Looking up a key. -/
private theorem lookup_ok {state : State ρ K R} (inv : Inv state) {reader : ρ}
    (ok : ReaderOk state reader) {cursor : Cursor}
    (pc : (state.readers reader).pc = .lookup cursor) :
    ReaderOk (lookupStep state reader (state.readers reader).query cursor)
      reader := by
  have running : (state.readers reader).txn =
      some (state.readers reader).query.mTxnID := by
    simp [Reader.txn, pc]
  obtain ⟨entry, active⟩ := inv.owners.live (some reader) _ running
  have old := inv.owners.snapshots _ entry active
  obtain ⟨point, reads⟩ := ok _ entry running active
  rw [pc] at reads
  -- the transaction and its entry stay, so only the new phase is at stake
  have moved : ∀ value : Reader K R,
      value.query = (state.readers reader).query →
      ReaderPhase state.history value.query entry.readCTS value.pc →
      ReaderOk (state.setReader reader value) reader := by
    intro value query phase txnID other runs found
    have here : (state.setReader reader value).readers reader = value := by
      simp [State.setReader]
    rw [here] at runs ⊢
    have same : txnID = (state.readers reader).query.mTxnID := by
      unfold Reader.txn at runs
      split at runs
      · cases runs
      · rw [← query]
        exact (Option.some.inj runs).symm
    subst txnID
    have equal : other = entry := Option.some.inj (found.symm.trans active)
    subst other
    exact ⟨point, phase⟩
  unfold lookupStep
  cases position : (state.readers reader).query.mKeys[cursor.j]? with
  | none =>
      refine moved _ rfl ?_
      intro j i other _ found
      refine reads j i other (Or.inl ?_) found
      obtain ⟨inside, _⟩ := List.getElem?_eq_some_iff.mp found
      exact Nat.lt_of_lt_of_le inside (List.getElem?_eq_none_iff.mp position)
  | some key =>
      dsimp only
      rw [inv.ownVersion_eq_none running]
      cases stored : (state.group.regStates cursor.i).tbl.getByKey key with
      | none => exact moved { pc := .restart, query := _ } rfl trivial
      | some mvcc =>
          exact moved { pc := .fetch cursor mvcc, query := _ } rfl
            ⟨reads, key, position, inv.store.copyOk old stored⟩

omit [DecidableEq ρ] in
/-- The value a fetch finds is the one in the tables at the read timestamp. -/
private theorem fetched_value {state : State ρ K R} (inv : Inv state)
    {reader : ρ} {cursor : Cursor} {mvcc : MVCCTuple R} {entry : ActiveTx}
    {key : K} {p : Fin 2} {readCTS : Nat}
    (pc : (state.readers reader).pc = .fetch cursor mvcc)
    (upToDate : UpToDate state (.read reader))
    (active : state.group.sCtx.activeTx
      (state.readers reader).query.mTxnID = some entry)
    (position : (state.readers reader).query.mKeys[cursor.j]? = some key)
    (copy : CopyOk state.history entry.readCTS cursor.i key mvcc)
    (fixed : readCTS = if entry.readCTS = 0 then state.group.sCtx.lastCTS
      else entry.readCTS)
    (current : mvcc.getCurrent readCTS = some p) :
    contentsAt state.history readCTS cursor.i key = some (mvcc.values p) := by
  by_cases unset : entry.readCTS = 0
  · rw [if_pos unset] at fixed
    subst readCTS
    -- the stored array shows a version with the stamp the copy shows
    have shown : visibleCTS mvcc state.group.sCtx.lastCTS =
        some (mvcc.cts p) := by
      simp [visibleCTS, current]
    simp only [UpToDate, pc, position, Option.bind_some, shown,
      reduceCtorEq, false_or] at upToDate
    have same := upToDate (by rw [getReadCTS_of_active active, unset])
    simp only [Option.bind_eq_some_iff, visibleCTS,
      Option.map_eq_some_iff] at same
    obtain ⟨stored, found, q, storedCurrent, stamp⟩ := same
    have ok := inv.store.objects cursor.i key stored found
    obtain ⟨live, _⟩ := ok.chain.getCurrent_iff.mp storedCurrent
    obtain ⟨commit, member, commitStamp, record⟩ := ok.written q live
    obtain ⟨other, otherMember, otherStamp, otherRecord⟩ :=
      copy.written _ p current
    have equal := inv.store.newestFirst.eq_of_stamp member otherMember
      (by rw [commitStamp, otherStamp, stamp])
    rw [equal, otherRecord] at record
    rw [record]
    refine ok.contentsAt inv.store.newestFirst ?_ storedCurrent
    intro txnID waits
    exact inv.store.pending_newer waits
  · rw [if_neg unset] at fixed
    subst readCTS
    exact copy.snapshot unset p current

/-- Fetching the read timestamp and searching the copy. -/
private theorem fetch_ok {state next : State ρ K R} (inv : Inv state)
    {reader : ρ} (ok : ReaderOk state reader) {cursor : Cursor}
    {mvcc : MVCCTuple R} (pc : (state.readers reader).pc = .fetch cursor mvcc)
    (upToDate : UpToDate state (.read reader))
    (stepped : fetchStep state reader (state.readers reader).query cursor mvcc =
      some next) : ReaderOk next reader := by
  have running : (state.readers reader).txn =
      some (state.readers reader).query.mTxnID := by
    simp [Reader.txn, pc]
  obtain ⟨readCTS, sCtx, fetched, either⟩ := fetchStep_cases stepped
  obtain ⟨_, _, _, entry, active, fixed, map⟩ :=
    fetchReadCTS_spec inv.owners (some reader) running fetched
  obtain ⟨point, reads, key, position, copy⟩ := by
    have facts := ok _ entry running active
    have phase := facts.phase
    rw [pc] at phase
    exact And.intro facts.point phase
  have newPoint : readCTS ≠ 0 →
      ∃ commit ∈ state.history, commit.txnID = readCTS := by
    intro nonzero
    by_cases unset : entry.readCTS = 0
    · rw [if_pos unset] at fixed
      rw [fixed] at nonzero ⊢
      exact inv.store.last.resolve_left nonzero
    · rw [if_neg unset] at fixed
      rw [fixed]
      exact point unset
  have mine : ∀ txnID other, some (state.readers reader).query.mTxnID =
      some txnID → sCtx.activeTx txnID = some other →
      other.readCTS = readCTS := by
    intro txnID other same found
    cases same
    rw [map, Function.update_self] at found
    cases found
    rfl
  rcases either with ⟨_, rfl⟩ | ⟨rec, visible, rfl⟩
  · intro txnID other runs found
    simp only [State.setReader, Function.update_self] at runs found ⊢
    rw [mine txnID other runs found]
    exact ⟨newPoint, trivial⟩
  · intro txnID other runs found
    simp only [State.setReader, Function.update_self] at runs found ⊢
    rw [mine txnID other runs found]
    refine ⟨newPoint, ?_⟩
    simp only [MVCCTable.readVisible, Option.map_eq_some_iff] at visible
    obtain ⟨p, current, rfl⟩ := visible
    have value := fetched_value inv pc upToDate active position copy
      fixed current
    intro j i otherKey passed otherPosition
    rw [Query.store_tpls]
    rw [Cursor.passed_next] at passed
    by_cases here : j = cursor.j ∧ i = cursor.i
    · rw [if_pos here]
      have sameKey : otherKey = key := by
        have lookup : (state.readers reader).query.mKeys[j]? =
          some otherKey := otherPosition
        rw [here.1, position] at lookup
        exact (Option.some.inj lookup).symm
      rw [sameKey, here.2]
      refine ⟨?_, _, rfl, value⟩
      -- a version valid at zero would have been written at zero
      intro zero
      obtain ⟨commit, member, stamp, _⟩ := copy.written _ p current
      have positive := (inv.store.stamped commit member).1
      have started := (MVCCObject.getCurrent_validAt current).2.1
      omega
    · rw [if_neg here]
      obtain ⟨set, before⟩ := reads j i otherKey
        (passed.resolve_right here) otherPosition
      rw [if_neg set] at fixed
      rw [fixed]
      exact ⟨set, before⟩

/-- Everything that is kept on runs without stale first reads. -/
structure SnapshotInv (state : State ρ K R) : Prop where
  inv : Inv state
  readers : ∀ reader, ReaderOk state reader
  published : ∀ publication ∈ state.published,
    Consistent state.history state.group.sCtx.lastCTS publication

/-- A step of a query keeps what is known of the query itself. -/
private theorem read_ok {state next : State ρ K R} (inv : Inv state)
    {reader : ρ} (ok : ReaderOk state reader)
    (upToDate : UpToDate state (.read reader))
    (stepped : readStep state reader = some next) :
    ReaderOk next reader ∧
      ∀ publication ∈ next.published, publication ∈ state.published ∨
        Consistent state.history state.group.sCtx.lastCTS publication := by
  have frame := (read_step inv stepped).2
  unfold readStep at stepped
  cases pc : (state.readers reader).pc with
  | idle => simp [pc] at stepped
  | lookup cursor =>
      simp only [pc, Option.some.injEq] at stepped
      subst next
      refine ⟨lookup_ok inv ok pc, ?_⟩
      intro publication member
      left
      unfold lookupStep at member
      split at member
      · exact member
      · dsimp only at member
        split at member
        · exact member
        · split at member <;> exact member
  | fetch cursor mvcc =>
      simp only [pc] at stepped
      refine ⟨fetch_ok inv ok pc upToDate stepped, ?_⟩
      intro publication member
      left
      obtain ⟨_, _, _, ⟨_, rfl⟩ | ⟨_, _, rfl⟩⟩ := fetchStep_cases stepped
      · exact member
      · exact member
  | restart =>
      simp only [pc] at stepped
      obtain ⟨sCtx, set, ended⟩ := Option.bind_eq_some_iff.mp stepped
      cases ended
      have running : (state.readers reader).txn =
          some (state.readers reader).query.mTxnID := by
        simp [Reader.txn, pc]
      obtain ⟨_, _, _, entry, _, map⟩ :=
        inv.owners.setReadCTS (some reader) running
          (Nat.zero_le _) set
      refine ⟨?_, fun _ member => Or.inl member⟩
      intro txnID other runs found
      simp only [State.setReader, Function.update_self] at runs found ⊢
      cases runs
      have same : other.readCTS = 0 := by
        simp only [TableGroup.setCtx_sCtx] at found
        rw [map, Function.update_self] at found
        cases found
        rfl
      rw [same]
      refine ⟨fun nonzero => absurd rfl nonzero, ?_⟩
      intro j i key passed
      exact absurd passed (Cursor.not_passed_first j i)
  | publish =>
      have running : (state.readers reader).txn =
          some (state.readers reader).query.mTxnID := by
        simp [Reader.txn, pc]
      obtain ⟨entry, active⟩ := inv.owners.live (some reader) _ running
      simp only [pc, getReadCTS_of_active active, Option.bind_eq_bind,
        Option.bind_some, Option.pure_def, Option.some.injEq] at stepped
      subst next
      obtain ⟨point, reads⟩ := ok _ entry running active
      rw [pc] at reads
      refine ⟨?_, ?_⟩
      · intro txnID other runs found
        simp only [State.setReader, Function.update_self] at runs found ⊢
        cases runs
        rw [active] at found
        cases found
        exact ⟨point, trivial⟩
      · intro publication member
        rcases List.mem_append.mp member with before | new
        · exact Or.inl before
        · right
          rw [List.mem_singleton.mp new]
          intro j key position
          have set := (reads j 0 key trivial position).1
          exact ⟨point set, inv.owners.snapshots _ entry active,
            fun i => (reads j i key trivial position).2⟩
  | removeTx =>
      simp only [pc] at stepped
      obtain ⟨sCtx, removed, ended⟩ := Option.bind_eq_some_iff.mp stepped
      cases ended
      refine ⟨?_, fun _ member => Or.inl member⟩
      intro txnID other runs
      simp [State.setReader, Reader.txn] at runs

/-- A query begins. -/
private theorem start_ok {state next : State ρ K R} (inv : Inv state)
    {reader : ρ} {keys : List K}
    (stepped : (do
      let (txnID, sCtx) ← beginTx state.group.sCtx
      return { state with group := state.group.setCtx sCtx }.setReader reader
        { pc := .lookup .first
          query := { mTxnID := txnID, mKeys := keys, tpls := fun _ _ => none } })
        = some next) :
    ReaderOk next reader ∧ next.published = state.published := by
  obtain ⟨⟨id, sCtx⟩, begun, ended⟩ := Option.bind_eq_some_iff.mp stepped
  cases ended
  obtain ⟨_, _, _, _, active⟩ :=
    inv.owners.beginTx (some reader) begun
  refine ⟨?_, rfl⟩
  intro txnID other runs found
  simp only [State.setReader, Function.update_self] at runs found ⊢
  cases runs
  have fresh : other.readCTS = 0 := by
    simp only [TableGroup.setCtx_sCtx] at found
    rw [active, Function.update_self] at found
    cases found
    rfl
  rw [fresh]
  refine ⟨fun nonzero => absurd rfl nonzero, ?_⟩
  intro j i key passed
  exact absurd passed (Cursor.not_passed_first j i)

variable [Inhabited R]

theorem SnapshotInv.step {state next : State ρ K R} {action : Action ρ K R}
    (snapshot : SnapshotInv state) (upToDate : UpToDate state action)
    (stepped : step state action = some next) : SnapshotInv next := by
  obtain ⟨inv, readers, published⟩ := snapshot
  obtain ⟨nextInv, frame⟩ := step_inv inv stepped
  have writerStep : WriterFrame state next → SnapshotInv next := by
    intro frame
    refine ⟨nextInv, ?_, ?_⟩
    · intro reader
      refine (readers reader).frame inv (congrFun frame.readers reader)
        frame.history ?_
      intro txnID entry running found
      apply frame.active txnID entry found
      intro clash
      have same := inv.owners.distinct none (some reader) txnID clash running
      cases same
    · intro publication member
      rw [frame.published] at member
      exact (published publication member).grow frame.history frame.lastCTS
  have readerStep : ∀ reader, ReaderFrame reader state next →
      ReaderOk next reader →
      (∀ publication ∈ next.published, publication ∈ state.published ∨
        Consistent state.history state.group.sCtx.lastCTS publication) →
      SnapshotInv next := by
    intro reader frame moved publications
    refine ⟨nextInv, ?_, ?_⟩
    · intro other
      by_cases here : other = reader
      · rw [here]
        exact moved
      · refine (readers other).frame inv (frame.readers other here)
          (Or.inl frame.history) ?_
        intro txnID entry running found
        apply frame.active txnID entry found
        intro clash
        have same := inv.owners.distinct (some reader) (some other) txnID clash
          running
        exact here (Option.some.inj same).symm
    · intro publication member
      rw [frame.history, frame.lastCTS]
      exact (publications publication member).elim
        (published publication) id
  cases action with
  | read reader =>
      obtain ⟨moved, publications⟩ :=
        read_ok inv (readers reader) upToDate stepped
      exact readerStep reader frame moved publications
  | start reader keys =>
      cases pc : (state.readers reader).pc with
      | idle =>
          simp only [Mvcc.step, pc] at stepped
          obtain ⟨moved, publications⟩ := start_ok inv stepped
          refine readerStep reader frame moved ?_
          intro publication member
          rw [publications] at member
          exact Or.inl member
      | _ => simp [Mvcc.step, pc] at stepped
  | newTx => exact writerStep frame
  | transactionBegin tblID => exact writerStep frame
  | insert tblID key rec => exact writerStep frame
  | transactionPreCommit tblID => exact writerStep frame
  | write => exact writerStep frame

omit [DecidableEq ρ] [Inhabited R] in
theorem SnapshotInv.initial {clock : Nat} (positive : 0 < clock)
    (small : clock ≤ DTS_INF) :
    SnapshotInv (Mvcc.initial clock : State ρ K R) where
  inv := .initial positive small
  readers := by
    intro reader txnID entry impossible
    cases impossible
  published := by
    intro publication impossible
    cases impossible

end Steps

/-! ## Runs -/

/-- If no query fixes its timestamp on a stale copy, every query publishes the
contents of both tables at one commit point. -/
theorem published_consistent [DecidableEq ρ] [LinearOrder K] [LinearOrder R]
    [Inhabited R] {clock : Nat} (positive : 0 < clock)
    (small : clock ≤ DTS_INF) {state : State ρ K R}
    (execution : Execution step UpToDate (Mvcc.initial clock) state) :
    ∀ publication ∈ state.published,
      Consistent state.history state.group.sCtx.lastCTS publication := by
  have snapshot : SnapshotInv state :=
    execution.invariant (.initial positive small)
      fun _ _ _ snapshot upToDate stepped => snapshot.step upToDate stepped
  exact snapshot.published

/-- A query that is overtaken by a commit after its first fetch. -/
def overtakenAfterFetch : List (Action (Fin 1) Nat Nat) :=
  commitBoth 7 10 6 ++ [.start 0 [7], .read 0, .read 0] ++
    commitBoth 7 20 8 ++ [.read 0, .read 0, .read 0, .read 0]

theorem published_consistent_overtakenAfterFetch :
    ∃ (state : State (Fin 1) Nat Nat) (publication : Publication Nat Nat),
      publication ∈ state.published ∧
      Consistent state.history state.group.sCtx.lastCTS publication := by
  have published : ((run (guarded step UpToDate) (Mvcc.initial 1)
      overtakenAfterFetch).bind fun state => state.published[0]?).isSome := by
    decide
  obtain ⟨publication, found⟩ := Option.isSome_iff_exists.mp published
  obtain ⟨state, ran, first⟩ := Option.bind_eq_some_iff.mp found
  have member : publication ∈ state.published := List.mem_of_getElem? first
  exact ⟨state, publication, member, published_consistent (by decide)
    (by decide) (Execution.of_guarded_run ran) publication member⟩

/-- A query that is overtaken between its first lookup and its first fetch: it
takes the read timestamp of a commit its copy does not contain. -/
def overtakenBeforeFetch : List (Action (Fin 1) Nat Nat) :=
  commitBoth 7 10 6 ++ [.start 0 [7], .read 0] ++
    commitBoth 7 20 8 ++ [.read 0, .read 0, .read 0, .read 0, .read 0]

theorem not_published_consistent :
    ¬ ∀ state : State (Fin 1) Nat Nat, Reachable step (Mvcc.initial 1) state →
      ∀ publication ∈ state.published,
        Consistent state.history state.group.sCtx.lastCTS publication := by
  intro claimed
  have mixed : ((run step (Mvcc.initial 1) overtakenBeforeFetch).bind
      fun state => state.published[0]?.map fun publication =>
        (publication.mKeys[0]?, publication.tpls 0 0,
          contentsAt state.history publication.readCTS 0 7)) =
      some (some 7, some 10, some 20) := by
    decide
  obtain ⟨state, ran, read⟩ := Option.bind_eq_some_iff.mp mixed
  obtain ⟨publication, first, values⟩ := Option.map_eq_some_iff.mp read
  simp only [Prod.mk.injEq] at values
  have consistent := claimed state (Execution.of_run ran) publication
    (List.mem_of_getElem? first) 0 7 values.1
  obtain ⟨rec, stored, contents⟩ := consistent.2.2 0
  rw [values.2.1, Option.some.injEq] at stored
  rw [values.2.2, ← stored] at contents
  cases contents

end PipeFabric.Mvcc
