import PipeFabric.Mvcc.System
import PipeFabric.Mvcc.VersionChain
import PipeFabric.Table.ActiveTransactions

/-!
# Invariants of the multi-version system

`StoreInv` is about the tables, the writer and the history of commits: every
stored object is a version chain, each of its versions was written by a commit,
and no commit wrote the key while the version was valid.  The transaction whose
commit is under way is exempt for the keys it still has to install.
`TxInv` is about the state context and the owners of its slots.
-/

namespace PipeFabric.Mvcc

variable {ρ K R : Type}

section History

variable [LinearOrder K] [LinearOrder R]

/-- The record a commit leaves for a key. -/
def Commit.record (commit : Commit K R) (tblID : TableID) (key : K) : Option R :=
  ((SortUnique.sortUnique (commit.writes tblID)).find? fun e => e.1 = key).map
    Prod.snd

/-- The contents of the tables at a commit point. -/
def contentsAt (history : List (Commit K R)) (cts : Nat) (tblID : TableID)
    (key : K) : Option R :=
  VersionedHistory.valueAt Commit.txnID (fun commit => commit.record tblID key)
    history cts

theorem Commit.record_of_mem {commit : Commit K R} {tblID : TableID} {e : K × R}
    (member : e ∈ SortUnique.sortUnique (commit.writes tblID)) :
    commit.record tblID e.1 = some e.2 := by
  unfold Commit.record
  cases found : (SortUnique.sortUnique (commit.writes tblID)).find?
      fun other => other.1 = e.1 with
  | none =>
      have absent := List.find?_eq_none.mp found e member
      simp at absent
  | some other =>
      have same : other.1 = e.1 := by simpa using List.find?_some found
      have keys := SortUnique.sortUnique_keys_nodup (commit.writes tblID)
      have equal := List.inj_on_of_nodup_map keys
        (List.mem_of_find?_eq_some found) member same
      rw [equal]
      rfl

theorem Commit.record_eq_none {commit : Commit K R} {tblID : TableID} {key : K}
    (absent : key ∉ (SortUnique.sortUnique (commit.writes tblID)).map Prod.fst) :
    commit.record tblID key = none := by
  unfold Commit.record
  rw [Option.map_eq_none_iff, List.find?_eq_none]
  intro e member same
  apply absent
  simp only [decide_eq_true_eq] at same
  exact List.mem_map.mpr ⟨e, member, same⟩

/-- What holds of the object stored for a key, given the commits so far and
the ids whose write of the key is still pending. -/
structure ObjectOk (history : List (Commit K R)) (pending : Nat → Prop)
    (tblID : TableID) (key : K) (mvcc : MVCCTuple R) : Prop where
  chain : mvcc.VersionChain
  written : ∀ p, mvcc.IsLive p → ∃ commit ∈ history,
    commit.txnID = mvcc.cts p ∧ commit.record tblID key = some (mvcc.values p)
  covered : ∀ p, mvcc.IsLive p → ∀ commit ∈ history,
    mvcc.cts p < commit.txnID → commit.txnID < mvcc.dts p →
    commit.record tblID key = none ∨ pending commit.txnID
  installed : ∀ p, mvcc.IsLive p → ¬ pending (mvcc.cts p)

namespace ObjectOk

variable {history later : List (Commit K R)} {pending still : Nat → Prop}
  {tblID : TableID} {key : K} {mvcc : MVCCTuple R}

/-- The history grows and pending writes change, the object does not. -/
theorem transport (ok : ObjectOk history pending tblID key mvcc)
    (grows : ∀ commit ∈ history, commit ∈ later)
    (new : ∀ commit ∈ later, commit ∉ history →
      commit.record tblID key = none ∨ still commit.txnID)
    (old : ∀ commit ∈ history, pending commit.txnID →
      commit.record tblID key = none ∨ still commit.txnID)
    (installed : ∀ p, mvcc.IsLive p → ¬ still (mvcc.cts p)) :
    ObjectOk later still tblID key mvcc where
  chain := ok.chain
  written := by
    intro p live
    obtain ⟨commit, member, facts⟩ := ok.written p live
    exact ⟨commit, grows commit member, facts⟩
  covered := by
    intro p live commit member after before
    by_cases known : commit ∈ history
    · rcases ok.covered p live commit known after before with silent | waits
      · exact Or.inl silent
      · exact old commit known waits
    · exact new commit member known
  installed := installed

/-- The pending writes of a key only matter through the predicate itself. -/
theorem congr (ok : ObjectOk history pending tblID key mvcc)
    (same : ∀ txnID, still txnID ↔ pending txnID) :
    ObjectOk history still tblID key mvcc :=
  ok.transport (fun _ member => member)
    (fun _ member unknown => absurd member unknown)
    (fun commit _ waits => Or.inr ((same commit.txnID).mpr waits))
    (fun p live waits => ok.installed p live ((same _).mp waits))

theorem first [Inhabited R] {commit : Commit K R} {older : List (Commit K R)}
    {rec : R} (finite : commit.txnID < DTS_INF)
    (newest : ∀ other ∈ older, other.txnID < commit.txnID)
    (writes : commit.record tblID key = some rec)
    (done : ¬ still commit.txnID) :
    ObjectOk (commit :: older) still tblID key (.first commit.txnID rec) := by
  have only : ∀ p, (MVCCObject.first commit.txnID rec : MVCCTuple R).IsLive p →
      p = 0 := by
    intro p live
    by_contra other
    simp [MVCCObject.IsLive, MVCCObject.cts, MVCCObject.dts,
      MVCCObject.first_headers, other, Header.blank] at live
  have start : (MVCCObject.first commit.txnID rec : MVCCTuple R).cts 0 =
      commit.txnID := by
    simp [MVCCObject.cts, MVCCObject.first_headers]
  refine ⟨.first finite, ?_, ?_, ?_⟩
  · intro p live
    rw [only p live, start]
    exact ⟨commit, List.mem_cons_self, rfl,
      by rw [writes, MVCCObject.first_values]⟩
  · intro p live other member after _
    rw [only p live, start] at after
    rcases List.mem_cons.mp member with same | old
    · rw [same] at after
      exact absurd after (Nat.lt_irrefl _)
    · exact absurd (newest other old) (Nat.lt_asymm after)
  · intro p live
    rw [only p live, start]
    exact done

theorem newEntry {commit : Commit K R} {older : List (Commit K R)}
    {iPos dPos : Fin 2} {rec : R}
    (ok : ObjectOk (commit :: older) pending tblID key mvcc)
    (finite : commit.txnID < DTS_INF)
    (newest : ∀ other ∈ older, other.txnID < commit.txnID)
    (isOpen : mvcc.IsOpen dPos) (free : mvcc.isUsed iPos = false)
    (newer : mvcc.cts dPos < commit.txnID)
    (writes : commit.record tblID key = some rec)
    (only : ∀ txnID, pending txnID → txnID = commit.txnID)
    (done : ∀ txnID, ¬ still txnID) :
    ObjectOk (commit :: older) still tblID key
      (mvcc.newEntry commit.txnID iPos dPos rec) := by
  have dead : ¬ mvcc.IsLive iPos := by
    rw [← ok.chain.isUsed, free]
    exact Bool.false_ne_true
  have apart : iPos ≠ dPos := fun same => dead (same ▸ isOpen.1)
  have live := MVCCObject.VersionChain.newEntry_isLive rec
    isOpen dead newer finite
  refine ⟨ok.chain.newEntry (by omega) isOpen dead newer finite, ?_, ?_,
    fun _ _ => done _⟩
  · intro p isLive
    rw [MVCCObject.newEntry_cts, MVCCObject.newEntry_values]
    by_cases opening : p = iPos
    · simp only [opening, if_true]
      exact ⟨commit, List.mem_cons_self, rfl, writes⟩
    · simp only [opening, if_false]
      rcases (live p).mp isLive with before | same
      · exact ok.written p before
      · exact absurd same opening
  · intro p isLive other member after before
    rw [MVCCObject.newEntry_cts] at after
    rw [MVCCObject.newEntry_dts] at before
    rcases (live p).mp isLive with old | same
    · have notNew : p ≠ iPos := fun same => dead (same ▸ old)
      simp only [notNew, if_false] at after before
      have ends : other.txnID < mvcc.dts p ∧ other.txnID ≠ commit.txnID := by
        by_cases closing : p = dPos
        · simp only [closing, if_true] at before
          rw [closing, isOpen.2]
          omega
        · simp only [closing, if_false] at before
          have bound := ok.chain.dts_le_open isOpen old closing
          omega
      rcases ok.covered p old other member after ends.1 with silent | waits
      · exact Or.inl silent
      · exact absurd (only _ waits) ends.2
    · simp only [same, if_true, apart, if_false] at after before
      exfalso
      rcases List.mem_cons.mp member with head | tail
      · rw [head] at after
        exact Nat.lt_irrefl _ after
      · exact Nat.lt_asymm after (newest other tail)

theorem cleanUpVersions {oldest : Nat}
    (ok : ObjectOk history pending tblID key mvcc) (finite : oldest < DTS_INF) :
    ObjectOk history pending tblID key (mvcc.cleanUpVersions oldest) := by
  have live : ∀ p, (mvcc.cleanUpVersions oldest).IsLive p ↔
      mvcc.IsLive p ∧ oldest < mvcc.dts p :=
    MVCCObject.VersionChain.cleanUpVersions_isLive
  refine ⟨ok.chain.cleanUpVersions finite, ?_, ?_, ?_⟩
  · intro p isLive
    obtain ⟨before, kept⟩ := (live p).mp isLive
    rw [MVCCObject.cleanUpVersions_cts kept, MVCCObject.cleanUpVersions_values]
    exact ok.written p before
  · intro p isLive
    obtain ⟨before, kept⟩ := (live p).mp isLive
    rw [MVCCObject.cleanUpVersions_cts kept, MVCCObject.cleanUpVersions_dts kept]
    exact ok.covered p before
  · intro p isLive
    obtain ⟨before, kept⟩ := (live p).mp isLive
    rw [MVCCObject.cleanUpVersions_cts kept]
    exact ok.installed p before

end ObjectOk

end History

/-! ## The store -/

/-- The transaction the writer is working on. -/
def WriterPC.txn : WriterPC K R → Option Nat
  | .idle => none
  | .active txnID => some txnID
  | .install txnID _ _ _ => some txnID
  | .wait txnID _ _ _ _ _ => some txnID
  | .publish txnID => some txnID
  | .removeTx txnID => some txnID

/-- The writer still has to install the key in the table.  Before the second
table is entered, all its keys count. -/
def WriterPC.Pending : WriterPC K R → TableID → K → Nat → Prop
  | .install txnID tblID todo last, i, key, t =>
      t = txnID ∧
        (i = tblID ∧ key ∈ todo.map Prod.fst ∨ last = false ∧ i = otherID tblID)
  | .wait txnID tblID e _ todo last, i, key, t =>
      t = txnID ∧
        (i = tblID ∧ key ∈ (e :: todo).map Prod.fst ∨
          last = false ∧ i = otherID tblID)
  | _, _, _, _ => False

section Store

variable [LinearOrder K] [LinearOrder R]

/-- The commit under way is the newest one, and not published yet. -/
structure Committing (history : List (Commit K R)) (lastCTS txnID : Nat) :
    Prop where
  newer : lastCTS < txnID
  head : ∃ commit older, history = commit :: older ∧ commit.txnID = txnID ∧
    ∀ other ∈ older, other.txnID ≤ lastCTS

/-- What is left to install comes from the commit under way. -/
structure TodoOk (history : List (Commit K R)) (tblID : TableID)
    (todo : List (K × R)) : Prop where
  distinct : (todo.map Prod.fst).Nodup
  fromCommit : ∀ commit older, history = commit :: older →
    ∀ e ∈ todo, commit.record tblID e.1 = some e.2

theorem TodoOk.tail {history : List (Commit K R)} {tblID : TableID} {e : K × R}
    {todo : List (K × R)} (ok : TodoOk history tblID (e :: todo)) :
    TodoOk history tblID todo where
  distinct := (List.nodup_cons.mp ok.distinct).2
  fromCommit := fun commit older equal other member =>
    ok.fromCommit commit older equal other (List.mem_cons_of_mem e member)

/-- The write set of a table that is not in use. -/
def Clean (tables : TableID → MVCCTable K R) (tblID : TableID) : Prop :=
  (tables tblID).writeSet = { txnID := 0, set := [] }

/-- The write set of a table belongs to the transaction or to nobody. -/
def OwnedBy (tables : TableID → MVCCTable K R) (txnID : Nat) : Prop :=
  ∀ i, (tables i).writeSet.txnID = 0 ∨ (tables i).writeSet.txnID = txnID

/-- The second table of a commit: still unread, or cleaned already. -/
def OtherTable (tables : TableID → MVCCTable K R) (history : List (Commit K R))
    (tblID : TableID) (last : Bool) : Prop :=
  if last then Clean tables (otherID tblID)
  else ∀ commit older, history = commit :: older →
    (tables (otherID tblID)).writeSet.set = commit.writes (otherID tblID)

/-- What holds at each program point of the writer. -/
def WriterPhase (tables : TableID → MVCCTable K R)
    (history : List (Commit K R)) (lastCTS : Nat) : WriterPC K R → Prop
  | .idle =>
      (∀ commit ∈ history, commit.txnID ≤ lastCTS) ∧ ∀ i, Clean tables i
  | .active txnID =>
      (∀ commit ∈ history, commit.txnID ≤ lastCTS) ∧ lastCTS < txnID ∧
        OwnedBy tables txnID
  | .install txnID tblID todo last =>
      Committing history lastCTS txnID ∧ OwnedBy tables txnID ∧
        TodoOk history tblID todo ∧ OtherTable tables history tblID last
  | .wait txnID tblID e dPos todo last =>
      Committing history lastCTS txnID ∧ OwnedBy tables txnID ∧
        TodoOk history tblID (e :: todo) ∧
        OtherTable tables history tblID last ∧
        ∃ mvcc, (tables tblID).tbl.getByKey e.1 = some mvcc ∧ mvcc.IsOpen dPos
  | .publish txnID =>
      Committing history lastCTS txnID ∧ ∀ i, Clean tables i
  | .removeTx txnID =>
      (∀ commit ∈ history, commit.txnID ≤ lastCTS) ∧ lastCTS = txnID ∧
        ∀ i, Clean tables i

structure StoreInv (tables : TableID → MVCCTable K R) (writer : WriterPC K R)
    (history : List (Commit K R)) (lastCTS nextTxID : Nat) : Prop where
  newestFirst : VersionedHistory.NewestFirst Commit.txnID history
  stamped : ∀ commit ∈ history, 0 < commit.txnID ∧ commit.txnID < nextTxID
  lastOld : lastCTS < nextTxID
  last : lastCTS = 0 ∨ ∃ commit ∈ history, commit.txnID = lastCTS
  phase : WriterPhase tables history lastCTS writer
  objects : ∀ i key mvcc, (tables i).tbl.getByKey key = some mvcc →
    ObjectOk history (writer.Pending i key) i key mvcc

omit [LinearOrder K] [LinearOrder R] in
theorem Committing.unpublished {history : List (Commit K R)}
    {lastCTS txnID : Nat} (committing : Committing history lastCTS txnID)
    {commit : Commit K R} (member : commit ∈ history) :
    commit.txnID ≤ lastCTS ∨ commit.txnID = txnID := by
  obtain ⟨head, older, rfl, stamp, published⟩ := committing.head
  rcases List.mem_cons.mp member with same | old
  · exact Or.inr (same ▸ stamp)
  · exact Or.inl (published commit old)

/-- The transaction under way is newer than everything in the history, but for
its own commit. -/
theorem StoreInv.history_le {tables : TableID → MVCCTable K R}
    {writer : WriterPC K R} {history : List (Commit K R)}
    {lastCTS nextTxID : Nat}
    (inv : StoreInv tables writer history lastCTS nextTxID)
    {commit : Commit K R} (member : commit ∈ history) :
    commit.txnID ≤ lastCTS ∨ writer.txn = some commit.txnID := by
  have phase := inv.phase
  cases writer with
  | idle => exact Or.inl (phase.1 commit member)
  | active txnID => exact Or.inl (phase.1 commit member)
  | install txnID tblID todo last =>
      exact (phase.1.unpublished member).imp_right fun same =>
        congrArg some same.symm
  | wait txnID tblID e dPos todo last =>
      exact (phase.1.unpublished member).imp_right fun same =>
        congrArg some same.symm
  | publish txnID =>
      exact (phase.1.unpublished member).imp_right fun same =>
        congrArg some same.symm
  | removeTx txnID => exact Or.inl (phase.1 commit member)

/-- Write sets are owned by the writer's transaction. -/
theorem StoreInv.writeSet_owner {tables : TableID → MVCCTable K R}
    {writer : WriterPC K R} {history : List (Commit K R)}
    {lastCTS nextTxID : Nat}
    (inv : StoreInv tables writer history lastCTS nextTxID) (i : TableID) :
    (tables i).writeSet.txnID = 0 ∨
      writer.txn = some (tables i).writeSet.txnID := by
  have phase := inv.phase
  have unowned : Clean tables i → (tables i).writeSet.txnID = 0 := by
    intro clean
    rw [clean]
  cases writer with
  | idle => exact Or.inl (unowned (phase.2 i))
  | active txnID =>
      exact (phase.2.2 i).imp_right fun same => congrArg some same.symm
  | install txnID tblID todo last =>
      exact (phase.2.1 i).imp_right fun same => congrArg some same.symm
  | wait txnID tblID e dPos todo last =>
      exact (phase.2.1 i).imp_right fun same => congrArg some same.symm
  | publish txnID => exact Or.inl (unowned (phase.2 i))
  | removeTx txnID => exact Or.inl (unowned (phase.2.2 i))

omit [LinearOrder K] [LinearOrder R] in
theorem WriterPC.Pending.txn {writer : WriterPC K R} {i : TableID} {key : K}
    {t : Nat} (waits : writer.Pending i key t) : writer.txn = some t := by
  cases writer with
  | install txnID tblID todo last => exact congrArg some waits.1.symm
  | wait txnID tblID e dPos todo last => exact congrArg some waits.1.symm
  | idle => cases waits
  | active txnID => cases waits
  | publish txnID => cases waits
  | removeTx txnID => cases waits

theorem StoreInv.counter_mono {tables : TableID → MVCCTable K R}
    {writer : WriterPC K R} {history : List (Commit K R)}
    {lastCTS nextTxID later : Nat}
    (inv : StoreInv tables writer history lastCTS nextTxID)
    (grows : nextTxID ≤ later) :
    StoreInv tables writer history lastCTS later where
  newestFirst := inv.newestFirst
  stamped := fun commit member =>
    ⟨(inv.stamped commit member).1,
      Nat.lt_of_lt_of_le (inv.stamped commit member).2 grows⟩
  lastOld := Nat.lt_of_lt_of_le inv.lastOld grows
  last := inv.last
  phase := inv.phase
  objects := inv.objects

end Store

end PipeFabric.Mvcc
