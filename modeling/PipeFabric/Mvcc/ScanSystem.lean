import PipeFabric.Mvcc.Reachable
import PipeFabric.Qop.SelectFromMVCCTable

/-!
# Scans next to the writer and the readers

The system gets any number of scans.  Their atomic steps are taking the id, making
the iterator, advancing it with the copy of the entry, and looking up the version
in the copy.
-/

namespace PipeFabric.Mvcc

open SelectFromMVCCTable

variable {ρ σ K R : Type}

structure ScanState (ρ σ K R : Type) where
  system : State ρ K R
  scans : σ → Scan K R

inductive ScanAction (ρ σ K R : Type) where
  | system (action : Action ρ K R)
  | start (scan : σ) (mTable : TableID)
  | select (scan : σ)
  | advance (scan : σ) (next : Option K)
  | lookup (scan : σ)

namespace ScanState

def initial (clock : Nat) : ScanState ρ σ K R :=
  { system := Mvcc.initial clock, scans := fun _ => .initial }

/-- The table a scan goes through. -/
def scanned (state : ScanState ρ σ K R) (scan : Scan K R) :
    CuckooTable K (MVCCTuple R) :=
  (state.system.group.regStates scan.mTable).tbl

variable [DecidableEq σ]

def setScan (state : ScanState ρ σ K R) (scan : σ) (value : Scan K R) :
    ScanState ρ σ K R :=
  { state with scans := Function.update state.scans scan value }

variable [DecidableEq ρ] [LinearOrder K] [LinearOrder R] [Inhabited R]

def step (state : ScanState ρ σ K R) :
    ScanAction ρ σ K R → Option (ScanState ρ σ K R)
  | .system action => do
    let system ← Mvcc.step state.system action
    return { state with system := system }
  | .start scan mTable =>
    match (state.scans scan).pc with
    | .idle => do
      let (started, sCtx) ← Scan.start mTable state.system.group.sCtx
      return { state with
        system := { state.system with
          group := state.system.group.setCtx sCtx } }.setScan scan started
    | _ => none
  | .select scan =>
    let running := state.scans scan
    match running.pc with
    | .select => some (state.setScan scan (running.select (state.scanned running)))
    | _ => none
  | .advance scan next =>
    let running := state.scans scan
    match running.pc with
    | .advance => do
      let moved ← running.advance (state.scanned running) next
      return state.setScan scan moved
    | _ => none
  | .lookup scan =>
    let running := state.scans scan
    match running.pc with
    | .lookup mvccObj => do
      let moved ← running.lookup mvccObj
      return state.setScan scan moved
    | _ => none

end ScanState

/-! ## What a scan asks of the steps around it -/

/-- The commit, or a later one up to the id, has installed a version. -/
def Installed (mvcc : MVCCTuple R) (mTxnID : Nat) (commit : Commit K R) : Prop :=
  ∃ p, commit.txnID ≤ mvcc.cts p ∧ mvcc.cts p ≤ mTxnID

instance (mvcc : MVCCTuple R) (mTxnID : Nat) (commit : Commit K R) :
    Decidable (Installed mvcc mTxnID commit) :=
  inferInstanceAs (Decidable (∃ _, _))

section Conditions

variable [LinearOrder K] [LinearOrder R]

/-- The commits up to the id of a scan that write a key of its table. -/
def WritesBefore (history : List (Commit K R)) (scan : Scan K R) (key : K)
    (commit : Commit K R) : Prop :=
  commit ∈ history ∧ commit.txnID ≤ scan.mTxnID ∧
    (commit.record scan.mTable key).isSome

/-- The scan moves to a key that has been written up to its id.  Where a commit up
to its id writes both this key and one it has met, it has installed both by the
time the scan gets there, or none. -/
def MeetsSnapshot (history : List (Commit K R)) (scan : Scan K R) (key : K)
    (mvccObj : MVCCTuple R) : Prop :=
  (∃ commit, WritesBefore history scan key commit) ∧
    ∀ commit, WritesBefore history scan key commit → ∀ e ∈ scan.visited,
      WritesBefore history scan e.1 commit →
      (Installed e.2 scan.mTxnID commit ↔
        Installed mvccObj scan.mTxnID commit)

/-- A commit up to the id of the scan that writes a key the scan has not met has
installed none of the keys it has met. -/
def EndsSnapshot (history : List (Commit K R)) (scan : Scan K R) : Prop :=
  ∀ commit key, WritesBefore history scan key commit → key ∉ scan.keys →
    ∀ e ∈ scan.visited, WritesBefore history scan e.1 commit →
      ¬ Installed e.2 scan.mTxnID commit

/-- A clean-up of a key leaves the version valid at the id of every running scan
that has still to meet the key. -/
def CleanUpKeeps (state : ScanState ρ σ K R) : Prop :=
  match state.system.writer with
  | .wait txnID tblID e _ _ _ =>
    ∀ mvcc ∈ (state.system.group.regStates tblID).tbl.getByKey e.1,
      mvcc.freeSlot = none →
      ∀ scan, (state.scans scan).Running → (state.scans scan).mTable = tblID →
        e.1 ∉ (state.scans scan).keys →
        ∀ p, mvcc.ValidAt (state.scans scan).mTxnID p →
          (state.system.group.sCtx.recalcOldestVisible txnID).1 < mvcc.dts p
  | _ => True

/-- No step comes between a scan and its snapshot. -/
def Undisturbed (state : ScanState ρ σ K R) : ScanAction ρ σ K R → Prop
  | .system .write => CleanUpKeeps state
  | .advance scan (some key) =>
    ∀ mvccObj ∈ (state.scanned (state.scans scan)).getByKey key,
      MeetsSnapshot state.system.history (state.scans scan) key mvccObj
  | .advance scan none =>
    EndsSnapshot state.system.history (state.scans scan)
  | _ => True

/-- The iterators are those of the cuckoo table. -/
def IteratorsOk (state : ScanState ρ σ K R) : ScanAction ρ σ K R → Prop
  | .advance scan next => IteratorOk (state.scans scan) next
  | _ => True

section Decidable

variable [Fintype K] [Fintype σ]

instance (history : List (Commit K R)) (scan : Scan K R) (key : K)
    (mvccObj : MVCCTuple R) :
    Decidable (MeetsSnapshot history scan key mvccObj) :=
  decidable_of_iff
    ((∃ commit ∈ history, commit.txnID ≤ scan.mTxnID ∧
        (commit.record scan.mTable key).isSome) ∧
      ∀ commit ∈ history, commit.txnID ≤ scan.mTxnID ∧
        (commit.record scan.mTable key).isSome → ∀ e ∈ scan.visited,
        (commit.record scan.mTable e.1).isSome →
        (Installed e.2 scan.mTxnID commit ↔
          Installed mvccObj scan.mTxnID commit))
    (by
      unfold MeetsSnapshot WritesBefore
      constructor
      · intro meets
        refine ⟨meets.1, ?_⟩
        intro commit writes e visited met
        exact meets.2 commit writes.1 writes.2 e visited met.2.2
      · intro meets
        refine ⟨meets.1, ?_⟩
        intro commit member writes e visited met
        exact meets.2 commit ⟨member, writes⟩ e visited ⟨member, writes.1, met⟩)

instance (history : List (Commit K R)) (scan : Scan K R) :
    Decidable (EndsSnapshot history scan) :=
  decidable_of_iff
    (∀ commit ∈ history, ∀ key, commit.txnID ≤ scan.mTxnID ∧
      (commit.record scan.mTable key).isSome → key ∉ scan.keys →
      ∀ e ∈ scan.visited, (commit.record scan.mTable e.1).isSome →
      ¬ Installed e.2 scan.mTxnID commit)
    (by
      unfold EndsSnapshot WritesBefore
      constructor
      · exact fun ends commit key writes notMet e visited met =>
          ends commit writes.1 key writes.2 notMet e visited met.2.2
      · exact fun ends commit member key writes notMet e visited met =>
          ends commit key ⟨member, writes⟩ notMet e visited
            ⟨member, writes.1, met⟩)

instance (mvcc : MVCCTuple R) (txnID : Nat) (p : Fin 2) :
    Decidable (mvcc.ValidAt txnID p) :=
  inferInstanceAs (Decidable (_ ∧ _ ∧ _))

instance (state : ScanState ρ σ K R) : Decidable (CleanUpKeeps state) := by
  unfold CleanUpKeeps
  split
  · infer_instance
  · infer_instance

instance (state : ScanState ρ σ K R) (action : ScanAction ρ σ K R) :
    Decidable (Undisturbed state action) :=
  match action with
  | .system .write => inferInstanceAs (Decidable (CleanUpKeeps state))
  | .advance scan (some key) => inferInstanceAs (Decidable
      (∀ mvccObj ∈ (state.scanned (state.scans scan)).getByKey key,
        MeetsSnapshot state.system.history (state.scans scan) key mvccObj))
  | .advance scan none => inferInstanceAs (Decidable
      (EndsSnapshot state.system.history (state.scans scan)))
  | .system .newTx => isTrue trivial
  | .system (.transactionBegin _) => isTrue trivial
  | .system (.insert _ _ _) => isTrue trivial
  | .system (.transactionPreCommit _) => isTrue trivial
  | .system (.start _ _) => isTrue trivial
  | .system (.read _) => isTrue trivial
  | .start _ _ => isTrue trivial
  | .select _ => isTrue trivial
  | .lookup _ => isTrue trivial

instance (state : ScanState ρ σ K R) (action : ScanAction ρ σ K R) :
    Decidable (IteratorsOk state action) :=
  match action with
  | .advance _ _ => inferInstanceAs (Decidable (IteratorOk _ _))
  | .system _ => isTrue trivial
  | .start _ _ => isTrue trivial
  | .select _ => isTrue trivial
  | .lookup _ => isTrue trivial

end Decidable

end Conditions

end PipeFabric.Mvcc
