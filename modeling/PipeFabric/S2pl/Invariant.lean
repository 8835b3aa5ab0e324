import Mathlib.Algebra.BigOperators.Group.Finset.Piecewise
import Mathlib.Algebra.Order.BigOperators.Group.Finset
import Mathlib.Data.Fintype.Basic
import PipeFabric.S2pl.System

/-!
# Who holds which lock

The keys a reader has locked can be told from its program point, and so can the
keys whose exclusive flag the writer may have set.  The invariant compares both
with the lock tables.
-/

namespace PipeFabric.S2pl

open FromTxTables

variable {ρ K R : Type}

/-- The keys on table `i` whose shared locks a query has to give back. -/
def ReaderPC.heldKeys (mKeys : List K) (i : TableID) : ReaderPC K → List K
  | .lockShared cursor => mKeys.take (cursor.readsOf i)
  | .get cursor key =>
    mKeys.take (cursor.readsOf i) ++ if i = cursor.i then [key] else []
  | .unlockShared cursor key =>
    mKeys.take (cursor.readsOf i) ++ if i = cursor.i then [key] else []
  | .cleanUp _ todo later => if i = 0 then todo else later
  | .publish => mKeys
  | .idle => []
  | .restart => []
  | .removeTx => []

/-- The reads whose records are in `tpls`, under the locks. -/
def ReaderPC.Read (i : TableID) (j : Nat) : ReaderPC K → Prop
  | .lockShared cursor => cursor.Passed j i
  | .get cursor _ => cursor.Passed j i
  | .publish => True
  | _ => False

/-- The key that is being read is the one at the cursor. -/
def ReaderPC.AtKey (mKeys : List K) : ReaderPC K → Prop
  | .get cursor key => mKeys[cursor.j]? = some key
  | _ => True

/-- The keys on table `i` whose exclusive flag may be set. -/
def WriterPC.locked (tables : TableID → Table K R) (i : TableID) :
    WriterPC K R → List K
  | .active _ => (tables i).wKeysLocked
  | .wait _ tblID key _ =>
    (tables i).wKeysLocked ++ if i = tblID then [key] else []
  | .insert _ _ _ _ => (tables i).wKeysLocked
  | .unlock _ tblID todo last =>
    if i = tblID then todo else if last then [] else (tables i).wKeysLocked
  | .idle => []
  | .publish _ => []
  | .removeTx _ => []

/-- The key whose flag `lockExclusive` has set for the current insert. -/
def WriterPC.Wants (i : TableID) (key : K) : WriterPC K R → Prop
  | .wait _ tblID wanted _ => i = tblID ∧ key = wanted
  | .insert _ tblID wanted _ => i = tblID ∧ key = wanted
  | _ => False

/-- `lockExclusive` has returned. -/
def WriterPC.Granted (i : TableID) (key : K) : WriterPC K R → Prop
  | .insert _ tblID wanted _ => i = tblID ∧ key = wanted
  | _ => False

theorem WriterPC.Granted.wants {writer : WriterPC K R} {i : TableID} {key : K}
    (granted : writer.Granted i key) : writer.Wants i key := by
  cases writer with
  | insert txnID tblID wanted rec => exact granted
  | _ => cases granted

def WriterPC.Unlocking : WriterPC K R → Prop
  | .unlock _ _ _ _ => True
  | _ => False

section Invariant

variable [DecidableEq K]

/-- A query: its locks, and the records it has read are the stored ones. -/
structure ReaderOk (tables : TableID → Table K R) (this : Reader K R) :
    Prop where
  held : ∀ i key,
    this.held i key = (this.pc.heldKeys this.query.mKeys i).count key
  atKey : this.pc.AtKey this.query.mKeys
  values : ∀ i j key, this.query.mKeys[j]? = some key → this.pc.Read i j →
    ∃ rec, this.query.tpls i j = some rec ∧
      (tables i).tbl.getByKey key = some rec

/-- All records of a query are those of one committed state. -/
def Serial (history : List (Writes K R)) (query : Query K R) : Prop :=
  ∃ older, older <:+ history ∧
    ∀ i j key, query.mKeys[j]? = some key →
      ∃ rec, query.tpls i j = some rec ∧ stateAfter older i key = some rec

variable [Fintype ρ]

structure Inv (state : State ρ K R) : Prop where
  counts : ∀ i key,
    ((state.group.regStates i).locks.locks key).active_readers =
      ∑ reader, (state.readers reader).held i key
  readers : ∀ reader, ReaderOk state.group.regStates (state.readers reader)
  flagged : ∀ i key,
    ((state.group.regStates i).locks.locks key).active_writer = true →
      key ∈ state.writer.locked state.group.regStates i
  wants : ∀ i key, state.writer.Wants i key →
    ((state.group.regStates i).locks.locks key).active_writer = true
  granted : ∀ i key, state.writer.Granted i key →
    ((state.group.regStates i).locks.locks key).active_readers = 0
  exclusive : ∀ i key, key ∈ (state.written i).map Prod.fst →
    ((state.group.regStates i).locks.locks key).active_writer = true ∧
      ((state.group.regStates i).locks.locks key).active_readers = 0
  committed : state.writer.Unlocking → ∀ i, state.written i = []
  contents : ∀ i, (state.group.regStates i).tbl.getByKey =
    WriteFold.overwrite (stateAfter state.history i) (state.written i)
  published : ∀ query ∈ state.published, Serial state.history query

end Invariant

/-! ## The locks of a query -/

/-- What was read is still locked. -/
theorem ReaderPC.mem_heldKeys {pc : ReaderPC K} {mKeys : List K} {i : TableID}
    {j : Nat} {key : K} (position : mKeys[j]? = some key) (read : pc.Read i j) :
    key ∈ pc.heldKeys mKeys i := by
  have taken : ∀ cursor : Cursor, cursor.Passed j i →
      key ∈ mKeys.take (cursor.readsOf i) := by
    intro cursor passed
    rw [Cursor.passed_iff] at passed
    apply List.mem_of_getElem? (i := j)
    rw [List.getElem?_take_of_lt passed]
    exact position
  cases pc with
  | lockShared cursor => exact taken cursor read
  | get cursor other => exact List.mem_append_left _ (taken cursor read)
  | publish => exact List.mem_of_getElem? position
  | idle => cases read
  | unlockShared cursor other => cases read
  | cleanUp again todo later => cases read
  | restart => cases read
  | removeTx => cases read

/-- The read at the cursor leaves its lock to the reads before the next one. -/
theorem heldKeys_next {cursor : Cursor} {mKeys : List K} {key : K}
    (position : mKeys[cursor.j]? = some key) (i : TableID) :
    (ReaderPC.lockShared cursor.next).heldKeys mKeys i =
      (ReaderPC.get cursor key).heldKeys mKeys i := by
  simp only [ReaderPC.heldKeys, Cursor.readsOf_next]
  by_cases here : i = cursor.i
  · subst here
    rw [if_pos rfl, if_pos rfl, Cursor.readsOf_self, List.take_add_one,
      position]
    rfl
  · rw [if_neg here, if_neg here, List.append_nil]

section Counts

variable [DecidableEq K]

theorem count_cons_key (key other : K) (todo : List K) :
    ((key :: todo).count other : Int) =
      (todo.count other : Int) + if other = key then 1 else 0 := by
  by_cases same : other = key
  · subst same
    simp
  · simp [same, Ne.symm same]

@[simp] theorem Reader.count_query (this : Reader K R)
    (tblID : TableID) (key : K) (n : Int) :
    (this.count tblID key n).query = this.query := rfl

/-- Taking and giving back one lock. -/
theorem Reader.count_held (this : Reader K R) (tblID i : TableID)
    (key other : K) (n : Int) :
    (this.count tblID key n).held i other =
      this.held i other + if i = tblID ∧ other = key then n else 0 := by
  unfold Reader.count
  by_cases table : i = tblID
  · subst table
    by_cases same : other = key
    · subst same
      simp
    · simp [same]
  · simp [table]

variable [Fintype ρ] {state : State ρ K R}

theorem Inv.held_nonneg (inv : Inv state) (reader : ρ) (i : TableID) (key : K) :
    0 ≤ (state.readers reader).held i key := by
  rw [(inv.readers reader).held]
  exact Int.natCast_nonneg _

theorem Inv.readers_nonneg (inv : Inv state) (i : TableID) (key : K) :
    0 ≤ ((state.group.regStates i).locks.locks key).active_readers := by
  rw [inv.counts]
  apply Finset.sum_nonneg
  intro reader _
  exact inv.held_nonneg reader i key

/-- If the counter is zero nobody holds the lock. -/
theorem Inv.held_eq_zero (inv : Inv state) {i : TableID} {key : K}
    (free : ((state.group.regStates i).locks.locks key).active_readers = 0)
    (reader : ρ) : (state.readers reader).held i key = 0 := by
  rw [inv.counts] at free
  have nonneg : ∀ other ∈ Finset.univ,
      0 ≤ (state.readers other).held i key := by
    intro other _
    exact inv.held_nonneg other i key
  exact (Finset.sum_eq_zero_iff_of_nonneg nonneg).mp free reader
    (Finset.mem_univ reader)

/-- A key without readers was not read by a query that is still running. -/
theorem Inv.not_read (inv : Inv state) {i : TableID} {key : K}
    (free : ((state.group.regStates i).locks.locks key).active_readers = 0)
    {reader : ρ} {j : Nat}
    (position : (state.readers reader).query.mKeys[j]? = some key) :
    ¬ (state.readers reader).pc.Read i j := by
  intro read
  have held := inv.held_eq_zero free reader
  rw [(inv.readers reader).held] at held
  have absent := List.count_eq_zero.mp (Int.natCast_eq_zero.mp held)
  exact absent (ReaderPC.mem_heldKeys position read)

omit [DecidableEq K] in
/-- The counters follow one reader. -/
theorem sum_held_update [DecidableEq ρ] (readers : ρ → Reader K R) (reader : ρ)
    (value : Reader K R) (i : TableID) (key : K) :
    ∑ other, (Function.update readers reader value other).held i key =
      (∑ other, (readers other).held i key) +
        (value.held i key - (readers reader).held i key) := by
  have pointwise : ∀ other,
      (Function.update readers reader value other).held i key =
        Function.update (fun other => (readers other).held i key) reader
          (value.held i key) other := by
    intro other
    by_cases same : other = reader
    · subst same
      simp
    · simp [same]
  rw [Finset.sum_congr rfl fun other _ => pointwise other,
    Finset.sum_update_of_mem (Finset.mem_univ reader),
    ← Finset.add_sum_erase Finset.univ
      (fun other => (readers other).held i key) (Finset.mem_univ reader),
    Finset.sdiff_singleton_eq_erase]
  omega

end Counts

theorem Serial.grow [DecidableEq K] {history longer : List (Writes K R)}
    {query : Query K R} (grows : history <:+ longer)
    (serial : Serial history query) : Serial longer query := by
  obtain ⟨older, suffix, reads⟩ := serial
  exact ⟨older, suffix.trans grows, reads⟩

theorem Inv.initial [DecidableEq K] [Fintype ρ] (clock : Nat) :
    Inv (initial clock : State ρ K R) := by
  constructor
  · intro i key
    exact Finset.sum_const_zero.symm
  · intro reader
    constructor
    · intro i key
      rfl
    · trivial
    · intro i j key position read
      cases read
  · intro i key flag
    cases flag
  · intro i key wanted
    cases wanted
  · intro i key granted
    cases granted
  · intro i key member
    cases member
  · intro unlocking
    cases unlocking
  · intro i
    rfl
  · intro query member
    cases member

end PipeFabric.S2pl
