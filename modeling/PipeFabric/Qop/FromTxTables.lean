import PipeFabric.Library.TransitionSystem
import PipeFabric.Table.SerialState
import PipeFabric.Table.StateContext

/-!
# The reading operator

`FromTxTables::start` reads the same keys from both tables, key by key, and
publishes the records when every read succeeded.  The loops `for j` and
`for i` are a cursor `(j, i)`; the local variables of one call are a `Query`.
-/

namespace PipeFabric.FromTxTables

/-- Position in the nested loops: key index and table. -/
structure Cursor where
  j : Nat
  i : TableID
  deriving DecidableEq

namespace Cursor

def first : Cursor := { j := 0, i := 0 }

/-- The inner loop runs over both tables. -/
def next (cursor : Cursor) : Cursor :=
  if cursor.i = 0 then { cursor with i := 1 }
  else { j := cursor.j + 1, i := 0 }

/-- The reads made before the cursor. -/
def Passed (cursor : Cursor) (j : Nat) (i : TableID) : Prop :=
  j < cursor.j ∨ j = cursor.j ∧ i < cursor.i

theorem not_passed_first (j : Nat) (i : TableID) : ¬ first.Passed j i := by
  rintro (before | ⟨_, before⟩)
  · exact absurd before (Nat.not_lt_zero j)
  · exact absurd before (Fin.not_lt_zero i)

theorem passed_next (cursor : Cursor) (j : Nat) (i : TableID) :
    cursor.next.Passed j i ↔
      cursor.Passed j i ∨ j = cursor.j ∧ i = cursor.i := by
  obtain ⟨row, table⟩ := cursor
  have small : i.val < 2 := i.isLt
  rcases Fin.exists_fin_two.mp ⟨table, rfl⟩ with zero | one
  · subst zero
    simp only [next, Passed, if_true, Fin.lt_def, Fin.ext_iff, Fin.val_zero,
      Fin.val_one]
    omega
  · subst one
    simp only [next, Passed, one_ne_zero, if_false, Fin.lt_def, Fin.ext_iff,
      Fin.val_zero, Fin.val_one]
    omega

/-- `(i > s) ? j+1 : j`, the number of keys read from table `s` before. -/
def readsOf (cursor : Cursor) (s : TableID) : Nat :=
  if cursor.i > s then cursor.j + 1 else cursor.j

theorem passed_iff (cursor : Cursor) (j : Nat) (i : TableID) :
    cursor.Passed j i ↔ j < cursor.readsOf i := by
  unfold Passed readsOf
  by_cases before : i < cursor.i
  · simp [before]
    omega
  · simp [before]

/-- Moving on counts the read made at the cursor. -/
theorem readsOf_next (cursor : Cursor) (s : TableID) :
    cursor.next.readsOf s =
      if s = cursor.i then cursor.readsOf s + 1 else cursor.readsOf s := by
  obtain ⟨row, table⟩ := cursor
  rcases Fin.exists_fin_two.mp ⟨table, rfl⟩ with zero | one <;>
    rcases Fin.exists_fin_two.mp ⟨s, rfl⟩ with first | second <;>
    subst_vars <;> simp [next, readsOf]

theorem readsOf_self (cursor : Cursor) : cursor.readsOf cursor.i = cursor.j := by
  simp [readsOf]

end Cursor

structure Query (K R : Type) where
  mTxnID : Nat
  mKeys : List K
  tpls : TableID → Nat → Option R

namespace Query

variable {K R : Type}

/-- `tpls[i][j]` is set. -/
def store (query : Query K R) (cursor : Cursor) (rec : R) : Query K R :=
  { query with
    tpls := Function.update query.tpls cursor.i
      (Function.update (query.tpls cursor.i) cursor.j (some rec)) }

theorem store_tpls (query : Query K R) (cursor : Cursor) (rec : R)
    (i : TableID) (j : Nat) :
    (query.store cursor rec).tpls i j =
      if j = cursor.j ∧ i = cursor.i then some rec else query.tpls i j := by
  unfold store
  by_cases table : i = cursor.i
  · subst i
    by_cases row : j = cursor.j <;> simp [row]
  · simp [table]

end Query

/-- All records are those that the tables hold after the transactions. -/
def Query.ReadsAfter {K R : Type} [DecidableEq K] (query : Query K R)
    (older : List (Writes K R)) : Prop :=
  ∀ i j key, query.mKeys[j]? = some key →
    ∃ rec, query.tpls i j = some rec ∧ stateAfter older i key = some rec

/-- A call of `start` that takes effect at one moment between its beginning and its
end. -/
def Linearized {K R : Type} [DecidableEq K]
    (call : TransitionSystem.Answered (Query K R) (List (Writes K R))) : Prop :=
  ∃ older, call.began <:+ older ∧ older <:+ call.ended ∧ call.answer.ReadsAfter older

/-- What one call of `start` publishes, with the read timestamp it held. -/
structure Publication (K R : Type) where
  readCTS : Nat
  mKeys : List K
  tpls : TableID → Nat → Option R

end PipeFabric.FromTxTables
