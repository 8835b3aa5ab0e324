import PipeFabric.Table.MVCCTable
import PipeFabric.Table.SlotOwners
import Mathlib.Data.Fintype.Defs

/-!
# The scanning operator

`SelectFromMVCCTable::start` takes an id from a counter, which is the one of the
state context here, and goes through the table with an iterator.  It copies every
entry it meets and publishes the record the copy shows at that id.  The optional
predicate is left out.

The iterator belongs to the cuckoo table and holds no lock between two of its
advances.  Which entry comes next is chosen from outside; what the operator
relies on is `IteratorOk`.
-/

namespace PipeFabric.SelectFromMVCCTable

variable {K R : Type}

/-- Program points of `start`. -/
inductive PC (R : Type) where
  | idle
  | select
  | advance
  | lookup (mvccObj : MVCCTuple R)
  | done

def PC.isDone : PC R → Bool
  | .done => true
  | _ => false

theorem PC.isDone_iff {pc : PC R} : pc.isDone = true ↔ pc = .done := by
  cases pc <;> simp [isDone]

/-- The local variables of one call.  `selected` and `visited` describe the
iterator: the table it was made for, and the entries it has stood at, as they were
then. -/
structure Scan (K R : Type) where
  pc : PC R
  mTable : TableID
  mTxnID : Nat
  selected : CuckooTable K (MVCCTuple R)
  visited : List (K × MVCCTuple R)
  published : List R

namespace Scan

def initial : Scan K R :=
  { pc := .idle
    mTable := 0
    mTxnID := 0
    selected := .empty
    visited := []
    published := [] }

/-- The keys the iterator has stood at. -/
def keys (scan : Scan K R) : List K := scan.visited.map Prod.fst

/-- The scan has taken its id and is not over. -/
def Running (scan : Scan K R) : Prop :=
  match scan.pc with
  | .idle => False
  | .done => False
  | _ => True

instance (scan : Scan K R) : Decidable scan.Running :=
  match scan with
  | ⟨.idle, _, _, _, _, _⟩ => isFalse id
  | ⟨.select, _, _, _, _, _⟩ => isTrue trivial
  | ⟨.advance, _, _, _, _, _⟩ => isTrue trivial
  | ⟨.lookup _, _, _, _, _, _⟩ => isTrue trivial
  | ⟨.done, _, _, _, _, _⟩ => isFalse id

/-- `mACnter.fetch_add(1)`. -/
def start (mTable : TableID) (sCtx : StateContext) :
    Option (Scan K R × StateContext) := do
  let (mTxnID, sCtx) ← fetchTS sCtx
  return ({ Scan.initial with
    pc := .select, mTable := mTable, mTxnID := mTxnID }, sCtx)

/-- `mTable->select()`. -/
def select (scan : Scan K R) (tbl : CuckooTable K (MVCCTuple R)) : Scan K R :=
  { scan with pc := .advance, selected := tbl }

/-- The iterator moves to the entry of a key, which is copied, or to the end. -/
def advance (scan : Scan K R) (tbl : CuckooTable K (MVCCTuple R)) :
    Option K → Option (Scan K R)
  | some key => do
    let mvccObj ← tbl.getByKey key
    return { scan with
      pc := .lookup mvccObj
      visited := scan.visited ++ [(key, mvccObj)] }
  | none => some { scan with pc := .done }

/-- Publishes the record of the copy.  The position -1 indexes `values` out of
bounds. -/
def lookup (scan : Scan K R) (mvccObj : MVCCTuple R) : Option (Scan K R) := do
  let pos ← mvccObj.getCurrent scan.mTxnID
  return { scan with
    pc := .advance
    published := scan.published ++ [mvccObj.values pos] }

/-- The scan stands at a copy without a version for it. -/
def lacksVersion (scan : Scan K R) : Bool :=
  match scan.pc with
  | .lookup mvccObj => (mvccObj.getCurrent scan.mTxnID).isNone
  | _ => false

theorem lacksVersion_iff {scan : Scan K R} :
    scan.lacksVersion = true ↔
      ∃ mvccObj, scan.pc = .lookup mvccObj ∧
        mvccObj.getCurrent scan.mTxnID = none := by
  unfold lacksVersion
  cases pc : scan.pc with
  | lookup mvccObj => simp
  | idle => simp
  | select => simp
  | advance => simp
  | done => simp

end Scan

/-- What is known of an iterator: it does not stand twice at a key, and it does not
reach the end before it has stood at every entry that was there at the start. -/
def IteratorOk (scan : Scan K R) : Option K → Prop
  | some key => key ∉ scan.keys
  | none => ∀ key, (scan.selected.getByKey key).isSome → key ∈ scan.keys

instance [DecidableEq K] [Fintype K] (scan : Scan K R) (next : Option K) :
    Decidable (IteratorOk scan next) :=
  match next with
  | some key => inferInstanceAs (Decidable (key ∉ scan.keys))
  | none => inferInstanceAs (Decidable (∀ key,
      (scan.selected.getByKey key).isSome → key ∈ scan.keys))

end PipeFabric.SelectFromMVCCTable
