import PipeFabric.Library.WriteFold

/-!
# Storage below the transactional tables

A transactional table stores its records in a table chosen at build time.
`CuckooTable` passes `insert` on to libcuckoo, which keeps the stored value of
an existing key.  `OverwritingTable` is the storage `insert` is documented to
be: the new record replaces the old one.
-/

namespace PipeFabric

/-- What the transactional tables use of the storage below them. -/
class UnderlyingTable (Tbl : Type) (K R : outParam Type) where
  empty : Tbl
  insert : Tbl → K → R → Tbl
  /-- Also returns the number of deleted tuples. -/
  deleteByKey : Tbl → K → Nat × Tbl
  getByKey : Tbl → K → Option R

/-- The loop over a write set that inserts entry after entry. -/
def UnderlyingTable.insertAll {Tbl K R : Type} [UnderlyingTable Tbl K R]
    (tbl : Tbl) (set : List (K × R)) : Tbl :=
  set.foldl (fun tbl e => UnderlyingTable.insert tbl e.1 e.2) tbl

theorem UnderlyingTable.insertAll_append {Tbl K R : Type}
    [UnderlyingTable Tbl K R] (tbl : Tbl) (set later : List (K × R)) :
    UnderlyingTable.insertAll tbl (set ++ later) =
      UnderlyingTable.insertAll (UnderlyingTable.insertAll tbl set) later := by
  unfold UnderlyingTable.insertAll
  rw [List.foldl_append]

structure CuckooTable (K R : Type) where
  mDataTable : K → Option R

namespace CuckooTable

variable {K R : Type}

def empty : CuckooTable K R := { mDataTable := fun _ => none }

def getByKey (tbl : CuckooTable K R) (key : K) : Option R := tbl.mDataTable key

variable [DecidableEq K]

/-- `mDataTable.insert(key, rec)`: an existing key keeps its record. -/
def insert (tbl : CuckooTable K R) (key : K) (rec : R) : CuckooTable K R :=
  match tbl.mDataTable key with
  | some _ => tbl
  | none => { mDataTable := Function.update tbl.mDataTable key (some rec) }

/-- Observers of the table are left out. -/
def deleteByKey (tbl : CuckooTable K R) (key : K) : Nat × CuckooTable K R :=
  match tbl.mDataTable key with
  | some _ => (1, { mDataTable := Function.update tbl.mDataTable key none })
  | none => (0, tbl)

/-- The effect of `mDataTable.update_fn(key, ufunc)` on an existing key, where
`rec` is what the updater function makes of the stored record. -/
def update (tbl : CuckooTable K R) (key : K) (rec : R) : CuckooTable K R :=
  { mDataTable := Function.update tbl.mDataTable key (some rec) }

instance : UnderlyingTable (CuckooTable K R) K R where
  empty := empty
  insert := insert
  deleteByKey := deleteByKey
  getByKey := getByKey

theorem getByKey_insert (tbl : CuckooTable K R) (key other : K) (rec : R) :
    (tbl.insert key rec).getByKey other =
      if other = key then some ((tbl.getByKey key).getD rec)
      else tbl.getByKey other := by
  unfold insert getByKey
  cases stored : tbl.mDataTable key with
  | none => simp [Function.update_apply]
  | some old =>
      by_cases here : other = key
      · subst other
        simp [stored]
      · simp [here]

@[simp] theorem getByKey_update (tbl : CuckooTable K R) (key other : K)
    (rec : R) :
    (tbl.update key rec).getByKey other =
      if other = key then some rec else tbl.getByKey other := by
  simp [update, getByKey, Function.update_apply]

theorem getByKey_insertAll (tbl : CuckooTable K R) (set : List (K × R)) :
    (UnderlyingTable.insertAll tbl set).getByKey =
      WriteFold.keepExisting tbl.getByKey set := by
  unfold UnderlyingTable.insertAll WriteFold.keepExisting
  induction set generalizing tbl with
  | nil => rfl
  | cons e set induction =>
      rw [List.foldl_cons, List.foldl_cons, induction]
      congr 1
      funext key
      change (tbl.insert e.1 e.2).getByKey key = _
      rw [getByKey_insert]
      cases stored : tbl.getByKey e.1 with
      | none => simp [Function.update_apply]
      | some old =>
          by_cases here : key = e.1
          · subst key
            simp [stored]
          · simp [here]

end CuckooTable

structure OverwritingTable (K R : Type) where
  contents : K → Option R

namespace OverwritingTable

variable {K R : Type}

def getByKey (tbl : OverwritingTable K R) (key : K) : Option R :=
  tbl.contents key

variable [DecidableEq K]

def insert (tbl : OverwritingTable K R) (key : K) (rec : R) :
    OverwritingTable K R :=
  { contents := Function.update tbl.contents key (some rec) }

def deleteByKey (tbl : OverwritingTable K R) (key : K) :
    Nat × OverwritingTable K R :=
  match tbl.contents key with
  | some _ => (1, { contents := Function.update tbl.contents key none })
  | none => (0, tbl)

instance : UnderlyingTable (OverwritingTable K R) K R where
  empty := { contents := fun _ => none }
  insert := insert
  deleteByKey := deleteByKey
  getByKey := getByKey

@[simp] theorem getByKey_insert (tbl : OverwritingTable K R) (key : K)
    (rec : R) :
    (tbl.insert key rec).getByKey =
      Function.update tbl.getByKey key (some rec) := rfl

end OverwritingTable

end PipeFabric
