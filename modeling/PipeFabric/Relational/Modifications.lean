import PipeFabric.Library.FiniteMap

/-!
# Modifications of a relational table

The tables share one interface: records are inserted, updated and deleted by key
or by predicate, each call returns the number of records it has touched, and the
observers of the table are notified of every modified record.  What a call means
is stated on a finite map from keys to records.
-/

namespace PipeFabric

/-- `TableParams::ModificationMode`. -/
inductive ModificationMode where
  | Insert
  | Update
  | Delete
  deriving DecidableEq

/-- A call of the observers.  The record is passed by reference; `none` is a
reference to a record that does not exist any more. -/
structure Notification (Record : Type) where
  mode : ModificationMode
  record : Option Record
  deriving DecidableEq

/-- A call on a table.  An updater function changes the stored record it is given,
and one passed to `updateOrDeleteByKey` also returns whether the record is kept; an
insert function returns the record to insert, if there is a function. -/
inductive TableOp (Key Record Stored : Type) where
  | insert (key : Key) (rec : Record)
  /-- `insert` with a record that may be moved from. -/
  | insertRvalue (key : Key) (rec : Record)
  | deleteByKey (key : Key)
  | deleteWhere (func : Stored → Bool)
  | updateOrDeleteByKey (key : Key) (ufunc : Stored → Stored × Bool)
      (ifunc : Option Record)
  | updateByKey (key : Key) (ufunc : Stored → Stored)
  | updateWhere (pfunc : Stored → Bool) (ufunc : Stored → Stored)

/-- What a call returns, if it returns a number, and the notifications it sends. -/
structure TableAnswer (Record : Type) where
  count : Option Nat
  notifications : List (Notification Record)

namespace TableOp

variable {Key Record Stored : Type}

/-- The records after a call. -/
def apply [DecidableEq Key] (records : Key → Option Record) :
    TableOp Key Record Record → Key → Option Record
  | .insert key rec => Function.update records key (some rec)
  | .insertRvalue key rec => Function.update records key (some rec)
  | .deleteByKey key => Function.update records key none
  | .deleteWhere func => fun key => (records key).filter fun rec => !func rec
  | .updateOrDeleteByKey key ufunc ifunc =>
      match records key with
      | some rec =>
          Function.update records key
            (if (ufunc rec).2 then some (ufunc rec).1 else none)
      | none => Function.update records key ifunc
  | .updateByKey key ufunc => Function.update records key ((records key).map ufunc)
  | .updateWhere pfunc ufunc => fun key =>
      (records key).map fun rec => if pfunc rec then ufunc rec else rec

/-- The keys whose records a call inserts, updates or deletes. -/
def affected (records : Key → Option Stored) : TableOp Key Record Stored → Set Key
  | .insert key _ => {key}
  | .insertRvalue key _ => {key}
  | .deleteByKey key => {other | other = key ∧ (records key).isSome}
  | .deleteWhere func => {key | ∃ rec, records key = some rec ∧ func rec}
  | .updateOrDeleteByKey key _ ifunc =>
      {other | other = key ∧ ((records key).isSome ∨ ifunc.isSome)}
  | .updateByKey key _ => {other | other = key ∧ (records key).isSome}
  | .updateWhere pfunc _ => {key | ∃ rec, records key = some rec ∧ pfunc rec}

/-- What a call returns: the number of keys it affects, if it returns a number. -/
noncomputable def returned (records : Key → Option Stored)
    (op : TableOp Key Record Stored) : Option Nat :=
  match op with
  | .insert _ _ | .insertRvalue _ _ => none
  | .deleteByKey _ | .deleteWhere _ | .updateOrDeleteByKey _ _ _ | .updateByKey _ _
  | .updateWhere _ _ => some (op.affected records).ncard

/-- The call on the stored records, where `store` is what is stored of a record. -/
def stored (store : Record → Stored) :
    TableOp Key Record Stored → TableOp Key Stored Stored
  | .insert key rec => .insert key (store rec)
  | .insertRvalue key rec => .insertRvalue key (store rec)
  | .updateOrDeleteByKey key ufunc ifunc =>
      .updateOrDeleteByKey key ufunc (ifunc.map store)
  | .deleteByKey key => .deleteByKey key
  | .deleteWhere func => .deleteWhere func
  | .updateByKey key ufunc => .updateByKey key ufunc
  | .updateWhere pfunc ufunc => .updateWhere pfunc ufunc

/-- The updater functions leave the key of a record as it is. -/
def KeyPreserving (keyOf : Record → Key) : TableOp Key Record Record → Prop
  | .updateOrDeleteByKey _ ufunc _ => ∀ rec, keyOf (ufunc rec).1 = keyOf rec
  | .updateByKey _ ufunc => ∀ rec, keyOf (ufunc rec) = keyOf rec
  | .updateWhere _ ufunc => ∀ rec, keyOf (ufunc rec) = keyOf rec
  | .insert _ _ | .insertRvalue _ _ | .deleteByKey _ | .deleteWhere _ => True

/-- A record that the call inserts is stored as it is. -/
def KeepsInserted (store : Record → Record) (records : Key → Option Record) :
    TableOp Key Record Record → Prop
  | .insert _ rec => store rec = rec
  | .insertRvalue _ rec => store rec = rec
  | .updateOrDeleteByKey key _ ifunc => records key = none → ∀ rec ∈ ifunc, store rec = rec
  | .deleteByKey _ | .deleteWhere _ | .updateByKey _ _ | .updateWhere _ _ => True

theorem update_eq_iff [DecidableEq Key] (records : Key → Option Record) (key : Key)
    (first second : Option Record) :
    Function.update records key first = Function.update records key second ↔
      first = second :=
  (Function.update_injective records key).eq_iff

theorem apply_stored_eq_iff [DecidableEq Key] (store : Record → Record)
    (records : Key → Option Record) (op : TableOp Key Record Record) :
    (op.stored store).apply records = op.apply records ↔
      op.KeepsInserted store records := by
  cases op with
  | insert key rec =>
      exact (update_eq_iff records key _ _).trans Option.some_inj
  | insertRvalue key rec =>
      exact (update_eq_iff records key _ _).trans Option.some_inj
  | updateOrDeleteByKey key ufunc ifunc =>
      simp only [stored, apply, KeepsInserted]
      cases records key with
      | some rec => simp
      | none =>
          simp only [update_eq_iff, true_implies]
          cases ifunc with
          | some rec => simp
          | none => simp
  | deleteByKey key => exact iff_of_true rfl trivial
  | deleteWhere func => exact iff_of_true rfl trivial
  | updateByKey key ufunc => exact iff_of_true rfl trivial
  | updateWhere pfunc ufunc => exact iff_of_true rfl trivial

theorem affected_stored (store : Record → Stored) (records : Key → Option Stored)
    (op : TableOp Key Record Stored) :
    (op.stored store).affected records = op.affected records := by
  cases op with
  | insert key rec => rfl
  | insertRvalue key rec => rfl
  | deleteByKey key => rfl
  | deleteWhere func => rfl
  | updateOrDeleteByKey key ufunc ifunc => simp [stored, affected]
  | updateByKey key ufunc => rfl
  | updateWhere pfunc ufunc => rfl

theorem update_eq_self_at [DecidableEq Key] {records : Key → Option Record}
    {place key : Key} {value : Option Record} (same : key = place → value = records key) :
    Function.update records place value key = records key := by
  by_cases here : key = place
  · rw [same here, here, Function.update_self]
  · exact Function.update_of_ne here _ _

/-- A call leaves the records of the keys it does not affect. -/
theorem apply_of_notMem_affected [DecidableEq Key] {records : Key → Option Record}
    {op : TableOp Key Record Record} {key : Key} (other : key ∉ op.affected records) :
    op.apply records key = records key := by
  have absent (place : Key) (spared : ¬(key = place ∧ (records place).isSome))
      (here : key = place) : records place = none := by
    rw [← Option.not_isSome_iff_eq_none]
    exact fun present => spared ⟨here, present⟩
  cases op with
  | insert place rec => exact Function.update_of_ne other _ _
  | insertRvalue place rec => exact Function.update_of_ne other _ _
  | deleteByKey place =>
      apply update_eq_self_at
      intro here
      rw [here, absent place other here]
  | deleteWhere func =>
      change (records key).filter (fun rec => !func rec) = records key
      cases found : records key with
      | none => rfl
      | some rec =>
          have kept : ¬func rec = true := fun matched => other ⟨rec, found, matched⟩
          rw [Option.filter_some, if_pos (by simpa using kept)]
  | updateOrDeleteByKey place ufunc ifunc =>
      have spared (here : key = place) : records place = none ∧ ifunc = none := by
        have both := not_or.mp fun some => other ⟨here, some⟩
        exact ⟨Option.not_isSome_iff_eq_none.mp both.1, Option.not_isSome_iff_eq_none.mp both.2⟩
      rw [apply]
      cases found : records place with
      | none =>
          apply update_eq_self_at
          intro here
          rw [here, found, (spared here).2]
      | some rec =>
          apply update_eq_self_at
          intro here
          rw [(spared here).1] at found
          cases found
  | updateByKey place ufunc =>
      apply update_eq_self_at
      intro here
      rw [here, absent place other here, Option.map_none]
  | updateWhere pfunc ufunc =>
      change (records key).map (fun rec => if pfunc rec then ufunc rec else rec) = records key
      cases found : records key with
      | none => rfl
      | some rec =>
          have kept : ¬pfunc rec = true := fun matched => other ⟨rec, found, matched⟩
          rw [Option.map_some, if_neg kept]

end TableOp

end PipeFabric
