import PipeFabric.Library.Lockstep
import PipeFabric.Relational.HashMapTable

/-!
# The change log of a hash map table

An observer of a `HashMapTable` can follow the table: it takes an inserted or
updated record over and drops a deleted one, each under the key that the record
carries.  The copy that arises in this way is compared with the table, and both
with the finite map that the calls describe.
-/

namespace PipeFabric.ChangeLog

open FiniteMap Tables

variable {Key Record : Type} [DecidableEq Key]

/-- What the observer makes of a notification. -/
def replay (keyOf : Record → Key) (replica : Key → Option Record)
    (notification : Notification Record) : Key → Option Record :=
  match notification.record, notification.mode with
  | some rec, .Insert => Function.update replica (keyOf rec) (some rec)
  | some rec, .Update => Function.update replica (keyOf rec) (some rec)
  | some rec, .Delete => Function.update replica (keyOf rec) none
  | none, _ => replica

/-- A table and the copy that its observer keeps. -/
structure Observed (Key Record : Type) where
  table : TableMap Key Record
  replica : Key → Option Record

/-- The empty table and the empty copy. -/
def Observed.init : Observed Key Record := ⟨∅, fun _ => none⟩

/-- A call on the table with the notifications it sends; the call comes with the
order of iteration that it leaves. -/
def step (copy : Record → Record) (keyOf : Record → Key) (observed : Observed Key Record)
    (call : TableOp Key Record Record × Reordering Key Record) :
    Option (Observed Key Record × TableAnswer Record) :=
  let result := HashMapTable.step copy call.2 observed.table call.1
  some (⟨result.1, result.2.notifications.foldl (replay keyOf) observed.replica⟩, result.2)

/-- The finite map and the number of keys that a call affects. -/
noncomputable def reference (records : Key → Option Record)
    (call : TableOp Key Record Record × Reordering Key Record) :
    Option ((Key → Option Record) × Option Nat) :=
  some (call.1.apply records, call.1.returned records)

/-- The table and the copy are the finite map, the returned number is that of the
affected keys, and the observer was given records that exist. -/
structure Faithful (next : Observed Key Record × TableAnswer Record)
    (after : (Key → Option Record) × Option Nat) : Prop where
  contents : contents next.1.table = after.1
  count : next.2.count = after.2
  read : ∀ notification ∈ next.2.notifications, notification.record.isSome
  replica : next.1.replica = after.1

/-- An inserted record carries its key and is copied as it is, and no record is
deleted by `updateOrDeleteByKey`. -/
def Logged (copy : Record → Record) (keyOf : Record → Key)
    (records : Key → Option Record)
    (call : TableOp Key Record Record × Reordering Key Record) : Prop :=
  match call.1 with
  | .insert key rec => keyOf rec = key ∧ copy rec = rec
  | .insertRvalue key rec => keyOf rec = key ∧ copy rec = rec
  | .updateOrDeleteByKey key ufunc ifunc =>
      match records key with
      | some rec => (ufunc rec).2 = true
      | none => ∀ rec ∈ ifunc, keyOf rec = key ∧ copy rec = rec
  | .deleteByKey _ => True
  | .deleteWhere _ => True
  | .updateByKey _ _ => True
  | .updateWhere _ _ => True

/-- Every record carries the key it is stored under. -/
def Keyed (keyOf : Record → Key) (records : Key → Option Record) : Prop :=
  ∀ key rec, records key = some rec → keyOf rec = key

variable {copy : Record → Record} {keyOf : Record → Key}

/-- The notifications of a scan act on each visited key. -/
theorem replay_scan (note : Record → Notification Record)
    (effect : Record → Option Record)
    (writes : ∀ rec replica, replay keyOf replica (note rec) =
      Function.update replica (keyOf rec) (effect rec))
    (visited : TableMap Key Record) (keyed : Keyed keyOf (contents visited))
    (replica : Key → Option Record) :
    (visited.entries.map fun it => note it.2).foldl (replay keyOf) replica =
      fun key => ((contents visited key).map effect).getD (replica key) := by
  funext key
  have written : (visited.entries.map fun it => note it.2).foldl (replay keyOf) replica =
      visited.entries.foldl
        (fun state it => Function.update state it.1 (effect it.2)) replica := by
    rw [List.foldl_map]
    apply List.foldl_ext
    intro state it member
    have carries : keyOf it.2 = it.1 := keyed it.1 it.2 (mem_contents_iff.mpr member)
    rw [writes, carries]
  rw [written]
  exact foldl_update effect visited.entries visited.nodupKeys replica key

omit [DecidableEq Key] in
theorem keyed_filter {records : Key → Option Record} (keyed : Keyed keyOf records)
    (keep : Record → Bool) : Keyed keyOf fun key => (records key).filter keep :=
  fun key rec found => keyed key rec (Option.filter_eq_some_iff.mp found).1

theorem keyed_update {records : Key → Option Record} (keyed : Keyed keyOf records)
    (key : Key) {written : Option Record} (carries : ∀ rec ∈ written, keyOf rec = key) :
    Keyed keyOf (Function.update records key written) := by
  intro other rec found
  by_cases here : other = key
  · subst here
    rw [Function.update_self] at found
    exact carries rec found
  · rw [Function.update_of_ne here] at found
    exact keyed other rec found

theorem replay_deleteWhere (func : Record → Bool) (table : TableMap Key Record)
    (keyed : Keyed keyOf (contents table)) :
    (HashMapTable.deleteWhere func table).2.notifications.foldl (replay keyOf)
      (contents table) = contents (HashMapTable.deleteWhere func table).1 := by
  have notes : (HashMapTable.deleteWhere func table).2.notifications =
      (filterValues func table).entries.map fun it => ⟨.Delete, some it.2⟩ := by
    change (HashMapTable.deleteLoop func table.entries).2.2 = _
    rw [HashMapTable.deleteLoop_eq]
    rfl
  rw [notes, replay_scan (fun rec => ⟨.Delete, some rec⟩) (fun _ => none)
    (fun _ _ => rfl) _ (by rw [contents_filterValues]; exact keyed_filter keyed func),
    contents_filterValues, HashMapTable.contents_deleteWhere]
  funext key
  dsimp only
  cases contents table key with
  | none => rfl
  | some rec =>
      cases deleted : func rec with
      | true => simp [Option.filter, deleted]
      | false => simp [Option.filter, deleted]

theorem replay_updateWhere (pfunc : Record → Bool) (ufunc : Record → Record)
    (preserving : ∀ rec, keyOf (ufunc rec) = keyOf rec) (table : TableMap Key Record)
    (keyed : Keyed keyOf (contents table)) :
    (HashMapTable.updateWhere pfunc ufunc table).2.notifications.foldl (replay keyOf)
      (contents table) = contents (HashMapTable.updateWhere pfunc ufunc table).1 := by
  have notes : (HashMapTable.updateWhere pfunc ufunc table).2.notifications =
      (filterValues pfunc table).entries.map fun it =>
        ⟨.Update, some (ufunc it.2)⟩ := by
    change (HashMapTable.updateLoop pfunc ufunc table.entries).2.2 = _
    rw [HashMapTable.updateLoop_eq]
    rfl
  rw [notes, replay_scan (fun rec => ⟨.Update, some (ufunc rec)⟩)
    (fun rec => some (ufunc rec)) (fun rec _ => by rw [← preserving rec]; rfl) _
    (by rw [contents_filterValues]; exact keyed_filter keyed pfunc),
    contents_filterValues, HashMapTable.contents_updateWhere]
  funext key
  dsimp only
  cases contents table key with
  | none => rfl
  | some rec =>
      cases updated : pfunc rec with
      | true => simp [Option.filter, updated]
      | false => simp [Option.filter, updated]

/-- The copy of the observer follows every call that is logged. -/
theorem replay_step (order : Reordering Key Record) (table : TableMap Key Record)
    (op : TableOp Key Record Record) (keyed : Keyed keyOf (contents table))
    (preserving : op.KeyPreserving keyOf)
    (logged : Logged copy keyOf (contents table) (op, order)) :
    (HashMapTable.step copy order table op).2.notifications.foldl (replay keyOf)
      (contents table) = contents (HashMapTable.step copy order table op).1 := by
  cases op with
  | insert key rec =>
      obtain ⟨carries, same⟩ := logged
      simp only [HashMapTable.step, HashMapTable.contents_insert, same]
      rw [← carries]
      rfl
  | insertRvalue key rec =>
      obtain ⟨carries, same⟩ := logged
      simp only [HashMapTable.step, HashMapTable.contents_insert, same]
      rw [← carries]
      rfl
  | deleteByKey key =>
      simp only [HashMapTable.step, HashMapTable.deleteByKey]
      cases found : table.lookup key with
      | some rec =>
          simp only
          rw [contents_erase, ← keyed key rec found]
          rfl
      | none => rfl
  | deleteWhere func => exact replay_deleteWhere func table keyed
  | updateOrDeleteByKey key ufunc ifunc =>
      simp only [HashMapTable.step, HashMapTable.updateOrDeleteByKey]
      cases found : table.lookup key with
      | some rec =>
          have present : contents table key = some rec := found
          have upd : (ufunc rec).2 = true := by
            simp only [Logged, present] at logged
            exact logged
          simp only [upd, if_true]
          rw [contents_replace table present, ← keyed key rec found, ← preserving rec]
          rfl
      | none =>
          have absent : contents table key = none := found
          cases ifunc with
          | some rec =>
              simp only [Logged, absent] at logged
              obtain ⟨carries, same⟩ := logged rec rfl
              simp only [HashMapTable.contents_insert, same]
              rw [← carries]
              rfl
          | none => rfl
  | updateByKey key ufunc =>
      simp only [HashMapTable.step, HashMapTable.updateByKey]
      cases found : table.lookup key with
      | some rec =>
          simp only
          rw [contents_replace table found, ← keyed key rec found, ← preserving rec]
          rfl
      | none => rfl
  | updateWhere pfunc ufunc => exact replay_updateWhere pfunc ufunc preserving table keyed

/-- Every call that is logged notifies the observer of records that exist. -/
theorem read_step (order : Reordering Key Record) (table : TableMap Key Record)
    (op : TableOp Key Record Record) (logged : Logged copy keyOf (contents table) (op, order)) :
    ∀ notification ∈ (HashMapTable.step copy order table op).2.notifications,
      notification.record.isSome := by
  intro notification sent
  cases op with
  | insert key rec =>
      rw [List.mem_singleton.mp sent]
      rfl
  | insertRvalue key rec =>
      rw [List.mem_singleton.mp sent]
      rfl
  | deleteByKey key =>
      simp only [HashMapTable.step, HashMapTable.deleteByKey] at sent
      cases found : table.lookup key with
      | some rec =>
          rw [found] at sent
          rw [List.mem_singleton.mp sent]
          rfl
      | none =>
          rw [found] at sent
          cases sent
  | deleteWhere func =>
      simp only [HashMapTable.step, HashMapTable.deleteWhere,
        HashMapTable.deleteLoop_eq] at sent
      obtain ⟨it, _, rfl⟩ := List.mem_map.mp sent
      rfl
  | updateOrDeleteByKey key ufunc ifunc =>
      simp only [HashMapTable.step, HashMapTable.updateOrDeleteByKey] at sent
      cases found : table.lookup key with
      | some rec =>
          have present : contents table key = some rec := found
          have upd : (ufunc rec).2 = true := by
            simp only [Logged, present] at logged
            exact logged
          simp only [found, upd, if_true] at sent
          rw [List.mem_singleton.mp sent]
          rfl
      | none =>
          rw [found] at sent
          cases ifunc with
          | some rec =>
              rw [List.mem_singleton.mp sent]
              rfl
          | none => cases sent
  | updateByKey key ufunc =>
      simp only [HashMapTable.step, HashMapTable.updateByKey] at sent
      cases found : table.lookup key with
      | some rec =>
          rw [found] at sent
          rw [List.mem_singleton.mp sent]
          rfl
      | none =>
          rw [found] at sent
          cases sent
  | updateWhere pfunc ufunc =>
      simp only [HashMapTable.step, HashMapTable.updateWhere,
        HashMapTable.updateLoop_eq] at sent
      obtain ⟨it, _, rfl⟩ := List.mem_map.mp sent
      rfl

/-- A logged call stores the records it was given. -/
theorem apply_stored {records : Key → Option Record} {op : TableOp Key Record Record}
    {order : Reordering Key Record} (logged : Logged copy keyOf records (op, order)) :
    (op.stored copy).apply records = op.apply records := by
  rw [TableOp.apply_stored_eq_iff]
  cases op with
  | insert key rec => exact logged.2
  | insertRvalue key rec => exact logged.2
  | updateOrDeleteByKey key ufunc ifunc =>
      intro absent rec given
      simp only [Logged, absent] at logged
      exact (logged rec given).2
  | deleteByKey key => trivial
  | deleteWhere func => trivial
  | updateByKey key ufunc => trivial
  | updateWhere pfunc ufunc => trivial

theorem keyed_apply {records : Key → Option Record} {op : TableOp Key Record Record}
    {order : Reordering Key Record} (keyed : Keyed keyOf records)
    (preserving : op.KeyPreserving keyOf)
    (logged : Logged copy keyOf records (op, order)) :
    Keyed keyOf (op.apply records) := by
  cases op with
  | insert key rec =>
      apply keyed_update keyed
      rintro _ ⟨⟩
      exact logged.1
  | insertRvalue key rec =>
      apply keyed_update keyed
      rintro _ ⟨⟩
      exact logged.1
  | deleteByKey key =>
      apply keyed_update keyed
      rintro _ ⟨⟩
  | deleteWhere func => exact keyed_filter keyed _
  | updateOrDeleteByKey key ufunc ifunc =>
      simp only [TableOp.apply]
      cases found : records key with
      | some rec =>
          simp only [Logged, found] at logged
          apply keyed_update keyed
          rw [if_pos logged]
          rintro _ ⟨⟩
          exact (preserving rec).trans (keyed key rec found)
      | none =>
          simp only [Logged, found] at logged
          apply keyed_update keyed
          exact fun rec inserted => (logged rec inserted).1
  | updateByKey key ufunc =>
      apply keyed_update keyed
      intro rec written
      obtain ⟨old, found, rfl⟩ := Option.map_eq_some_iff.mp written
      exact (preserving old).trans (keyed key old found)
  | updateWhere pfunc ufunc =>
      intro key rec written
      obtain ⟨old, found, rfl⟩ := Option.map_eq_some_iff.mp written
      by_cases updated : pfunc old = true
      · rw [if_pos updated, preserving old]
        exact keyed key old found
      · rw [if_neg updated]
        exact keyed key old found

/-- The table and the copy of the observer are the finite map. -/
structure Related (keyOf : Record → Key) (observed : Observed Key Record)
    (records : Key → Option Record) : Prop where
  contents : contents observed.table = records
  replica : observed.replica = records
  keyed : Keyed keyOf records

theorem related_init : Related keyOf (Observed.init : Observed Key Record) fun _ => none :=
  ⟨contents_empty, rfl, by rintro _ _ ⟨⟩⟩

/-- A logged call is answered faithfully. -/
theorem step_faithful {observed : Observed Key Record} {records : Key → Option Record}
    (related : Related keyOf observed records)
    (call : TableOp Key Record Record × Reordering Key Record)
    (preserving : call.1.KeyPreserving keyOf) (logged : Logged copy keyOf records call) :
    ∃ next, step copy keyOf observed call = some next ∧
      Faithful next (call.1.apply records, call.1.returned records) ∧
      Related keyOf next.1 (call.1.apply records) := by
  obtain ⟨op, order⟩ := call
  obtain ⟨rfl, same, keyed⟩ := related
  have stored : contents (HashMapTable.step copy order observed.table op).1 =
      op.apply (contents observed.table) := by
    rw [HashMapTable.contents_step, apply_stored logged]
  have followed := replay_step order observed.table op keyed preserving logged
  rw [← same, stored] at followed
  exact ⟨_, rfl, ⟨stored, HashMapTable.count_step observed.table op,
    read_step order observed.table op logged, followed⟩,
    ⟨stored, followed, keyed_apply keyed preserving logged⟩⟩

/-- A call that is answered faithfully is logged: a copy that differs is in the
table, a record under another key is missing in the copy of the observer, and a
deletion by `updateOrDeleteByKey` notifies it of a record that is gone. -/
theorem logged_of_faithful {observed : Observed Key Record} {records : Key → Option Record}
    (related : Related keyOf observed records)
    (call : TableOp Key Record Record × Reordering Key Record)
    {next : Observed Key Record × TableAnswer Record}
    (stepped : step copy keyOf observed call = some next)
    (faithful : Faithful next (call.1.apply records, call.1.returned records)) :
    Logged copy keyOf records call := by
  obtain ⟨op, order⟩ := call
  obtain ⟨rfl, same, keyed⟩ := related
  cases stepped
  have stored := faithful.contents
  simp only [HashMapTable.contents_step] at stored
  have replica := faithful.replica
  have inserted (key : Key) (rec : Record)
      (there : Function.update (contents observed.table) key (some (copy rec)) =
        Function.update (contents observed.table) key (some rec))
      (followed : Function.update observed.replica (keyOf rec) (some rec) =
        Function.update (contents observed.table) key (some rec)) :
      keyOf rec = key ∧ copy rec = rec := by
    have copied := congrFun there key
    rw [Function.update_self, Function.update_self] at copied
    refine ⟨?_, Option.some.inj copied⟩
    by_contra other
    have missing := congrFun followed key
    rw [Function.update_self, Function.update_of_ne (Ne.symm other), same] at missing
    exact other (keyed key rec missing)
  cases op with
  | insert key rec => exact inserted key rec stored replica
  | insertRvalue key rec => exact inserted key rec stored replica
  | updateOrDeleteByKey key ufunc ifunc =>
      simp only [Logged]
      cases found : observed.table.lookup key with
      | some rec =>
          have present : contents observed.table key = some rec := found
          simp only [present]
          by_contra deleted
          have read := faithful.read ⟨.Delete, none⟩ (by
            simp [HashMapTable.step, HashMapTable.updateOrDeleteByKey, found, deleted])
          cases read
      | none =>
          have absent : contents observed.table key = none := found
          simp only [absent]
          intro rec given
          cases given
          simp only [TableOp.apply, TableOp.stored, absent, Option.map_some] at stored
          simp only [HashMapTable.step, HashMapTable.updateOrDeleteByKey, found,
            TableOp.apply, absent] at replica
          exact inserted key rec stored replica
  | deleteByKey key => trivial
  | deleteWhere func => trivial
  | updateByKey key ufunc => trivial
  | updateWhere pfunc ufunc => trivial

/-- For every sequence of calls with key-preserving updater functions from an empty
table, the contents and the returned numbers are those of the finite map, the
observer reads only records that exist and the replay of its notifications gives
the contents, after every call, if and only if every inserted record carries its key
and is copied as it is, and no record is deleted by `updateOrDeleteByKey`. -/
theorem hashMapTable_changeLog (copy : Record → Record) (keyOf : Record → Key)
    (calls : List (TableOp Key Record Record × Reordering Key Record))
    (preserving : ∀ call ∈ calls, call.1.KeyPreserving keyOf) :
    Lockstep.Agree (step copy keyOf) reference Faithful Observed.init (fun _ => none)
        calls ↔
      Lockstep.Along reference (Logged copy keyOf) (fun _ => none) calls := by
  apply Lockstep.agree_iff_of_assumed (fun _ call => call.1.KeyPreserving keyOf)
    (Related keyOf)
  · intro observed records call after related legal preserving logged
    cases legal
    exact step_faithful related call preserving logged
  · intro observed records call after next related legal _ stepped faithful
    cases legal
    exact logged_of_faithful related call stepped faithful
  · exact related_init
  · exact Lockstep.along_of_forall_mem (fun call member _ => preserving call member) _

/-- A table of numbered records. -/
theorem hashMapTable_changeLog_update :
    Lockstep.Agree (step id Prod.fst) reference Faithful Observed.init (fun _ => none)
        [(.insert 1 (1, 5), .keep), (.updateByKey 1 fun rec => (rec.1, 6), .keep)] ↔
      Lockstep.Along reference (Logged (id : Nat × Nat → Nat × Nat) Prod.fst)
        (fun _ => none)
        [(.insert 1 (1, 5), .keep), (.updateByKey 1 fun rec => (rec.1, 6), .keep)] :=
  hashMapTable_changeLog id Prod.fst _ (by simp [TableOp.KeyPreserving])

/-- The updater function of the second call lets the record be deleted. -/
theorem hashMapTable_changeLog_dangling :
    ¬ Lockstep.Agree (step id Prod.fst) reference Faithful
      (Observed.init : Observed Nat (Nat × Nat)) (fun _ => none)
      [(.insert 1 (1, 5), .keep),
        (.updateOrDeleteByKey 1 (fun rec => (rec, false)) none, .keep)] := by
  intro agree
  obtain ⟨first, inserted, _, agree⟩ := agree _ rfl
  cases inserted
  obtain ⟨second, deleted, faithful, _⟩ := agree _ rfl
  cases deleted
  have read := faithful.read ⟨.Delete, none⟩ (by decide)
  cases read

end PipeFabric.ChangeLog
