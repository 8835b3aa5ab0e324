import PipeFabric.Library.Lockstep
import PipeFabric.Relational.CuckooTable

/-!
# Cuckoo tables in place of hash map tables

The same calls are made on a `HashMapTable` and a `CuckooTable` that store tuples.
The two are interchangeable if after every call they hold the same entries and have
returned the same numbers and records and sent the same notifications.
-/

namespace PipeFabric.Tables.CuckooAgreement

open FiniteMap

variable {Key α : Type} {Base : TupleElements α}

/-- The two tables; a `CuckooTable` stores attributes. -/
structure Pair (Key : Type) (Base : TupleElements α) where
  hash : TableMap Key (Tuple Base)
  cuckoo : TableMap Key α

/-- The empty tables. -/
def Pair.init : Pair Key Base := ⟨∅, ∅⟩

/-- A call that modifies the tables, with the orders of iteration it leaves, or a
call that reads from them. -/
inductive Call (Key : Type) (Base : TupleElements α) where
  | modify (op : TableOp Key (Tuple Base) α) (hashOrder : Reordering Key (Tuple Base))
      (cuckooOrder : Reordering Key α)
  | getByKey (key : Key)

/-- What a table makes of a call. -/
inductive Answer (Record : Type) where
  | modified (answer : TableAnswer Record)
  /-- `none` is a `TableException`. -/
  | read (rec : Option Record)

/-- The same results and notifications.  Only a scan sends more than one notification,
and the order of a scan does not matter. -/
def Answer.Same {Record : Type} : Answer Record → Answer Record → Prop
  | .modified first, .modified second =>
      first.count = second.count ∧ first.notifications.Perm second.notifications
  | .read first, .read second => first = second
  | .modified _, .read _ => False
  | .read _, .modified _ => False

variable [DecidableEq Key]

/-- A call on both tables. -/
def step (moved : α → α) (tables : Pair Key Base) :
    Call Key Base → Option (Pair Key Base × Answer (Tuple Base) × Answer (Tuple Base))
  | .modify op hashOrder cuckooOrder =>
      (CuckooTable.step moved cuckooOrder tables.cuckoo op).map fun cuckoo =>
        let hash := HashMapTable.step Tuple.copy hashOrder tables.hash (onTuples op)
        (⟨hash.1, cuckoo.1⟩, .modified hash.2, .modified cuckoo.2)
  | .getByKey key =>
      some (tables, .read (HashMapTable.getByKey Tuple.copy key tables.hash),
        .read (CuckooTable.getByKey key tables.cuckoo))

/-- The attributes that the calls store under every key. -/
def reference (records : Key → Option α) :
    Call Key Base → Option ((Key → Option α) × Unit)
  | .modify op _ _ => some ((op.stored Tuple.data).apply records, ())
  | .getByKey _ => some (records, ())

/-- The tables hold the same entries and have answered alike. -/
structure Interchangeable
    (next : Pair Key Base × Answer (Tuple Base) × Answer (Tuple Base)) : Prop where
  contents : contents next.1.hash = Option.map Tuple.ofData ∘ contents next.1.cuckoo
  answers : next.2.1.Same next.2.2

/-- A key is inserted once or with the attributes it has, a temporary that becomes an
entry is as good as before, `deleteWhere` finds nothing to delete, and
`updateOrDeleteByKey` neither changes nor deletes the record it finds. -/
def Alike (moved : α → α) (records : Key → Option α) : Call Key Base → Prop
  | .modify (.insert key rec) _ _ => ∀ value ∈ records key, value = rec.data
  | .modify (.insertRvalue key rec) _ _ =>
      match records key with
      | some value => value = rec.data
      | none => moved rec.data = rec.data
  | .modify (.deleteWhere func) _ _ =>
      ∀ key, ∀ value ∈ records key, func value = false
  | .modify (.updateOrDeleteByKey key ufunc ifunc) _ _ =>
      match records key with
      | some value => ufunc value = (value, true)
      | none => ∀ rec ∈ ifunc, moved rec.data = rec.data
  | .modify (.deleteByKey _) _ _ => True
  | .modify (.updateByKey _ _) _ _ => True
  | .modify (.updateWhere _ _) _ _ => True
  | .getByKey _ => True

/-- The hash map table follows the calls in any case. -/
theorem apply_onTuples (op : TableOp Key (Tuple Base) α) (records : Key → Option α) :
    ((onTuples op).stored Tuple.copy).apply (Option.map Tuple.ofData ∘ records) =
      Option.map Tuple.ofData ∘ (op.stored Tuple.data).apply records := by
  cases op with
  | insert key rec => exact (Function.comp_update _ records key (some rec.data)).symm
  | insertRvalue key rec => exact (Function.comp_update _ records key (some rec.data)).symm
  | deleteByKey key => exact (Function.comp_update _ records key none).symm
  | deleteWhere func =>
      funext key
      simp only [onTuples, TableOp.stored, TableOp.apply, Function.comp_apply]
      cases records key with
      | none => rfl
      | some value =>
          cases deleted : func value with
          | true => simp [Option.filter, deleted]
          | false => simp [Option.filter, deleted]
  | updateOrDeleteByKey key ufunc ifunc =>
      simp only [onTuples, TableOp.stored, TableOp.apply, Function.comp_apply]
      cases records key with
      | none =>
          simp only [Option.map_none]
          rw [Function.comp_update, Option.map_map]
          rfl
      | some value =>
          simp only [Option.map_some]
          change Function.update (Option.map Tuple.ofData ∘ records) key
            (if (ufunc value).2 then some (Tuple.ofData (ufunc value).1) else none) = _
          rw [Function.comp_update]
          by_cases upd : (ufunc value).2 = true
          · rw [if_pos upd, if_pos upd]
            rfl
          · rw [if_neg upd, if_neg upd]
            rfl
  | updateByKey key ufunc =>
      simp only [onTuples, TableOp.stored, TableOp.apply, Function.comp_apply]
      rw [Function.comp_update, Option.map_map, Option.map_map]
      rfl
  | updateWhere pfunc ufunc =>
      funext key
      simp only [onTuples, TableOp.stored, TableOp.apply, Function.comp_apply]
      cases records key with
      | none => rfl
      | some value =>
          cases updated : pfunc value with
          | true => simp [updated, Tuple.ofData]
          | false => simp [updated]

/-- The tables hold what the calls have stored. -/
structure Related (tables : Pair Key Base) (records : Key → Option α) : Prop where
  hash : contents tables.hash = Option.map Tuple.ofData ∘ records
  cuckoo : contents tables.cuckoo = records

theorem Related.interchangeable {tables : Pair Key Base} {records : Key → Option α}
    (related : Related tables records) :
    contents tables.hash = Option.map Tuple.ofData ∘ contents tables.cuckoo := by
  rw [related.cuckoo]
  exact related.hash

/-- The hash map table after a call. -/
theorem contents_hash {tables : Pair Key Base} {records : Key → Option α}
    (related : Related tables records) (hashOrder : Reordering Key (Tuple Base))
    (op : TableOp Key (Tuple Base) α) :
    contents (HashMapTable.step Tuple.copy hashOrder tables.hash (onTuples op)).1 =
      Option.map Tuple.ofData ∘ (op.stored Tuple.data).apply records := by
  rw [HashMapTable.contents_step, related.hash, apply_onTuples]

/-- What the hash map table has found under a key. -/
theorem Related.lookup_hash {tables : Pair Key Base} {records : Key → Option α}
    (related : Related tables records) (key : Key) :
    tables.hash.lookup key = (records key).map Tuple.ofData :=
  congrFun related.hash key

theorem Related.lookup_cuckoo {tables : Pair Key Base} {records : Key → Option α}
    (related : Related tables records) (key : Key) :
    tables.cuckoo.lookup key = records key :=
  congrFun related.cuckoo key

/-- The hash map table has the entries of the cuckoo table. -/
theorem Related.perm_entries {tables : Pair Key Base} {records : Key → Option α}
    (related : Related tables records) :
    tables.hash.entries.Perm
      (tables.cuckoo.entries.map fun it => ⟨it.1, Tuple.ofData it.2⟩) := by
  have same : contents tables.hash = contents (mapValues Tuple.ofData tables.cuckoo) := by
    rw [contents_mapValues]
    exact related.interchangeable
  exact FiniteMap.perm_entries same

theorem contents_insertEntry {tables : Pair Key Base} {records : Key → Option α}
    (related : Related tables records) (order : Reordering Key α) (key : Key) (value : α) :
    contents (CuckooTable.insertEntry order key value tables.cuckoo).1 =
      Function.update records key (some ((records key).getD value)) := by
  rw [CuckooTable.contents_insertEntry, related.cuckoo]
  unfold PipeFabric.CuckooTable.insert
  cases found : records key with
  | some old =>
      simp only [found, Option.getD_some]
      exact (Function.update_eq_self_iff.mpr found.symm).symm
  | none => simp only [found, Option.getD_none]

/-- Nothing is deleted from either table if no record matches. -/
theorem deleteWhere_alike {tables : Pair Key Base} {records : Key → Option α}
    (related : Related tables records) (func : α → Bool)
    (kept : ∀ key, ∀ value ∈ records key, func value = false) :
    (CuckooTable.deleteWhere func tables.cuckoo :
        Option (TableMap Key α × TableAnswer (Tuple Base))) =
          some (tables.cuckoo, ⟨some 0, []⟩) ∧
      (HashMapTable.deleteWhere (fun rec => func rec.data) tables.hash).2 = ⟨some 0, []⟩ := by
  have unmatched : ∀ it ∈ tables.cuckoo.entries, func it.2 = false := by
    intro it member
    apply kept it.1
    rw [← related.cuckoo]
    exact mem_contents_iff.mpr member
  constructor
  · rw [CuckooTable.deleteWhere_eq, if_neg]
    rw [List.any_eq_true]
    intro found
    obtain ⟨it, member, matched⟩ := found
    rw [unmatched it member] at matched
    cases matched
  · have empty : (tables.hash.entries.filter fun it => func it.2.data) = [] := by
      rw [List.filter_eq_nil_iff]
      intro it member
      obtain ⟨entry, inside, rfl⟩ := List.mem_map.mp (related.perm_entries.mem_iff.mp member)
      rw [Tuple.data_ofData, unmatched entry inside]
      exact Bool.false_ne_true
    simp only [HashMapTable.deleteWhere, HashMapTable.deleteLoop_eq, empty]
    rfl

/-- Both scans update the same entries. -/
theorem updateWhere_alike {tables : Pair Key Base} {records : Key → Option α}
    (related : Related tables records) (pfunc : α → Bool) (ufunc : α → α) :
    (Answer.modified (HashMapTable.updateWhere (fun rec => pfunc rec.data)
      (fun rec => { rec with data := ufunc rec.data }) tables.hash).2).Same
        (.modified (CuckooTable.updateWhere pfunc ufunc tables.cuckoo).2) := by
  have matching := related.perm_entries.filter fun it => pfunc it.2.data
  rw [List.filter_map] at matching
  simp only [HashMapTable.updateWhere, CuckooTable.updateWhere,
    HashMapTable.updateLoop_eq]
  constructor
  · rw [Option.some.injEq, matching.length_eq, List.length_map]
    rfl
  · have notified := matching.map fun it =>
      (⟨.Update, some { it.2 with data := ufunc it.2.data }⟩ : Notification (Tuple Base))
    rw [List.map_map] at notified
    rw [List.map_map]
    exact notified

/-- A call that both tables are to treat alike returns, leaves the records it should
in the cuckoo table and is answered as by the hash map table. -/
theorem cuckoo_step {moved : α → α} {tables : Pair Key Base} {records : Key → Option α}
    (related : Related tables records) (op : TableOp Key (Tuple Base) α)
    (hashOrder : Reordering Key (Tuple Base)) (cuckooOrder : Reordering Key α)
    (alike : Alike moved records (.modify op hashOrder cuckooOrder)) :
    ∃ cuckoo, CuckooTable.step moved cuckooOrder tables.cuckoo op = some cuckoo ∧
      contents cuckoo.1 = (op.stored Tuple.data).apply records ∧
      (Answer.modified (HashMapTable.step Tuple.copy hashOrder tables.hash
        (onTuples op)).2).Same (.modified cuckoo.2) := by
  cases op with
  | insert key rec =>
      refine ⟨_, rfl, ?_, rfl, .refl _⟩
      change contents (CuckooTable.insertEntry _ _ _ _).1 = _
      rw [contents_insertEntry related]
      cases found : records key with
      | some value => rw [alike value found, Option.getD_some]; rfl
      | none => rfl
  | insertRvalue key rec =>
      refine ⟨_, rfl, ?_, rfl, ?_⟩
      · change contents (CuckooTable.insertEntry _ _ _ _).1 = _
        rw [contents_insertEntry related]
        cases found : records key with
        | some value =>
            simp only [Alike, found] at alike
            rw [alike]
            rfl
        | none => rfl
      · simp only [CuckooTable.insertRvalue, CuckooTable.insertEntry_inserted,
          related.lookup_cuckoo]
        cases found : records key with
        | some value => exact .refl _
        | none =>
            simp only [Alike, found] at alike
            rw [alike]
            exact .refl _
  | deleteByKey key =>
      refine ⟨_, rfl, ?_, ?_⟩
      · rw [CuckooTable.contents_deleteByKey, related.cuckoo]
        cases found : records key with
        | some value => simp [PipeFabric.CuckooTable.deleteByKey, found]; rfl
        | none =>
            simp only [PipeFabric.CuckooTable.deleteByKey, found]
            exact (Function.update_eq_self_iff.mpr found.symm).symm
      · simp only [onTuples, HashMapTable.step, HashMapTable.deleteByKey,
          CuckooTable.deleteByKey, related.lookup_hash, related.lookup_cuckoo]
        cases records key with
        | some value => exact ⟨rfl, .refl _⟩
        | none => exact ⟨rfl, .refl _⟩
  | deleteWhere func =>
      obtain ⟨returned, answered⟩ := deleteWhere_alike related func alike
      refine ⟨_, returned, ?_, ?_⟩
      · funext key
        rw [related.cuckoo]
        change records key = (records key).filter _
        cases found : records key with
        | some value => simp [Option.filter, alike key value found]
        | none => rfl
      · change (Answer.modified (HashMapTable.deleteWhere _ _).2).Same _
        rw [answered]
        exact ⟨rfl, .refl _⟩
  | updateOrDeleteByKey key ufunc ifunc =>
      refine ⟨_, rfl, ?_⟩
      simp only [onTuples, HashMapTable.step, HashMapTable.updateOrDeleteByKey,
        CuckooTable.updateOrDeleteByKey, related.lookup_hash, related.lookup_cuckoo,
        TableOp.stored, TableOp.apply]
      simp only [Alike] at alike
      cases found : records key with
      | some value =>
          simp only [found] at alike
          simp only [Option.map_some, Tuple.data_ofData, alike, if_true]
          refine ⟨?_, rfl, .refl _⟩
          rw [related.cuckoo]
          exact (Function.update_eq_self_iff.mpr found.symm).symm
      | none =>
          simp only [found] at alike
          cases ifunc with
          | some rec =>
              refine ⟨?_, rfl, ?_⟩
              · change contents (CuckooTable.insertEntry _ _ _ _).1 = _
                rw [contents_insertEntry related, found]
                rfl
              · simp only [Option.map_none, CuckooTable.insertRvalue,
                  CuckooTable.insertEntry_inserted, related.lookup_cuckoo, found,
                  alike rec rfl]
                exact .refl _
          | none =>
              refine ⟨?_, rfl, .refl _⟩
              rw [related.cuckoo]
              exact (Function.update_eq_self_iff.mpr found.symm).symm
  | updateByKey key ufunc =>
      refine ⟨_, rfl, ?_⟩
      simp only [onTuples, HashMapTable.step, HashMapTable.updateByKey,
        CuckooTable.updateByKey, related.lookup_hash, related.lookup_cuckoo,
        TableOp.stored, TableOp.apply]
      cases found : records key with
      | some value =>
          refine ⟨?_, rfl, .refl _⟩
          have present : contents tables.cuckoo key = some value := by
            rw [related.cuckoo, found]
          simp only
          rw [contents_replace tables.cuckoo present, related.cuckoo]
          rfl
      | none =>
          refine ⟨?_, rfl, .refl _⟩
          rw [related.cuckoo]
          exact (Function.update_eq_self_iff.mpr found.symm).symm
  | updateWhere pfunc ufunc =>
      refine ⟨_, rfl, ?_, updateWhere_alike related pfunc ufunc⟩
      change contents (HashMapTable.updateWhere _ _ _).1 = _
      rw [HashMapTable.contents_updateWhere, related.cuckoo]
      rfl

/-- A call that is to be treated alike keeps the tables interchangeable. -/
theorem step_alike {moved : α → α} {tables : Pair Key Base} {records : Key → Option α}
    (related : Related tables records) (call : Call Key Base)
    {after : (Key → Option α) × Unit} (legal : reference records call = some after)
    (alike : Alike moved records call) :
    ∃ next, step moved tables call = some next ∧ Interchangeable next ∧
      Related next.1 after.1 := by
  cases call with
  | modify op hashOrder cuckooOrder =>
      cases legal
      obtain ⟨cuckoo, returned, stored, answers⟩ :=
        cuckoo_step related op hashOrder cuckooOrder alike
      have kept : Related (⟨(HashMapTable.step Tuple.copy hashOrder tables.hash
          (onTuples op)).1, cuckoo.1⟩ : Pair Key Base)
          ((op.stored Tuple.data).apply records) :=
        ⟨contents_hash related hashOrder op, stored⟩
      exact ⟨_, by rw [step, returned]; rfl, ⟨kept.interchangeable, answers⟩, kept⟩
  | getByKey key =>
      cases legal
      refine ⟨_, rfl, ⟨related.interchangeable, ?_⟩, related⟩
      simp only [HashMapTable.getByKey, CuckooTable.getByKey, related.lookup_hash,
        related.lookup_cuckoo]
      cases records key with
      | some value => rfl
      | none => rfl

/-- What an insertion that keeps the tables interchangeable finds. -/
theorem inserted_alike {tables : Pair Key Base} {records : Key → Option α}
    (related : Related tables records) (cuckooOrder : Reordering Key α) (key : Key)
    (value : α) {hash : TableMap Key (Tuple Base)}
    (upserted : contents hash =
      Option.map Tuple.ofData ∘ Function.update records key (some value))
    (same : contents hash = Option.map Tuple.ofData ∘
      contents (CuckooTable.insertEntry cuckooOrder key value tables.cuckoo).1) :
    ∀ old ∈ records key, old = value := by
  intro old found
  rw [contents_insertEntry related, upserted] at same
  have entry := congrFun same key
  simp only [Function.comp_apply, Function.update_self, Option.map_some,
    Option.mem_def.mp found, Option.getD_some, Option.some.injEq] at entry
  exact (Tuple.ofData_injective entry).symm

/-- Tables that a call leaves interchangeable treat it alike. -/
theorem alike_of_interchangeable {moved : α → α} {tables : Pair Key Base}
    {records : Key → Option α} (related : Related tables records) (call : Call Key Base)
    {next : Pair Key Base × Answer (Tuple Base) × Answer (Tuple Base)}
    (stepped : step moved tables call = some next) (same : Interchangeable next) :
    Alike moved records call := by
  cases call with
  | getByKey key => trivial
  | modify op hashOrder cuckooOrder =>
      obtain ⟨cuckoo, returned, rfl⟩ := Option.map_eq_some_iff.mp stepped
      have holds := same.contents
      have upserted := contents_hash related hashOrder op
      have answers := same.answers
      cases op with
      | insert key rec =>
          cases returned
          exact inserted_alike related cuckooOrder key rec.data upserted holds
      | insertRvalue key rec =>
          cases returned
          have kept := inserted_alike related cuckooOrder key rec.data upserted holds
          simp only [Alike]
          cases found : records key with
          | some value => exact kept value found
          | none =>
              have sent := answers.2
              simp only [onTuples, HashMapTable.step, HashMapTable.insert,
                CuckooTable.insertRvalue, CuckooTable.insertEntry_inserted,
                related.lookup_cuckoo, found, List.perm_singleton] at sent
              have equal := (List.cons.inj sent).1
              simp only [Notification.mk.injEq, Option.some.injEq] at equal
              exact (congrArg Tuple.data equal.2).symm
      | deleteWhere func =>
          simp only [CuckooTable.step, CuckooTable.deleteWhere_eq] at returned
          intro key value found
          rw [← related.cuckoo] at found
          by_contra matched
          rw [if_pos] at returned
          · cases returned
          · rw [List.any_eq_true]
            exact ⟨⟨key, value⟩, mem_contents_iff.mp found,
              Bool.eq_true_of_not_eq_false matched⟩
      | updateOrDeleteByKey key ufunc ifunc =>
          cases returned
          simp only [Alike]
          simp only [onTuples, HashMapTable.step, HashMapTable.updateOrDeleteByKey,
            CuckooTable.updateOrDeleteByKey, related.lookup_hash,
            related.lookup_cuckoo] at answers holds
          cases found : records key with
          | some value =>
              simp only [found, Option.map_some, Tuple.data_ofData] at answers holds
              by_cases upd : (ufunc value).2 = true
              · simp only [upd, if_true] at holds
                have present : contents tables.hash key = some (Tuple.ofData value) := by
                  rw [related.hash, Function.comp_apply, found]
                  rfl
                rw [contents_replace tables.hash present, related.cuckoo] at holds
                have entry := congrFun holds key
                rw [Function.update_self, Function.comp_apply, found] at entry
                have unchanged : (ufunc value).1 = value :=
                  congrArg Tuple.data (Option.some.inj entry)
                exact Prod.ext unchanged upd
              · have sent := answers.2
                simp only [upd, Bool.false_eq_true, if_false, List.perm_singleton] at sent
                cases sent
          | none =>
              intro rec given
              cases given
              simp only [found, Option.map_none] at answers
              have sent := answers.2
              simp only [HashMapTable.insert, CuckooTable.insertRvalue,
                CuckooTable.insertEntry_inserted, related.lookup_cuckoo, found,
                List.perm_singleton] at sent
              have equal := (List.cons.inj sent).1
              simp only [Notification.mk.injEq, Option.some.injEq] at equal
              exact (congrArg Tuple.data equal.2).symm
      | deleteByKey key => trivial
      | updateByKey key ufunc => trivial
      | updateWhere pfunc ufunc => trivial

/-- For every sequence of calls on two empty tables, the tables hold the same entries,
return the same and send the same notifications after every call if and only if every
call is one that they treat alike. -/
theorem cuckooTable_interchangeable (moved : α → α) (calls : List (Call Key Base)) :
    Lockstep.Agree (step moved) reference (fun next _ => Interchangeable next) Pair.init
        (fun _ => none) calls ↔
      Lockstep.Along reference (Alike moved) (fun _ => none) calls := by
  apply Lockstep.agree_iff Related
  · exact fun tables records call after related legal alike =>
      step_alike related call legal alike
  · exact fun tables records call after next related _ stepped same =>
      alike_of_interchangeable related call stepped same
  · exact ⟨by rw [Pair.init, contents_empty]; rfl, contents_empty⟩

/-- A record of one number is inserted under a key that has another one. -/
theorem cuckooTable_not_interchangeable :
    ¬ Lockstep.Agree (step id) reference (fun next _ => Interchangeable next)
      (Pair.init : Pair Nat (.last (.pod Pod.byte))) (fun _ => none)
      [.modify (.insert 1 (.ofData 5)) .keep .keep,
        .modify (.insert 1 (.ofData 6)) .keep .keep] := by
  intro agree
  obtain ⟨first, inserted, _, agree⟩ := agree _ rfl
  cases inserted
  obtain ⟨second, again, same, _⟩ := agree _ rfl
  cases again
  have numbers : some (6 : UInt8) = some 5 :=
    congrArg (Option.map Tuple.data) (congrFun same.contents 1)
  exact absurd numbers (by decide)

end PipeFabric.Tables.CuckooAgreement
