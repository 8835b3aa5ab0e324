import PipeFabric.Library.Lockstep
import PipeFabric.Table.CuckooTable

/-!
# Tables with a log buffer

`TxTable` puts the writes of a transaction into a log and applies the log to the
table below it when the transaction commits.  The logs of all transactions are kept
in a `LogBuffer`, which has an entry for a transaction as soon as it has logged
something.
-/

namespace PipeFabric

/-- `TransactionID`. -/
abbrev TransactionID := UInt64

/-- `LogOp`. -/
inductive LogOp where
  | Insert
  | Update
  | Delete

/-- `LogEntry`; the record is held by a shared pointer, which may be null. -/
structure LogEntry (K R : Type) where
  logOp : LogOp
  key : K
  recordPtr : Option R

/-- `LogBuffer`. -/
structure LogBuffer (K R : Type) where
  buffer : TransactionID → Option (List (LogEntry K R))

namespace LogBuffer

variable {K R : Type}

/-- A new buffer. -/
def init : LogBuffer K R := ⟨fun _ => none⟩

/-- `append`. -/
def append (log : LogBuffer K R) (txID : TransactionID) (entry : LogEntry K R) :
    LogBuffer K R :=
  match log.buffer txID with
  | some entries => ⟨Function.update log.buffer txID (some (entries ++ [entry]))⟩
  | none => ⟨Function.update log.buffer txID (some [entry])⟩

/-- What lies between `begin` and `end`, which assert that there is an entry. -/
def entries (log : LogBuffer K R) (txID : TransactionID) : Option (List (LogEntry K R)) :=
  log.buffer txID

/-- `cleanup`. -/
def cleanup (log : LogBuffer K R) (txID : TransactionID) : LogBuffer K R :=
  ⟨Function.update log.buffer txID none⟩

end LogBuffer

/-- `TxTable`, on a table that is chosen at build time. -/
structure TxTable (Tbl K R : Type) where
  tbl : Tbl
  logBuffer : LogBuffer K R

namespace TxTable

variable {Tbl K R : Type} [UnderlyingTable Tbl K R]

/-- `transactionBegin`, which does nothing. -/
def transactionBegin (table : TxTable Tbl K R) (_ : TransactionID) : TxTable Tbl K R :=
  table

/-- One round of the loop of `transactionCommit`. -/
def applyEntry (tbl : Tbl) (entry : LogEntry K R) : Option Tbl :=
  match entry.logOp with
  | .Insert => entry.recordPtr.map fun rec => UnderlyingTable.insert tbl entry.key rec
  | .Update => some tbl
  | .Delete => some (UnderlyingTable.deleteByKey tbl entry.key).2

/-- `transactionCommit`, which `transactionPreCommit` calls. -/
def transactionCommit (table : TxTable Tbl K R) (txID : TransactionID) :
    Option (TxTable Tbl K R) := do
  let entries ← table.logBuffer.entries txID
  let tbl ← entries.foldlM applyEntry table.tbl
  some ⟨tbl, table.logBuffer.cleanup txID⟩

/-- `transactionAbort`. -/
def transactionAbort (table : TxTable Tbl K R) (txID : TransactionID) : TxTable Tbl K R :=
  { table with logBuffer := table.logBuffer.cleanup txID }

/-- `insert`; the log entry holds a copy of the record. -/
def insert (copy : R → R) (table : TxTable Tbl K R) (txID : TransactionID) (key : K)
    (rec : R) : TxTable Tbl K R :=
  { table with logBuffer := table.logBuffer.append txID ⟨.Insert, key, some (copy rec)⟩ }

/-- `deleteByKey`, which returns 1. -/
def deleteByKey (table : TxTable Tbl K R) (txID : TransactionID) (key : K) :
    TxTable Tbl K R × Nat :=
  ({ table with logBuffer := table.logBuffer.append txID ⟨.Delete, key, none⟩ }, 1)

/-! ## Transactions -/

/-- An operation of a transaction. -/
inductive Operation (K R : Type) where
  | insert (key : K) (rec : R)
  | delete (key : K)

/-- What an operation does to the contents of a map. -/
def Operation.apply [DecidableEq K] (contents : K → Option R) :
    Operation K R → K → Option R
  | .insert key rec => Function.update contents key (some rec)
  | .delete key => Function.update contents key none

/-- The log entry of an operation. -/
def Operation.entry : Operation K R → LogEntry K R
  | .insert key rec => ⟨.Insert, key, some rec⟩
  | .delete key => ⟨.Delete, key, none⟩

/-- A call on the table. -/
inductive Call (K R : Type) where
  | begin (txID : TransactionID)
  | insert (txID : TransactionID) (key : K) (rec : R)
  | deleteByKey (txID : TransactionID) (key : K)
  | commit (txID : TransactionID)
  | abort (txID : TransactionID)

/-- A call; `none` if an assertion fails. -/
def step (copy : R → R) (table : TxTable Tbl K R) :
    Call K R → Option (TxTable Tbl K R × Unit)
  | .begin txID => some (table.transactionBegin txID, ())
  | .insert txID key rec => some (table.insert copy txID key rec, ())
  | .deleteByKey txID key => some ((table.deleteByKey txID key).1, ())
  | .commit txID => (table.transactionCommit txID).map fun next => (next, ())
  | .abort txID => some (table.transactionAbort txID, ())

/-- The logs of the transactions that have begun and not ended, and the contents that
the committed transactions have left. -/
structure Transactions (K R : Type) where
  log : TransactionID → Option (List (Operation K R))
  contents : K → Option R

/-- No transactions. -/
def Transactions.init : Transactions K R := ⟨fun _ => none, fun _ => none⟩

variable [DecidableEq K]

/-- The meaning of a call.  A transaction begins with its first call at the latest,
and may commit only if it has begun. -/
def reference (copy : R → R) (transactions : Transactions K R) :
    Call K R → Option (Transactions K R × Unit)
  | .begin txID =>
      some ({ transactions with
        log := Function.update transactions.log txID
          (some ((transactions.log txID).getD [])) }, ())
  | .insert txID key rec =>
      some ({ transactions with
        log := Function.update transactions.log txID
          (some ((transactions.log txID).getD [] ++ [.insert key (copy rec)])) }, ())
  | .deleteByKey txID key =>
      some ({ transactions with
        log := Function.update transactions.log txID
          (some ((transactions.log txID).getD [] ++ [.delete key])) }, ())
  | .commit txID =>
      (transactions.log txID).map fun log =>
        (⟨Function.update transactions.log txID none,
          log.foldl Operation.apply transactions.contents⟩, ())
  | .abort txID =>
      some ({ transactions with log := Function.update transactions.log txID none }, ())

/-- The table has the contents that the committed transactions have left, and every
other transaction has the log it should. -/
structure Atomic (next : TxTable (OverwritingTable K R) K R × Unit)
    (after : Transactions K R × Unit) : Prop where
  contents : next.1.tbl.contents = after.1.contents
  logs : ∀ txID, (next.1.logBuffer.buffer txID).getD [] =
    ((after.1.log txID).getD []).map Operation.entry

/-- A transaction that commits has inserted or deleted a record. -/
def Writes (transactions : Transactions K R) : Call K R → Prop
  | .commit txID => ∀ log, transactions.log txID = some log → log ≠ []
  | .begin _ | .insert _ _ _ | .deleteByKey _ _ | .abort _ => True

/-- What the log buffer has for the operations of a transaction. -/
def logged : List (Operation K R) → Option (List (LogEntry K R))
  | [] => none
  | operation :: operations => some ((operation :: operations).map Operation.entry)

omit [DecidableEq K] in
theorem getD_logged (operations : List (Operation K R)) :
    (logged operations).getD [] = operations.map Operation.entry := by
  cases operations with
  | nil => rfl
  | cons operation operations => rfl

omit [DecidableEq K] in
theorem logged_concat (operations : List (Operation K R)) (operation : Operation K R) :
    logged (operations ++ [operation]) =
      some ((operations ++ [operation]).map Operation.entry) := by
  cases operations with
  | nil => rfl
  | cons first operations => rfl

omit [DecidableEq K] in
theorem buffer_append {buffer : LogBuffer K R} {txID : TransactionID}
    {operations : List (Operation K R)} (before : buffer.buffer txID = logged operations)
    (operation : Operation K R) :
    (buffer.append txID operation.entry).buffer =
      Function.update buffer.buffer txID (logged (operations ++ [operation])) := by
  rw [logged_concat]
  unfold LogBuffer.append
  cases operations with
  | nil =>
      rw [show buffer.buffer txID = none from before]
      rfl
  | cons first operations =>
      rw [show buffer.buffer txID =
        some ((first :: operations).map Operation.entry) from before]
      simp only [List.map_append]
      rfl

/-- The loop of a commit applies the operations in their order. -/
theorem foldlM_applyEntry (operations : List (Operation K R))
    (tbl : OverwritingTable K R) :
    ∃ next, (operations.map Operation.entry).foldlM applyEntry tbl = some next ∧
      next.contents = operations.foldl Operation.apply tbl.contents := by
  induction operations generalizing tbl with
  | nil => exact ⟨tbl, rfl, rfl⟩
  | cons operation operations induction =>
      have first : ∃ middle, applyEntry tbl operation.entry = some middle ∧
          middle.contents = Operation.apply tbl.contents operation := by
        cases operation with
        | insert key rec => exact ⟨_, rfl, rfl⟩
        | delete key =>
            refine ⟨_, rfl, ?_⟩
            change (tbl.deleteByKey key).2.contents = _
            unfold OverwritingTable.deleteByKey
            cases found : tbl.contents key with
            | some rec => rfl
            | none => exact (Function.update_eq_self_iff.mpr found.symm).symm
      obtain ⟨middle, applied, contents⟩ := first
      obtain ⟨next, later, reached⟩ := induction middle
      refine ⟨next, ?_, by rw [reached, contents]; rfl⟩
      rw [List.map_cons, List.foldlM_cons, applied]
      exact later

/-- The table holds what was committed and the log buffer what was logged. -/
structure Related (table : TxTable (OverwritingTable K R) K R)
    (transactions : Transactions K R) : Prop where
  contents : table.tbl.contents = transactions.contents
  logs : ∀ txID,
    table.logBuffer.buffer txID = logged ((transactions.log txID).getD [])

omit [DecidableEq K] in
theorem Related.atomic {table : TxTable (OverwritingTable K R) K R}
    {transactions : Transactions K R} (related : Related table transactions) :
    Atomic (table, ()) (transactions, ()) := by
  refine ⟨related.contents, fun txID => ?_⟩
  rw [related.logs, getD_logged]

omit [DecidableEq K] in
/-- The log of one transaction changes in the buffer as it should. -/
theorem Related.update {table : TxTable (OverwritingTable K R) K R}
    {transactions : Transactions K R} (related : Related table transactions)
    (txID : TransactionID) (log : Option (List (Operation K R)))
    {buffer : LogBuffer K R}
    (changed : buffer.buffer =
      Function.update table.logBuffer.buffer txID (logged (log.getD []))) :
    Related { table with logBuffer := buffer }
      { transactions with log := Function.update transactions.log txID log } := by
  refine ⟨related.contents, fun other => ?_⟩
  simp only [changed]
  by_cases same : other = txID
  · subst same
    rw [Function.update_self, Function.update_self]
  · rw [Function.update_of_ne same, Function.update_of_ne same]
    exact related.logs other

/-- A call after which the table is atomic, if a committing transaction writes. -/
theorem step_atomic {copy : R → R} {table : TxTable (OverwritingTable K R) K R}
    {transactions : Transactions K R} (related : Related table transactions)
    (call : Call K R) {after : Transactions K R × Unit}
    (legal : reference copy transactions call = some after)
    (writes : Writes transactions call) :
    ∃ next, step copy table call = some next ∧ Atomic next after ∧
      Related next.1 after.1 := by
  have result {next : TxTable (OverwritingTable K R) K R} {reached : Transactions K R}
      (stepped : step copy table call = some (next, ()))
      (kept : Related next reached) (same : after = (reached, ())) :
      ∃ next, step copy table call = some next ∧ Atomic next after ∧
        Related next.1 after.1 := by
    subst same
    exact ⟨_, stepped, kept.atomic, kept⟩
  cases call with
  | begin txID =>
      refine result rfl (related.update txID (some ((transactions.log txID).getD [])) ?_)
        (Option.some.inj legal).symm
      exact (Function.update_eq_self_iff.mpr (related.logs txID).symm).symm
  | insert txID key rec =>
      refine result rfl (related.update txID (some _) ?_) (Option.some.inj legal).symm
      exact buffer_append (related.logs txID) (.insert key (copy rec))
  | deleteByKey txID key =>
      refine result rfl (related.update txID (some _) ?_) (Option.some.inj legal).symm
      exact buffer_append (related.logs txID) (.delete key)
  | commit txID =>
      obtain ⟨log, begun, same⟩ := Option.map_eq_some_iff.mp legal
      have operations := related.logs txID
      rw [begun, Option.getD_some] at operations
      cases log with
      | nil => exact absurd rfl (writes [] begun)
      | cons operation log =>
          obtain ⟨tbl, applied, contents⟩ :=
            foldlM_applyEntry (operation :: log) table.tbl
          have cleaned : Related { table with logBuffer := table.logBuffer.cleanup txID }
              { transactions with log := Function.update transactions.log txID none } :=
            related.update txID none rfl
          have kept : Related ⟨tbl, table.logBuffer.cleanup txID⟩
              ⟨Function.update transactions.log txID none,
                (operation :: log).foldl Operation.apply transactions.contents⟩ :=
            ⟨by rw [contents, related.contents], cleaned.logs⟩
          refine result ?_ kept same.symm
          rw [step, transactionCommit, LogBuffer.entries, operations]
          change ((List.foldlM applyEntry table.tbl _).bind _).map _ = _
          rw [applied]
          rfl
  | abort txID =>
      exact result rfl (related.update txID none rfl) (Option.some.inj legal).symm

/-- For every interleaving of calls of any transactions, every call succeeds, the
contents are the committed logs applied one after the other, and every open
transaction keeps its log, if and only if every transaction that commits has inserted
or deleted a record. -/
theorem txTable_atomic (copy : R → R) (calls : List (Call K R)) :
    Lockstep.Agree (step copy) (reference copy) Atomic
        (⟨⟨fun _ => none⟩, .init⟩ : TxTable (OverwritingTable K R) K R)
        Transactions.init calls ↔
      Lockstep.Along (reference copy) Writes Transactions.init calls := by
  apply Lockstep.agree_iff Related
  · exact fun table transactions call after related legal writes =>
      step_atomic related call legal writes
  · intro table transactions call after next related _ stepped _
    cases call with
    | commit txID =>
        intro log begun empty
        subst empty
        have missing : table.logBuffer.entries txID = none := by
          rw [LogBuffer.entries, related.logs, begun]
          rfl
        rw [step, transactionCommit, missing] at stepped
        cases stepped
    | begin txID => trivial
    | insert txID key rec => trivial
    | deleteByKey txID key => trivial
    | abort txID => trivial
  · exact ⟨rfl, fun _ => rfl⟩

/-- A transaction begins and commits. -/
theorem txTable_not_atomic :
    ¬ Lockstep.Agree (step id) (reference id) Atomic
      (⟨⟨fun _ => none⟩, .init⟩ : TxTable (OverwritingTable Nat Nat) Nat Nat)
      Transactions.init [.begin 1, .commit 1] := by
  intro agree
  obtain ⟨first, begun, _, agree⟩ := agree _ rfl
  cases begun
  obtain ⟨second, committed, _⟩ := agree _ rfl
  cases committed

end TxTable

end PipeFabric
