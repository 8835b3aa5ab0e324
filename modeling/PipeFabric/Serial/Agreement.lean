import PipeFabric.Serial.BOCCCommit
import PipeFabric.Serial.S2PLCommit

/-!
# Two protocols on the same serial history

Over a storage whose `insert` keeps the stored record of an existing key,
backward validation and locking leave the same contents: every key shows its
first write.
-/

namespace PipeFabric.TransactionalTable

open WriteFold

variable {K R : Type} [DecidableEq K]

/-- Transactions that run one after the other, each with the table that votes
first and its inserts. -/
abbrev History (K R : Type) := List (TableID × List (TableID × K × R))

/-- Everything a history writes to a table, in order. -/
def History.writesTo (history : History K R) (i : TableID) : List (K × R) :=
  TransactionalTable.writesTo (history.flatMap Prod.snd) i

/-- What is promised of a serial history: under both protocols either table ends
with the last write of every key. -/
structure LastWritersWin (history : History K R)
    (bocc : TableGroup (BOCCTable K R (CuckooTable K R)))
    (s2pl : TableGroup (S2PLTable K R (CuckooTable K R))) : Prop where
  validated : ∀ i, (bocc.regStates i).tbl.getByKey =
    overwrite (fun _ => none) (history.writesTo i)
  locked : ∀ i, (s2pl.regStates i).tbl.getByKey =
    overwrite (fun _ => none) (history.writesTo i)
  agree : ∀ i, (bocc.regStates i).tbl.getByKey =
    (s2pl.regStates i).tbl.getByKey

omit [DecidableEq K] in
theorem occupied_emptyGroup {Tbl : Type} [TransactionalTable Tbl K R]
    (clock : Nat) : (emptyGroup clock : TableGroup Tbl).sCtx.occupied.card < 64 := by
  rw [emptyGroup, StateContext.occupied_initial]
  decide

/-- Every history returns with backward validation, and a key shows its first
write. -/
theorem serialHistory_bocc {clock : Nat} (positive : 0 < clock) (fuel : Nat)
    (history : History K R) :
    ∃ final : TableGroup (BOCCTable K R (CuckooTable K R)),
      serialHistory fuel history (emptyGroup clock) = some final ∧
      ∀ i, (final.regStates i).tbl.getByKey =
        firstWrite (history.writesTo i) := by
  have start : BOCCTable.Between
      (emptyGroup clock : TableGroup (BOCCTable K R (CuckooTable K R))) :=
    { wellFormed := StateContext.initial_wellFormed positive
      room := occupied_emptyGroup clock
      clean := fun _ => rfl }
  obtain ⟨final, returned, _, applied⟩ := serialHistory_returns BOCCTable.tbl
    BOCCTable.Between UnderlyingTable.insertAll_append (fun _ => rfl)
    (fun _ first inserts between => between.transaction fuel first inserts)
    history start
  refine ⟨final, returned, ?_⟩
  intro i
  rw [applied i, CuckooTable.getByKey_insertAll]
  exact keepExisting_empty

/-- So does every history with locks. -/
theorem serialHistory_s2pl {clock : Nat} (positive : 0 < clock) (fuel : Nat)
    (history : History K R) :
    ∃ final : TableGroup (S2PLTable K R (CuckooTable K R)),
      serialHistory fuel history (emptyGroup clock) = some final ∧
      ∀ i, (final.regStates i).tbl.getByKey =
        firstWrite (history.writesTo i) := by
  have start : S2PLTable.Ready
      (emptyGroup clock : TableGroup (S2PLTable K R (CuckooTable K R))) :=
    { wellFormed := StateContext.initial_wellFormed positive
      room := occupied_emptyGroup clock
      unread := fun _ _ => rfl }
  obtain ⟨final, returned, _, applied⟩ := serialHistory_returns S2PLTable.tbl
    S2PLTable.Ready UnderlyingTable.insertAll_append (fun _ => rfl)
    (fun _ first inserts ready => ready.transaction fuel first inserts)
    history start
  refine ⟨final, returned, ?_⟩
  intro i
  rw [applied i, CuckooTable.getByKey_insertAll]
  exact keepExisting_empty

/-- Both protocols keep the promise exactly if the last write of every key
repeats its first one. -/
theorem serialHistory_lastWritersWin {clock : Nat} (positive : 0 < clock)
    (fuel : Nat) (history : History K R) :
    ∃ bocc s2pl, serialHistory fuel history (emptyGroup clock) = some bocc ∧
      serialHistory fuel history (emptyGroup clock) = some s2pl ∧
      (LastWritersWin history bocc s2pl ↔ ∀ i key,
        firstWrite (history.writesTo i) key =
          lastWrite (history.writesTo i) key) := by
  obtain ⟨bocc, boccReturned, validated⟩ :=
    serialHistory_bocc positive fuel history
  obtain ⟨s2pl, s2plReturned, locked⟩ :=
    serialHistory_s2pl positive fuel history
  refine ⟨bocc, s2pl, boccReturned, s2plReturned, ?_⟩
  constructor
  · intro wins i key
    have shown := wins.validated i
    rw [validated i, overwrite_empty] at shown
    exact congrFun shown key
  · intro repeated
    have folds : ∀ i, firstWrite (history.writesTo i) =
        overwrite (fun _ => none) (history.writesTo i) := by
      intro i
      rw [overwrite_empty]
      funext key
      exact repeated i key
    exact
      { validated := fun i => (validated i).trans (folds i)
        locked := fun i => (locked i).trans (folds i)
        agree := fun i => (validated i).trans (locked i).symm }

theorem serialHistory_lastWritersWin_repeatedRecord :
    ∃ bocc s2pl,
      serialHistory 0 [(0, [(0, 7, 10), (1, 7, 20)]), (1, [(0, 7, 10)])]
        (emptyGroup 1) = some bocc ∧
      serialHistory 0 [(0, [(0, 7, 10), (1, 7, 20)]), (1, [(0, 7, 10)])]
        (emptyGroup 1) = some s2pl ∧
      LastWritersWin [(0, [(0, (7 : Nat), (10 : Nat)), (1, 7, 20)]),
        (1, [(0, 7, 10)])] bocc s2pl := by
  obtain ⟨bocc, s2pl, validated, locked, promise⟩ :=
    serialHistory_lastWritersWin (by decide : 0 < 1) 0
      [(0, [(0, (7 : Nat), (10 : Nat)), (1, 7, 20)]), (1, [(0, 7, 10)])]
  refine ⟨bocc, s2pl, validated, locked, promise.mpr ?_⟩
  intro i
  apply firstWrite_eq_lastWrite
  revert i
  decide

/-- The second transaction writes 20 to a key that holds 10; it keeps 10 under
both protocols. -/
theorem not_serialHistory_lastWritersWin :
    ∃ bocc s2pl,
      serialHistory 0 [(0, [(0, 7, 10)]), (0, [(0, 7, 20)])] (emptyGroup 1) =
        some bocc ∧
      serialHistory 0 [(0, [(0, 7, 10)]), (0, [(0, 7, 20)])] (emptyGroup 1) =
        some s2pl ∧
      (bocc.regStates 0).tbl.getByKey 7 = some 10 ∧
      (s2pl.regStates 0).tbl.getByKey 7 = some 10 ∧
      ¬ LastWritersWin [(0, [(0, (7 : Nat), (10 : Nat))]), (0, [(0, 7, 20)])]
        bocc s2pl := by
  have validates : (serialHistory 0
      [(0, [(0, (7 : Nat), (10 : Nat))]), (0, [(0, 7, 20)])]
      (emptyGroup 1 : TableGroup (BOCCTable Nat Nat (CuckooTable Nat Nat)))).map
        (fun final => (final.regStates 0).tbl.getByKey 7) = some (some 10) := by
    decide
  have locks : (serialHistory 0
      [(0, [(0, (7 : Nat), (10 : Nat))]), (0, [(0, 7, 20)])]
      (emptyGroup 1 : TableGroup (S2PLTable Nat Nat (CuckooTable Nat Nat)))).map
        (fun final => (final.regStates 0).tbl.getByKey 7) = some (some 10) := by
    decide
  obtain ⟨bocc, validated, kept⟩ := Option.map_eq_some_iff.mp validates
  obtain ⟨s2pl, locked, stays⟩ := Option.map_eq_some_iff.mp locks
  refine ⟨bocc, s2pl, validated, locked, kept, stays, ?_⟩
  intro wins
  have shown := congrFun (wins.validated 0) 7
  rw [kept] at shown
  exact absurd shown (by decide)

end PipeFabric.TransactionalTable
