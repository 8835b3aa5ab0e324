import PipeFabric.Serial.Transactions
import PipeFabric.Serial.Votes

/-!
# Aborted transactions

`transactionAbort` of all three tables works on the table alone.  The slot that the
transaction has taken in the state context is released by `removeTx`, which only the
commit of a group calls, so every aborted transaction keeps its slot for good.
-/

namespace PipeFabric

namespace TransactionalTable

open StateContext

variable {D Tbl K R : Type}

/-- The tables, with their contents, write sets and locks, and the occupied slots
are those before the transaction. -/
structure AsIfNeverBegun (before after : TableGroup Tbl) : Prop where
  tables : after.regStates = before.regStates
  slots : after.sCtx.occupied = before.sCtx.occupied

section

variable [TransactionalTable Tbl K R] [CommitFrame Tbl]

omit [CommitFrame Tbl] in
/-- The element has changed its table, which is then committed if it has to be. -/
theorem processDataElement_eq_some {fuel : Nat} {op : ToTxTable D K R} {data : D}
    {outdated : Bool} {group next : TableGroup Tbl}
    (processed : op.processDataElement fuel data outdated group = some next) :
    ∃ table, (if op.mAutoCommit then
        transactionCommit fuel (op.mTxFunc data) op.mTable
          (group.setTable op.mTable table)
      else some (group.setTable op.mTable table)) = some next := by
  simp only [ToTxTable.processDataElement] at processed
  split at processed
  · obtain ⟨table, _, committed⟩ := Option.bind_eq_some_iff.mp processed
    exact ⟨table, committed⟩
  · obtain ⟨table, _, committed⟩ := Option.bind_eq_some_iff.mp processed
    exact ⟨table, committed⟩

/-- Nothing but a vote for commit touches the slots. -/
theorem deliver_usedSlots {fuel txnID : Nat} {ops : GroupOperators D K R}
    {group next : TableGroup Tbl} {arrival : TableID × TxItem D}
    (other : arrival.2 ≠ .vote true)
    (delivered : deliver fuel ops txnID group arrival = some next) :
    next.sCtx.usedSlots = group.sCtx.usedSlots := by
  cases item : arrival.2 with
  | begin =>
      simp only [deliver, item, ToTxTable.processPunctuation, Option.bind_eq_bind,
        Option.bind_some, Option.pure_def, Option.some.injEq] at delivered
      rw [← delivered]
      rfl
  | tuple data outdated =>
      simp only [deliver, item] at delivered
      obtain ⟨table, committed⟩ := processDataElement_eq_some delivered
      split at committed
      · exact CommitFrame.usedSlots _ _ _ (group.setTable _ table) _ committed
      · rw [← Option.some.inj committed]
        rfl
  | vote commit =>
      cases commit with
      | true => exact absurd item other
      | false =>
          simp only [deliver, item, ToTxTable.processPunctuation, Option.bind_eq_bind,
            Option.bind_some, Option.pure_def, Option.some.injEq] at delivered
          rw [← delivered]
          rfl

theorem deliverAll_usedSlots {fuel txnID : Nat} {ops : GroupOperators D K R}
    {arrivals : List (TableID × TxItem D)} {group next : TableGroup Tbl}
    (others : ∀ arrival ∈ arrivals, arrival.2 ≠ .vote true)
    (delivered : arrivals.foldlM (deliver fuel ops txnID) group = some next) :
    next.sCtx.usedSlots = group.sCtx.usedSlots := by
  induction arrivals generalizing group with
  | nil =>
      cases delivered
      rfl
  | cons arrival arrivals induction =>
      rw [List.foldlM_cons] at delivered
      obtain ⟨middle, first, rest⟩ := Option.bind_eq_some_iff.mp delivered
      obtain ⟨here, later⟩ := List.forall_mem_cons.mp others
      exact (induction later rest).trans (deliver_usedSlots here first)

/-- An aborted transaction keeps its slot. -/
theorem occupied_aborted {fuel : Nat} {ops : GroupOperators D K R} {tx : GroupTx D}
    (aborts : ∀ i, tx.commits i = false) {group final : TableGroup Tbl}
    (ran : tx.run fuel ops group = some final) :
    final.sCtx.occupied.card = group.sCtx.occupied.card + 1 := by
  simp only [GroupTx.run, Option.bind_eq_bind, Option.bind_eq_some_iff] at ran
  obtain ⟨begun, started, delivered⟩ := ran
  have slots := deliverAll_usedSlots
    (by
      intro arrival arrives commit
      have vote : (arrival.1, TxItem.vote true) ∈ tx.arrivals := by
        rw [← commit]
        exact arrives
      have same := tx.vote_eq vote
      rw [aborts arrival.1] at same
      cases same)
    delivered
  rw [occupied_congr slots]
  exact occupied_newTx started

/-- Aborted transactions one after the other take all the slots there are. -/
theorem length_aborted_le {fuel : Nat} {ops : GroupOperators D K R}
    {history : List (GroupTx D)}
    (aborts : ∀ tx ∈ history, ∀ i, tx.commits i = false) {group final : TableGroup Tbl}
    (ran : runHistory fuel ops history group = some final) :
    group.sCtx.occupied.card + history.length ≤ 64 := by
  induction history generalizing group with
  | nil => exact card_occupied_le _
  | cons tx history induction =>
      rw [runHistory, List.foldlM_cons] at ran
      obtain ⟨middle, first, rest⟩ := Option.bind_eq_some_iff.mp ran
      obtain ⟨here, later⟩ := List.forall_mem_cons.mp aborts
      have taken := occupied_aborted here first
      have bound := induction later rest
      rw [List.length_cons]
      omega

theorem not_asIfNeverBegun {fuel : Nat} {ops : GroupOperators D K R} {tx : GroupTx D}
    (aborts : ∀ i, tx.commits i = false) {group final : TableGroup Tbl}
    (ran : tx.run fuel ops group = some final) : ¬ AsIfNeverBegun group final := by
  intro same
  have taken := occupied_aborted aborts ran
  rw [same.slots] at taken
  omega

end

section

variable [BufferedTable Tbl K R]

/-- Where writes are buffered, an abort gives the tables back as they were, and only
the slot is missing. -/
theorem run_aborted {group : TableGroup Tbl} (wellFormed : group.sCtx.WellFormed)
    (room : group.sCtx.occupied.card < 64)
    (clean : ∀ i, BufferedTable.writeSet (group.regStates i) = { txnID := 0, set := [] })
    {ops : GroupOperators D K R} (manual : ∀ i, (ops.operator i).mAutoCommit = false)
    (deletes : ∀ (table : Tbl) (id : Nat) (key : K),
      TransactionalTable.deleteByKey table id key = some (1, table))
    (fuel : Nat) {tx : GroupTx D} (aborts : ∀ i, tx.commits i = false) :
    ∃ final, tx.run fuel ops group = some final ∧
      final.regStates = group.regStates ∧
      final.sCtx.occupied.card = group.sCtx.occupied.card + 1 := by
  obtain ⟨sCtx, begun⟩ := newTx_eq_some_iff.mpr room
  obtain ⟨final, voted, ran, delivered⟩ := GroupTx.loggedRun_undecided wellFormed begun
    manual deletes fuel (aborts 0)
  refine ⟨final, ?_, ?_, ?_⟩
  · rw [← GroupTx.loggedRun_fst, ran]
    rfl
  · funext i
    rw [delivered.tables i, aborts i, if_neg Bool.false_ne_true, ← clean i]
    exact BufferedTable.set_self _
  · rw [occupied_congr delivered.usedSlots]
    exact occupied_newTx begun

end

/-- No aborted transaction leaves any of the three kinds of tables as if it had never
begun. -/
theorem abort_neverAtomic [LinearOrder K] [LinearOrder R] [Inhabited R]
    [UnderlyingTable Tbl K R] (fuel : Nat) (ops : GroupOperators D K R)
    {tx : GroupTx D} (aborts : ∀ i, tx.commits i = false) :
    (∀ group final : TableGroup (MVCCTable K R),
      tx.run fuel ops group = some final → ¬ AsIfNeverBegun group final) ∧
    (∀ group final : TableGroup (BOCCTable K R Tbl),
      tx.run fuel ops group = some final → ¬ AsIfNeverBegun group final) ∧
    (∀ group final : TableGroup (S2PLTable K R Tbl),
      tx.run fuel ops group = some final → ¬ AsIfNeverBegun group final) :=
  ⟨fun _ _ => not_asIfNeverBegun aborts, fun _ _ => not_asIfNeverBegun aborts,
    fun _ _ => not_asIfNeverBegun aborts⟩

theorem abort_neverAtomic_smallTx :
    (∃ final : TableGroup (MVCCTable Nat Nat),
      (smallTx fun _ => false).run 0 smallOps (emptyGroup 1) = some final ∧
        ¬ AsIfNeverBegun (emptyGroup 1) final) ∧
    (∃ final : TableGroup (BOCCTable Nat Nat (CuckooTable Nat Nat)),
      (smallTx fun _ => false).run 0 smallOps (emptyGroup 1) = some final ∧
        ¬ AsIfNeverBegun (emptyGroup 1) final) ∧
    (∃ final : TableGroup (S2PLTable Nat Nat (CuckooTable Nat Nat)),
      (smallTx fun _ => false).run 0 smallOps (emptyGroup 1) = some final ∧
        ¬ AsIfNeverBegun (emptyGroup 1) final) := by
  obtain ⟨versions, validation, locks⟩ :=
    @abort_neverAtomic (Nat × Nat × Nat) (CuckooTable Nat Nat) Nat Nat _ _ _ _ 0 smallOps
      (smallTx fun _ => false) fun _ => rfl
  refine ⟨⟨_, rfl, ?_⟩, ⟨_, rfl, ?_⟩, ⟨_, rfl, ?_⟩⟩
  · exact versions _ _ rfl
  · exact validation _ _ rfl
  · exact locks _ _ rfl

/-- The transaction that both tables vote against keeps its slot, and the table with
locks keeps its record. -/
theorem not_abort_atomic :
    (∃ final : TableGroup (MVCCTable Nat Nat),
      (smallTx fun _ => false).run 0 smallOps (emptyGroup 1) = some final ∧
        final.sCtx.usedSlots.getLsbD 0 = true ∧ ¬ AsIfNeverBegun (emptyGroup 1) final) ∧
    (∃ final : TableGroup (BOCCTable Nat Nat (CuckooTable Nat Nat)),
      (smallTx fun _ => false).run 0 smallOps (emptyGroup 1) = some final ∧
        final.sCtx.usedSlots.getLsbD 0 = true ∧ ¬ AsIfNeverBegun (emptyGroup 1) final) ∧
    (∃ final : TableGroup (S2PLTable Nat Nat (CuckooTable Nat Nat)),
      (smallTx fun _ => false).run 0 smallOps (emptyGroup 1) = some final ∧
        final.sCtx.usedSlots.getLsbD 0 = true ∧ (final.regStates 0).tbl.getByKey 7 = some 10 ∧
        ¬ AsIfNeverBegun (emptyGroup 1) final) := by
  have aborts : ∀ i, (smallTx fun _ => false).commits i = false := fun _ => rfl
  refine ⟨?_, ?_, ?_⟩
  · have taken : ((smallTx fun _ => false).run 0 smallOps
        (emptyGroup 1 : TableGroup (MVCCTable Nat Nat))).map
          (fun final => final.sCtx.usedSlots.getLsbD 0) = some true := by decide
    obtain ⟨final, ran, kept⟩ := Option.map_eq_some_iff.mp taken
    exact ⟨final, ran, kept, not_asIfNeverBegun aborts ran⟩
  · have taken : ((smallTx fun _ => false).run 0 smallOps
        (emptyGroup 1 : TableGroup (BOCCTable Nat Nat (CuckooTable Nat Nat)))).map
          (fun final => final.sCtx.usedSlots.getLsbD 0) = some true := by decide
    obtain ⟨final, ran, kept⟩ := Option.map_eq_some_iff.mp taken
    exact ⟨final, ran, kept, not_asIfNeverBegun aborts ran⟩
  · have taken : ((smallTx fun _ => false).run 0 smallOps
        (emptyGroup 1 : TableGroup (S2PLTable Nat Nat (CuckooTable Nat Nat)))).map
          (fun final => (final.sCtx.usedSlots.getLsbD 0,
            (final.regStates 0).tbl.getByKey 7)) = some (true, some 10) := by decide
    obtain ⟨final, ran, both⟩ := Option.map_eq_some_iff.mp taken
    obtain ⟨kept, stays⟩ := Prod.ext_iff.mp both
    exact ⟨final, ran, kept, stays, not_asIfNeverBegun aborts ran⟩

end TransactionalTable

end PipeFabric
