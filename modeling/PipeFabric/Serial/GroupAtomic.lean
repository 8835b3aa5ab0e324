import PipeFabric.Serial.Votes

/-!
# Histories of group commits

What is promised of every transaction of a writer, whatever the votes, and the
condition on the votes and writes of the history under which it is kept.  A
transaction with different votes leaves its writes in the write set of the table that
voted for it, and every transaction that is not committed keeps its slot.
-/

namespace PipeFabric

namespace TransactionalTable

open BufferedTable StateContext

variable {D Tbl K R Store : Type}

/-- Both tables vote for the transaction. -/
def GroupTx.agreed (tx : GroupTx D) : Bool := (List.finRange 2).all tx.commits

theorem GroupTx.agreed_iff {tx : GroupTx D} :
    tx.agreed = true ↔ ∀ i, tx.commits i = true := by
  simp [agreed]

theorem GroupTx.exists_against {tx : GroupTx D} (disputed : tx.agreed = false) :
    ∃ i, tx.commits i = false := by
  by_contra all
  have agreed : tx.agreed = true := by
    rw [agreed_iff]
    intro i
    apply Bool.eq_true_of_not_eq_false
    intro against
    exact all ⟨i, against⟩
  rw [disputed] at agreed
  cases agreed

/-- The calls of a transaction that both tables commit with their own writes. -/
def commitCalls (ops : GroupOperators D K R) (tx : GroupTx D) (first : TableID)
    (txnID : Nat) : List (GroupCall K R) :=
  [.transactionCommit first txnID (tx.writes ops first),
    .transactionCommit (otherID first) txnID (tx.writes ops (otherID first)),
    .setLastCTS txnID]

/-- A group commit that is made of the transaction's own writes finds the write sets
empty. -/
theorem commitCalls_own {ops : GroupOperators D K R} {tx : GroupTx D}
    {first claimed : TableID} {txnID id : Nat} {left : TableID → List (K × R)}
    (calls : [.transactionCommit first txnID (left first ++ tx.writes ops first),
        .transactionCommit (otherID first) txnID
          (left (otherID first) ++ tx.writes ops (otherID first)),
        .setLastCTS txnID] = commitCalls ops tx claimed id) (i : TableID) :
    left i = [] := by
  simp only [commitCalls, List.cons.injEq, GroupCall.transactionCommit.injEq] at calls
  obtain ⟨⟨same, _, own⟩, ⟨_, _, others⟩, _⟩ := calls
  cases same
  rcases eq_or_eq_otherID i first with here | there
  · rw [here]
    exact List.append_left_eq_self.mp own
  · rw [there]
    exact List.append_left_eq_self.mp others

/-- What is promised of one transaction.  If both tables vote for it, each of them
commits its writes, once, and then the commit is published; otherwise there is no
commit, and the contents stay. -/
structure Atomic (ops : GroupOperators D K R)
    (contents : TableGroup Tbl → TableID → Store)
    (effect : Store → List (K × R) → Store) (tx : GroupTx D)
    (before after : TableGroup Tbl) (calls : List (GroupCall K R)) : Prop where
  committed : tx.agreed = true →
    (∃ first txnID, calls = commitCalls ops tx first txnID) ∧
      ∀ i, contents after i = effect (contents before i) (tx.writes ops i)
  abandoned : tx.agreed = false →
    calls = [] ∧ ∀ i, contents after i = contents before i

/-- It is kept by every transaction of a history, all of which return. -/
def GroupAtomic [BufferedTable Tbl K R] (fuel : Nat) (ops : GroupOperators D K R)
    (contents : TableGroup Tbl → TableID → Store)
    (effect : Store → List (K × R) → Store) :
    List (GroupTx D) → TableGroup Tbl → Prop
  | [], _ => True
  | tx :: later, group =>
      ∃ next, tx.loggedRun fuel ops group = some next ∧
        Atomic ops contents effect tx group next.1 next.2 ∧
        GroupAtomic fuel ops contents effect later next.1

/-- The condition, with the number of slots that are not released and the writes that
are left in the write sets. -/
def Undisturbed (ops : GroupOperators D K R) :
    Nat → (TableID → List (K × R)) → List (GroupTx D) → Prop
  | _, _, [] => True
  | kept, left, tx :: later =>
      kept < 64 ∧
        if tx.agreed then
          (∀ i, left i = []) ∧ Undisturbed ops kept (fun _ => []) later
        else
          Undisturbed ops (kept + 1)
            (fun i => if tx.commits i then left i ++ tx.writes ops i else []) later

section

variable [BufferedTable Tbl K R]

/-- Each table commits the write set it has at the decision. -/
theorem loggedCommitBoth_calls [CommitFrame Tbl]
    (saves : ∀ tblID (group : TableGroup Tbl) i,
      writeSet ((beforeCommit tblID group).regStates i) = writeSet (group.regStates i))
    {fuel txnID : Nat} {tblID : TableID}
    {state next : TableGroup Tbl × List (GroupCall K R)}
    (returned : loggedCommitBoth fuel txnID tblID state = some next) :
    next.2 = state.2 ++
      [.transactionCommit tblID txnID (writeSet (state.1.regStates tblID)).set,
        .transactionCommit (otherID tblID) txnID
          (writeSet (state.1.regStates (otherID tblID))).set,
        .setLastCTS txnID] := by
  simp only [loggedCommitBoth, loggedCommit, Option.bind_eq_bind,
    Option.bind_eq_some_iff, Option.map_eq_some_iff, Option.pure_def,
    Option.some.injEq] at returned
  obtain ⟨_, ⟨first, firstReturned, rfl⟩, _, ⟨second, _, rfl⟩, sCtx, _, rfl⟩ := returned
  have other := CommitFrame.other _ _ _ _ _ firstReturned
  simp only [other, saves, List.append_assoc, List.cons_append, List.nil_append]

/-- A table kind whose groups are described by `between`, with the slots that are not
released and the number of transactions for which there are ids left. -/
structure GroupCommits (fuel : Nat) (contents : TableGroup Tbl → TableID → Store)
    (effect : Store → List (K × R) → Store)
    (between : Nat → Nat → TableGroup Tbl → Prop) : Prop where
  wellFormed : ∀ {kept ids group}, between kept ids group → group.sCtx.WellFormed
  occupied : ∀ {kept ids group}, between kept ids group →
    group.sCtx.occupied.card = kept
  deletes : ∀ (table : Tbl) (id : Nat) (key : K),
    TransactionalTable.deleteByKey table id key = some (1, table)
  saves : ∀ tblID (group : TableGroup Tbl) i,
    writeSet ((beforeCommit tblID group).regStates i) = writeSet (group.regStates i)
  abandon : ∀ {kept ids group txnID sCtx next buffered voted},
    between kept (ids + 1) group → group.sCtx.newTx = some (txnID, sCtx) →
    Delivered txnID (group.setCtx sCtx) next buffered voted →
    between (kept + 1) ids next ∧ ∀ i, contents next i = contents group i
  commit : ∀ {kept ids group txnID sCtx current buffered voted} (last : TableID),
    between kept (ids + 1) group → group.sCtx.newTx = some (txnID, sCtx) →
    Delivered txnID (group.setCtx sCtx) current buffered voted →
    ∃ next, commitBoth fuel txnID last current = some next ∧ between kept ids next ∧
      (∀ i, (writeSet (next.regStates i)).set = []) ∧
      ∀ i, contents next i = effect (contents group i) (buffered i).set

variable {fuel : Nat} {ops : GroupOperators D K R}
  {contents : TableGroup Tbl → TableID → Store} {effect : Store → List (K × R) → Store}
  {between : Nat → Nat → TableGroup Tbl → Prop}

/-- Without a free slot no transaction begins. -/
theorem newTx_full {ctx : StateContext} (full : 64 ≤ ctx.occupied.card) :
    ctx.newTx = none := by
  cases begun : ctx.newTx with
  | none => rfl
  | some taken =>
      have count := occupied_newTx begun
      have bound := card_occupied_le taken.2
      omega

theorem GroupCommits.begins (kind : GroupCommits fuel contents effect between)
    {kept ids : Nat} {group : TableGroup Tbl} (ready : between kept ids group)
    (room : kept < 64) :
    ∃ sCtx, group.sCtx.newTx = some (group.sCtx.nextTxID, sCtx) := by
  apply newTx_eq_some_iff.mpr
  rw [kind.occupied ready]
  exact room

/-- A transaction that is voted against changes no contents and keeps its slot. -/
theorem GroupCommits.disputed
    (kind : GroupCommits fuel contents effect between)
    (manual : ∀ i, (ops.operator i).mAutoCommit = false) {kept ids : Nat}
    {group : TableGroup Tbl} (ready : between kept (ids + 1) group) (room : kept < 64)
    {tx : GroupTx D} (disputed : tx.agreed = false) :
    ∃ next, tx.loggedRun fuel ops group = some (next, []) ∧
      between (kept + 1) ids next ∧
      (∀ i, contents next i = contents group i) ∧
      ∀ i, (writeSet (next.regStates i)).set =
        if tx.commits i then
          (writeSet (group.regStates i)).set ++ tx.writes ops i
        else [] := by
  obtain ⟨against, aborts⟩ := GroupTx.exists_against disputed
  obtain ⟨sCtx, begun⟩ := kind.begins ready room
  obtain ⟨next, voted, ran, delivered⟩ := GroupTx.loggedRun_undecided
    (kind.wellFormed ready) begun manual kind.deletes fuel aborts
  obtain ⟨after, unchanged⟩ := kind.abandon ready begun delivered
  refine ⟨next, ran, after, unchanged, ?_⟩
  intro i
  rw [delivered.tables, writeSet_set]
  cases tx.commits i <;> rfl

/-- A transaction that both tables vote for is committed with what is in the write
sets. -/
theorem GroupCommits.agreed [CommitFrame Tbl]
    (kind : GroupCommits fuel contents effect between)
    (manual : ∀ i, (ops.operator i).mAutoCommit = false) {kept ids : Nat}
    {group : TableGroup Tbl} (ready : between kept (ids + 1) group) (room : kept < 64)
    {tx : GroupTx D} (agreed : tx.agreed = true) :
    ∃ next first txnID,
      tx.loggedRun fuel ops group = some (next,
        [.transactionCommit first txnID
            ((writeSet (group.regStates first)).set ++ tx.writes ops first),
          .transactionCommit (otherID first) txnID
            ((writeSet (group.regStates (otherID first))).set ++
              tx.writes ops (otherID first)),
          .setLastCTS txnID]) ∧
      between kept ids next ∧ (∀ i, (writeSet (next.regStates i)).set = []) ∧
      ∀ i, contents next i = effect (contents group i)
        ((writeSet (group.regStates i)).set ++ tx.writes ops i) := by
  obtain ⟨sCtx, begun⟩ := kind.begins ready room
  obtain ⟨last, current, voted, ran, delivered⟩ := GroupTx.loggedRun_decided
    (kind.wellFormed ready) begun manual kind.deletes fuel (GroupTx.agreed_iff.mp agreed)
  obtain ⟨next, returned, after, clean, applied⟩ :=
    kind.commit last ready begun delivered
  have erased := loggedCommitBoth_fst fuel group.sCtx.nextTxID last (current, [])
  rw [returned, Option.map_eq_some_iff] at erased
  obtain ⟨recorded, committed, same⟩ := erased
  have calls := loggedCommitBoth_calls kind.saves committed
  simp only [delivered.tables, writeSet_set, List.nil_append] at calls
  refine ⟨next, last, group.sCtx.nextTxID, ?_, after, clean, applied⟩
  rw [ran, committed, ← same, ← calls]

/-- Every transaction of a history keeps the promise exactly if the condition holds
of its votes and writes. -/
theorem GroupCommits.groupAtomic_iff [CommitFrame Tbl]
    (kind : GroupCommits fuel contents effect between)
    (manual : ∀ i, (ops.operator i).mAutoCommit = false)
    (history : List (GroupTx D)) {kept : Nat} {left : TableID → List (K × R)}
    {group : TableGroup Tbl} (ready : between kept history.length group)
    (buffered : ∀ i, (writeSet (group.regStates i)).set = left i) :
    GroupAtomic fuel ops contents effect history group ↔
      Undisturbed ops kept left history := by
  induction history generalizing kept left group with
  | nil => exact Iff.rfl
  | cons tx history induction =>
      rw [GroupAtomic, Undisturbed]
      by_cases room : kept < 64
      case neg =>
        have full : group.sCtx.newTx = none := by
          apply newTx_full
          rw [kind.occupied ready]
          exact Nat.le_of_not_lt room
        constructor
        · intro kept
          obtain ⟨next, ran, _⟩ := kept
          simp [GroupTx.loggedRun, full] at ran
        · intro holds
          exact absurd holds.1 room
      case pos =>
        cases agreed : tx.agreed with
        | false =>
            obtain ⟨next, ran, after, unchanged, leaves⟩ :=
              kind.disputed manual ready room agreed
            have rest := induction after
              (fun i => by rw [leaves i, buffered i])
            rw [if_neg Bool.false_ne_true, ← rest]
            constructor
            · intro kept
              obtain ⟨other, again, _, later⟩ := kept
              cases ran.symm.trans again
              exact ⟨room, later⟩
            · intro holds
              refine ⟨(next, []), ran, ?_, holds.2⟩
              constructor
              · intro impossible
                rw [agreed] at impossible
                cases impossible
              · intro _
                exact ⟨rfl, unchanged⟩
        | true =>
            obtain ⟨next, first, txnID, ran, after, clean, applied⟩ :=
              kind.agreed manual ready room agreed
            simp only [buffered] at ran applied
            have rest := induction after clean
            rw [if_pos rfl, ← rest]
            constructor
            · intro kept
              obtain ⟨other, again, promised, later⟩ := kept
              cases ran.symm.trans again
              obtain ⟨⟨claimed, id, calls⟩, _⟩ := promised.committed agreed
              exact ⟨room, commitCalls_own calls, later⟩
            · intro holds
              obtain ⟨_, empty, later⟩ := holds
              refine ⟨_, ran, ?_, later⟩
              constructor
              · intro _
                refine ⟨⟨first, txnID, ?_⟩, ?_⟩
                · simp [commitCalls, empty]
                · intro i
                  rw [applied i, empty i, List.nil_append]
              · intro impossible
                rw [agreed] at impossible
                cases impossible

end

end TransactionalTable

end PipeFabric
