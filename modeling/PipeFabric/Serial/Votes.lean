import PipeFabric.Serial.CommitFrame
import PipeFabric.Serial.GroupStreams

/-!
# Votes on a transaction

Until the second vote for commit arrives, a transaction changes the write sets of the
tables and its own entry in the state context only.  A vote for abort empties the
write set of its table, and of no other one.
-/

namespace PipeFabric

namespace TransactionalTable

open BufferedTable StateContext

section

variable {D Tbl K R : Type}

/-- What an item makes of the write set of its table. -/
def bufferItem (op : ToTxTable D K R) (txnID : Nat) (ws : WriteSet K R) :
    TxItem D → WriteSet K R
  | .begin => { ws with txnID := txnID }
  | .tuple data outdated =>
      if outdated then ws else ws.insert (op.mKeyFunc data) (op.tuple data)
  | .vote true => ws
  | .vote false => ws.clean

/-- What all of them make of it. -/
def buffer (op : ToTxTable D K R) (txnID : Nat) (ws : WriteSet K R)
    (items : List (TxItem D)) : WriteSet K R :=
  items.foldl (bufferItem op txnID) ws

/-- The status of both tables after an item. -/
def voteItem (status : TableID → Status) (i : TableID) :
    TxItem D → TableID → Status
  | .vote true => Function.update status i .Commit
  | _ => status

theorem voteItem_eq_commit {status : TableID → Status} {i j : TableID}
    {item : TxItem D} :
    voteItem status i item j = .Commit ↔
      status j = .Commit ∨ (j, TxItem.vote true) = (i, item) := by
  unfold voteItem
  split
  · by_cases here : j = i
    · simp [here]
    · simp [here]
  · rename_i other
    constructor
    · exact Or.inl
    · intro either
      rcases either with before | same
      · exact before
      · exact absurd (Prod.ext_iff.mp same).2.symm other

/-- The writes of a transaction to a table. -/
def GroupTx.writes (ops : GroupOperators D K R) (tx : GroupTx D) (i : TableID) :
    List (K × R) :=
  ((tx.tuples i).filter fun tuple => !tuple.2).map fun tuple =>
    ((ops.operator i).mKeyFunc tuple.1, (ops.operator i).tuple tuple.1)

theorem buffer_append (op : ToTxTable D K R) (txnID : Nat) (ws : WriteSet K R)
    (items later : List (TxItem D)) :
    buffer op txnID ws (items ++ later) =
      buffer op txnID (buffer op txnID ws items) later := List.foldl_append

/-- The tuples are appended to what was left in the write set. -/
theorem buffer_tuples (op : ToTxTable D K R) (txnID : Nat) (ws : WriteSet K R)
    (tuples : List (D × Bool)) :
    buffer op txnID ws (tuples.map fun tuple => .tuple tuple.1 tuple.2) =
      { ws with
        set := ws.set ++ (tuples.filter fun tuple => !tuple.2).map fun tuple =>
          (op.mKeyFunc tuple.1, op.tuple tuple.1) } := by
  induction tuples generalizing ws with
  | nil => simp [buffer]
  | cons tuple tuples induction =>
      rw [List.map_cons, buffer, List.foldl_cons]
      cases outdated : tuple.2 with
      | true =>
          simp only [bufferItem, if_true]
          rw [← buffer, induction]
          simp [outdated]
      | false =>
          simp only [bufferItem, Bool.false_eq_true, if_false]
          rw [← buffer, induction]
          simp [outdated, WriteSet.insert]

/-- Before the vote the write set holds the writes of the transaction, after those
that were left in it. -/
theorem buffer_begun (ops : GroupOperators D K R) (tx : GroupTx D) (txnID : Nat)
    (i : TableID) (ws : WriteSet K R) :
    buffer (ops.operator i) txnID ws
        (.begin :: (tx.tuples i).map fun tuple => .tuple tuple.1 tuple.2) =
      { txnID := txnID, set := ws.set ++ tx.writes ops i } := by
  rw [buffer, List.foldl_cons, ← buffer, buffer_tuples]
  rfl

/-- A vote for commit leaves the write set, a vote for abort empties it. -/
theorem buffer_arrivals (ops : GroupOperators D K R) (tx : GroupTx D) (txnID : Nat)
    (i : TableID) (ws : WriteSet K R) :
    buffer (ops.operator i) txnID ws (itemsOf tx.arrivals i) =
      if tx.commits i then { txnID := txnID, set := ws.set ++ tx.writes ops i }
      else { txnID := 0, set := [] } := by
  rw [tx.inOrder i, buffer_append, buffer_begun]
  cases tx.commits i <;> rfl

/-- No update of the entry. -/
theorem replaces_self {ctx : StateContext} {txnID : Nat} {entry : ActiveTx}
    (wellFormed : ctx.WellFormed) (active : ctx.activeTx txnID = some entry) :
    Replaces ctx ctx txnID (some entry) where
  lastCTS := rfl
  oldestVisibleVersion := rfl
  wellFormed := wellFormed
  activeTx := by rw [← active, Function.update_eq_self]

end

/-! ## The calls of a decision -/

/-- What the deciding vote calls; a commit is recorded with the write set it finds. -/
inductive GroupCall (K R : Type) where
  | transactionCommit (tblID : TableID) (txnID : Nat) (writes : List (K × R))
  | setLastCTS (txnID : Nat)
  deriving DecidableEq

section

variable {D Tbl K R : Type} [BufferedTable Tbl K R]

/-- `transactionCommit`, recorded. -/
def loggedCommit (fuel txnID : Nat) (tblID : TableID)
    (state : TableGroup Tbl × List (GroupCall K R)) :
    Option (TableGroup Tbl × List (GroupCall K R)) :=
  (transactionCommit fuel txnID tblID state.1).map fun next =>
    (next, state.2 ++
      [.transactionCommit tblID txnID (writeSet (state.1.regStates tblID)).set])

/-- `commitBoth`, recorded. -/
def loggedCommitBoth (fuel txnID : Nat) (tblID : TableID)
    (state : TableGroup Tbl × List (GroupCall K R)) :
    Option (TableGroup Tbl × List (GroupCall K R)) := do
  let saved := beforeCommit (otherID tblID) (beforeCommit tblID state.1)
  let first ← loggedCommit fuel txnID tblID (saved, state.2)
  let second ← loggedCommit fuel txnID (otherID tblID) first
  let sCtx ← (second.1.sCtx.setLastCTS txnID).removeTx txnID
  return (second.1.setCtx sCtx, second.2 ++ [.setLastCTS txnID])

/-- `transactionPreCommit`, recorded. -/
def loggedPreCommit (fuel txnID : Nat) (tblID : TableID)
    (state : TableGroup Tbl × List (GroupCall K R)) :
    Option (TableGroup Tbl × List (GroupCall K R)) := do
  let sCtx ← state.1.sCtx.setWriteStatus txnID tblID .Commit
  let group := state.1.setCtx sCtx
  let otherState ← sCtx.getWriteStatus txnID (otherID tblID)
  if otherState = .Commit then loggedCommitBoth fuel txnID tblID (group, state.2)
  else return (group, state.2)

/-- `deliver`, recorded. -/
def loggedDeliver (fuel : Nat) (ops : GroupOperators D K R) (txnID : Nat)
    (state : TableGroup Tbl × List (GroupCall K R)) (arrival : TableID × TxItem D) :
    Option (TableGroup Tbl × List (GroupCall K R)) :=
  match arrival.2 with
  | .vote true => loggedPreCommit fuel txnID (ops.operator arrival.1).mTable state
  | _ => (deliver fuel ops txnID state.1 arrival).map fun next => (next, state.2)

/-- A transaction, recorded. -/
def GroupTx.loggedRun (fuel : Nat) (ops : GroupOperators D K R) (tx : GroupTx D)
    (group : TableGroup Tbl) : Option (TableGroup Tbl × List (GroupCall K R)) := do
  let begun ← group.sCtx.newTx
  tx.arrivals.foldlM (loggedDeliver fuel ops begun.1) (group.setCtx begun.2, [])

/-! Without the record these are the functions of the tables and operators. -/

theorem loggedCommitBoth_fst (fuel txnID : Nat) (tblID : TableID)
    (state : TableGroup Tbl × List (GroupCall K R)) :
    (loggedCommitBoth fuel txnID tblID state).map Prod.fst =
      commitBoth fuel txnID tblID state.1 := by
  simp only [loggedCommitBoth, commitBoth, loggedCommit, Option.bind_eq_bind]
  cases transactionCommit fuel txnID tblID
    (beforeCommit (otherID tblID) (beforeCommit tblID state.1)) with
  | none => rfl
  | some first =>
      simp only [Option.map_some, Option.bind_some]
      cases transactionCommit fuel txnID (otherID tblID) first with
      | none => rfl
      | some second =>
          simp only [Option.map_some, Option.bind_some]
          cases (second.sCtx.setLastCTS txnID).removeTx txnID <;> rfl

theorem loggedPreCommit_fst (fuel txnID : Nat) (tblID : TableID)
    (state : TableGroup Tbl × List (GroupCall K R)) :
    (loggedPreCommit fuel txnID tblID state).map Prod.fst =
      transactionPreCommit fuel txnID tblID state.1 := by
  simp only [loggedPreCommit, transactionPreCommit, Option.bind_eq_bind]
  cases state.1.sCtx.setWriteStatus txnID tblID .Commit with
  | none => rfl
  | some sCtx =>
      simp only [Option.bind_some]
      cases sCtx.getWriteStatus txnID (otherID tblID) with
      | none => rfl
      | some other =>
          simp only [Option.bind_some]
          split
          · apply loggedCommitBoth_fst
          · rfl

theorem loggedDeliver_fst (fuel : Nat) (ops : GroupOperators D K R) (txnID : Nat)
    (state : TableGroup Tbl × List (GroupCall K R)) (arrival : TableID × TxItem D) :
    (loggedDeliver fuel ops txnID state arrival).map Prod.fst =
      deliver fuel ops txnID state.1 arrival := by
  unfold loggedDeliver
  split
  · rename_i vote
    rw [loggedPreCommit_fst]
    simp [deliver, vote, ToTxTable.processPunctuation]
  · rw [Option.map_map]
    exact congrFun Option.map_id _

theorem loggedDeliverAll_fst (fuel : Nat) (ops : GroupOperators D K R) (txnID : Nat)
    (arrivals : List (TableID × TxItem D))
    (state : TableGroup Tbl × List (GroupCall K R)) :
    (arrivals.foldlM (loggedDeliver fuel ops txnID) state).map Prod.fst =
      arrivals.foldlM (deliver fuel ops txnID) state.1 := by
  induction arrivals generalizing state with
  | nil => rfl
  | cons arrival arrivals induction =>
      rw [List.foldlM_cons, List.foldlM_cons, ← loggedDeliver_fst]
      cases loggedDeliver fuel ops txnID state arrival with
      | none => rfl
      | some next => exact induction next

theorem GroupTx.loggedRun_fst (fuel : Nat) (ops : GroupOperators D K R)
    (tx : GroupTx D) (group : TableGroup Tbl) :
    (tx.loggedRun fuel ops group).map Prod.fst = tx.run fuel ops group := by
  simp only [loggedRun, run, Option.bind_eq_bind]
  cases group.sCtx.newTx with
  | none => rfl
  | some begun => exact loggedDeliverAll_fst fuel ops begun.1 tx.arrivals _

end

/-! ## Before the decision -/

section

variable {D Tbl K R : Type} [BufferedTable Tbl K R]

/-- The group after some of the items of a transaction: what is buffered for its
tables and their status have changed. -/
structure Delivered (txnID : Nat) (group next : TableGroup Tbl)
    (buffered : TableID → WriteSet K R) (status : TableID → Status) : Prop where
  context : Replaces group.sCtx next.sCtx txnID
    (some { freshTx txnID with writeInfo := status })
  nextTxID : next.sCtx.nextTxID = group.sCtx.nextTxID
  usedSlots : next.sCtx.usedSlots = group.sCtx.usedSlots
  tables : ∀ i, next.regStates i = setWriteSet (group.regStates i) (buffered i)

variable {txnID : Nat} {ops : GroupOperators D K R} {group current : TableGroup Tbl}
  {buffered : TableID → WriteSet K R} {status : TableID → Status}

theorem Delivered.start (wellFormed : group.sCtx.WellFormed)
    (active : group.sCtx.activeTx txnID = some (freshTx txnID)) :
    Delivered txnID group group (fun i => writeSet (group.regStates i))
      (fun _ => .Active) where
  context := replaces_self wellFormed active
  nextTxID := rfl
  usedSlots := rfl
  tables := fun i => (set_self (group.regStates i)).symm

theorem Delivered.active (delivered : Delivered txnID group current buffered status) :
    current.sCtx.activeTx txnID =
      some { freshTx txnID with writeInfo := status } := by
  rw [delivered.context.activeTx, Function.update_self]

/-- The write set of one table changes. -/
theorem Delivered.setTable (delivered : Delivered txnID group current buffered status)
    (i : TableID) (ws : WriteSet K R) :
    Delivered txnID group
      (current.setTable i (setWriteSet (current.regStates i) ws))
      (Function.update buffered i ws) status where
  context := delivered.context
  nextTxID := delivered.nextTxID
  usedSlots := delivered.usedSlots
  tables := by
    intro j
    by_cases here : j = i
    · subst here
      simp [delivered.tables]
    · simp [here, delivered.tables]

/-- A vote is stored, and the stored vote of the other table decides. -/
theorem Delivered.loggedPreCommit
    (delivered : Delivered txnID group current buffered status) (fuel : Nat)
    (i : TableID) (calls : List (GroupCall K R)) :
    ∃ sCtx, Delivered txnID group (current.setCtx sCtx) buffered
        (Function.update status i .Commit) ∧
      TransactionalTable.loggedPreCommit fuel txnID i (current, calls) =
        if status (otherID i) = .Commit then
          loggedCommitBoth fuel txnID i (current.setCtx sCtx, calls)
        else some (current.setCtx sCtx, calls) := by
  obtain ⟨sCtx, set⟩ := setWriteStatus_isSome delivered.active i .Commit
  obtain ⟨voted, counter⟩ :=
    delivered.context.wellFormed.setWriteStatus delivered.active set
  have slots : sCtx.usedSlots = current.sCtx.usedSlots := by
    unfold StateContext.setWriteStatus at set
    obtain ⟨pos, _, rfl⟩ := Option.map_eq_some_iff.mp set
    rfl
  have after : Delivered txnID group (current.setCtx sCtx) buffered
      (Function.update status i .Commit) :=
    { context := delivered.context.trans voted
      nextTxID := counter.trans delivered.nextTxID
      usedSlots := slots.trans delivered.usedSlots
      tables := delivered.tables }
  have other : sCtx.getWriteStatus txnID (otherID i) = some (status (otherID i)) := by
    have active : sCtx.activeTx txnID = _ := after.active
    rw [StateContext.getWriteStatus_of_active active]
    exact congrArg some (Function.update_of_ne (otherID_ne i) _ _)
  refine ⟨sCtx, after, ?_⟩
  simp only [TransactionalTable.loggedPreCommit, set, other, Option.bind_eq_bind,
    Option.bind_some]
  rfl

/-- An item that does not decide. -/
theorem Delivered.deliver (delivered : Delivered txnID group current buffered status)
    (manual : ∀ i, (ops.operator i).mAutoCommit = false)
    (deletes : ∀ (table : Tbl) (id : Nat) (key : K),
      TransactionalTable.deleteByKey table id key = some (1, table))
    (fuel : Nat) (calls : List (GroupCall K R)) (i : TableID) (item : TxItem D)
    (undecided : item = .vote true → status (otherID i) ≠ .Commit) :
    ∃ next, loggedDeliver fuel ops txnID (current, calls) (i, item) =
        some (next, calls) ∧
      Delivered txnID group next
        (Function.update buffered i (bufferItem (ops.operator i) txnID (buffered i) item))
        (voteItem status i item) := by
  have written : ∀ j, writeSet (current.regStates j) = buffered j := by
    intro j
    rw [delivered.tables, writeSet_set]
  cases item with
  | begin =>
      refine ⟨_, rfl, ?_⟩
      simp only [ops.ownTable, transactionBegin_eq, written]
      exact delivered.setTable i _
  | tuple data outdated =>
      cases outdated with
      | true =>
          refine ⟨current.setTable i (current.regStates i), ?_, ?_⟩
          · simp [loggedDeliver, TransactionalTable.deliver,
              ToTxTable.processDataElement, deletes, ops.ownTable, manual i]
          · have kept := delivered.setTable i (buffered i)
            rw [← written i, set_self, written i] at kept
            exact kept
      | false =>
          refine ⟨_, ?_, delivered.setTable i _⟩
          simp [loggedDeliver, TransactionalTable.deliver,
            ToTxTable.processDataElement, insert_eq, ops.ownTable, manual i, written,
            bufferItem]
  | vote commit =>
      cases commit with
      | true =>
          obtain ⟨sCtx, voted, waits⟩ := delivered.loggedPreCommit fuel i calls
          rw [if_neg (undecided rfl)] at waits
          refine ⟨current.setCtx sCtx, ?_, ?_⟩
          · simp only [loggedDeliver, ops.ownTable]
            exact waits
          · rw [bufferItem, Function.update_eq_self]
            exact voted
      | false =>
          refine ⟨_, rfl, ?_⟩
          simp only [ops.ownTable, transactionAbort_eq, written]
          exact delivered.setTable i _

/-- As long as one table has not voted for commit, nothing is decided. -/
theorem Delivered.deliverAll
    (delivered : Delivered txnID group current buffered status)
    (manual : ∀ i, (ops.operator i).mAutoCommit = false)
    (deletes : ∀ (table : Tbl) (id : Nat) (key : K),
      TransactionalTable.deleteByKey table id key = some (1, table))
    (fuel : Nat) (calls : List (GroupCall K R)) (arrivals : List (TableID × TxItem D))
    {silent : TableID} (waits : status silent ≠ .Commit)
    (abstains : (silent, .vote true) ∉ arrivals) :
    ∃ next voted,
      arrivals.foldlM (loggedDeliver fuel ops txnID) (current, calls) =
        some (next, calls) ∧
      Delivered txnID group next
        (fun i => buffer (ops.operator i) txnID (buffered i) (itemsOf arrivals i)) voted ∧
      ∀ i, (voted i = .Commit ↔
        status i = .Commit ∨ (i, .vote true) ∈ arrivals) := by
  induction arrivals generalizing current buffered status with
  | nil =>
      refine ⟨current, status, rfl, delivered, ?_⟩
      simp
  | cons arrival arrivals induction =>
      rw [List.mem_cons, not_or] at abstains
      have elsewhere : arrival.2 = .vote true → arrival.1 = otherID silent := by
        intro vote
        rcases eq_or_eq_otherID arrival.1 silent with here | there
        · exact absurd (Prod.ext here vote).symm abstains.1
        · exact there
      obtain ⟨middle, first, after⟩ := delivered.deliver manual deletes fuel calls
        arrival.1 arrival.2 (by
          intro vote
          rw [elsewhere vote, otherID_otherID]
          exact waits)
      have still : voteItem status arrival.1 arrival.2 silent ≠ .Commit := by
        intro voted
        exact (voteItem_eq_commit.mp voted).elim waits abstains.1
      obtain ⟨next, voted, rest, ended, votes⟩ := induction after still abstains.2
      refine ⟨next, voted, ?_, ?_, ?_⟩
      · rw [List.foldlM_cons]
        exact Option.bind_eq_some_iff.mpr ⟨(middle, calls), first, rest⟩
      · have same : (fun i => buffer (ops.operator i) txnID
            (Function.update buffered arrival.1
              (bufferItem (ops.operator arrival.1) txnID (buffered arrival.1) arrival.2) i)
            (itemsOf arrivals i)) =
            fun i => buffer (ops.operator i) txnID (buffered i)
              (itemsOf (arrival :: arrivals) i) := by
          funext i
          rw [itemsOf_cons]
          by_cases here : arrival.1 = i
          · subst here
            simp [buffer]
          · have different : i ≠ arrival.1 := fun same => here same.symm
            simp [here, different]
        rw [← same]
        exact ended
      · intro i
        rw [votes i, voteItem_eq_commit, List.mem_cons, or_assoc]

theorem Delivered.begun {sCtx : StateContext} (wellFormed : group.sCtx.WellFormed)
    (begun : group.sCtx.newTx = some (txnID, sCtx)) :
    Delivered txnID (group.setCtx sCtx) (group.setCtx sCtx)
      (fun i => writeSet (group.regStates i)) (fun _ => .Active) := by
  obtain ⟨_, _, started⟩ := wellFormed.newTx begun
  apply Delivered.start started.wellFormed
  rw [TableGroup.setCtx_sCtx, started.activeTx, Function.update_self]

/-- A transaction that one of the tables votes against calls nothing.  A table that
voted for it keeps the writes in its write set. -/
theorem GroupTx.loggedRun_undecided {sCtx : StateContext} {tx : GroupTx D}
    (wellFormed : group.sCtx.WellFormed)
    (begun : group.sCtx.newTx = some (txnID, sCtx))
    (manual : ∀ i, (ops.operator i).mAutoCommit = false)
    (deletes : ∀ (table : Tbl) (id : Nat) (key : K),
      TransactionalTable.deleteByKey table id key = some (1, table))
    (fuel : Nat) {against : TableID} (aborts : tx.commits against = false) :
    ∃ final voted, tx.loggedRun fuel ops group = some (final, []) ∧
      Delivered txnID (group.setCtx sCtx) final
        (fun i => if tx.commits i then
            { txnID := txnID
              set := (writeSet (group.regStates i)).set ++ tx.writes ops i }
          else { txnID := 0, set := [] }) voted := by
  have abstains : (against, TxItem.vote true) ∉ tx.arrivals := by
    intro vote
    have same := tx.vote_eq vote
    rw [aborts] at same
    cases same
  obtain ⟨final, voted, ran, delivered, _⟩ :=
    (Delivered.begun wellFormed begun).deliverAll manual deletes fuel []
      tx.arrivals Status.noConfusion abstains
  refine ⟨final, voted, ?_, ?_⟩
  · simp only [loggedRun, begun, Option.bind_eq_bind, Option.bind_some]
    exact ran
  · simpa only [buffer_arrivals] using delivered

/-- A transaction that both tables vote for is committed with its last item, and finds
its writes in the write sets after those that were left there. -/
theorem GroupTx.loggedRun_decided {sCtx : StateContext} {tx : GroupTx D}
    (wellFormed : group.sCtx.WellFormed)
    (begun : group.sCtx.newTx = some (txnID, sCtx))
    (manual : ∀ i, (ops.operator i).mAutoCommit = false)
    (deletes : ∀ (table : Tbl) (id : Nat) (key : K),
      TransactionalTable.deleteByKey table id key = some (1, table))
    (fuel : Nat) (commits : ∀ i, tx.commits i = true) :
    ∃ last current voted,
      tx.loggedRun fuel ops group =
        loggedCommitBoth fuel txnID last (current, []) ∧
      Delivered txnID (group.setCtx sCtx) current
        (fun i =>
          { txnID := txnID
            set := (writeSet (group.regStates i)).set ++ tx.writes ops i }) voted := by
  obtain ⟨before, last, split, silent⟩ := tx.last_arrival
  rw [commits last] at split
  have abstains : (last, TxItem.vote true) ∉ before := by
    intro vote
    have item := mem_itemsOf.mpr vote
    rw [silent] at item
    simp at item
  have other : itemsOf before (otherID last) = itemsOf tx.arrivals (otherID last) := by
    rw [split, itemsOf_append, itemsOf_cons, if_neg (otherID_ne last).symm, itemsOf_nil,
      List.append_nil]
  have agreed : (otherID last, TxItem.vote true) ∈ before := by
    rw [← mem_itemsOf, other, tx.inOrder, commits]
    simp
  obtain ⟨current, voted, ran, delivered, votes⟩ :=
    (Delivered.begun wellFormed begun).deliverAll manual deletes fuel []
      before Status.noConfusion abstains
  obtain ⟨decided, after, decides⟩ := delivered.loggedPreCommit fuel last []
  rw [if_pos ((votes (otherID last)).mpr (Or.inr agreed))] at decides
  refine ⟨last, current.setCtx decided, Function.update voted last .Commit, ?_, ?_⟩
  · simp only [loggedRun, begun, Option.bind_eq_bind, Option.bind_some]
    rw [split, List.foldlM_append, ran]
    simp only [Option.bind_eq_bind, Option.bind_some, List.foldlM_cons, List.foldlM_nil,
      loggedDeliver, ops.ownTable, decides, Option.pure_def, Option.bind_fun_some]
  · have buffered : (fun i => buffer (ops.operator i) txnID
        (writeSet (group.regStates i)) (itemsOf before i)) =
        fun i =>
          { txnID := txnID
            set := (writeSet (group.regStates i)).set ++ tx.writes ops i } := by
      funext i
      rcases eq_or_eq_otherID i last with here | there
      · subst here
        rw [silent, buffer_begun]
      · subst there
        rw [other, buffer_arrivals, if_pos (commits _)]
    rw [← buffered]
    exact after

end

end TransactionalTable

end PipeFabric
