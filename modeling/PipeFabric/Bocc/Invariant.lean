import PipeFabric.Bocc.System

/-!
# Invariants of the optimistic system

`StoreInv` is about the tables, the write sets and the writer: the contents of
a table, with what is left to insert, are the state after the history; every
table keeps the write set of the commit under way in front, and all others
ended before that transaction began.  The steps of the writer keep it, and show
themselves to readers only through `WriterFrame`.
-/

namespace PipeFabric.Bocc

open StateContext

variable {ρ K R : Type}

/-! ## Program points of the writer -/

/-- The transaction the writer is working on. -/
def WriterPC.txn : WriterPC K R → Option Nat
  | .idle => none
  | .active txnID => some txnID
  | .fetchValTS txnID _ _ => some txnID
  | .push txnID _ _ _ => some txnID
  | .insert txnID _ _ _ => some txnID
  | .fetchEndTS txnID _ _ => some txnID
  | .storeEndTS txnID _ _ _ => some txnID
  | .getOldest txnID _ _ => some txnID
  | .erase txnID _ _ _ => some txnID
  | .publish txnID => some txnID
  | .removeTx txnID => some txnID

/-- How far the commit has got on one table. -/
inductive Stage where
  | before
  | saved
  | ended
  deriving DecidableEq

def WriterPC.stage : WriterPC K R → TableID → Stage
  | .idle, _ => .before
  | .active _, _ => .before
  | .fetchValTS _ tblID last, i => if i ≠ tblID ∧ last then .saved else .before
  | .push _ tblID _ last, i => if i ≠ tblID ∧ last then .saved else .before
  | .insert _ tblID _ last, i => if i ≠ tblID ∧ last then .ended else .saved
  | .fetchEndTS _ tblID last, i => if i ≠ tblID ∧ last then .ended else .saved
  | .storeEndTS _ tblID _ last, i => if i ≠ tblID ∧ last then .ended else .saved
  | .getOldest _ tblID last, i => if i = tblID ∨ last then .ended else .saved
  | .erase _ tblID _ last, i => if i = tblID ∨ last then .ended else .saved
  | .publish _, _ => .ended
  | .removeTx _, _ => .ended

/-- What the commit still has to insert into a table. -/
def WriterPC.todo (tables : TableID → Table K R) :
    WriterPC K R → TableID → List (K × R)
  | .insert _ tblID todo last, i =>
      if i = tblID then todo else if last then [] else (tables i).writeSet.set
  | .fetchEndTS _ tblID last, i =>
      if i = tblID ∨ last then [] else (tables i).writeSet.set
  | .storeEndTS _ tblID _ last, i =>
      if i = tblID ∨ last then [] else (tables i).writeSet.set
  | .getOldest _ tblID last, i =>
      if i = tblID ∨ last then [] else (tables i).writeSet.set
  | .erase _ tblID _ last, i =>
      if i = tblID ∨ last then [] else (tables i).writeSet.set
  | _, _ => []

/-- The completion timestamp of a write set; a timestamp that has been fetched
counts before it is stored. -/
def WriterPC.endTS (writer : WriterPC K R) (i : TableID) (ws : CommittedWS K) :
    Nat :=
  match writer with
  | .storeEndTS _ tblID endTS _ =>
      if i = tblID ∧ ws.endTS = DTS_INF then endTS else ws.endTS
  | _ => ws.endTS

/-! ## The store -/

/-- The write sets of a table at a stage of the commit. -/
def Ends (table : Table K R) (begun nextTxID : Nat) : Stage → Prop
  | .before => ∀ ws ∈ table.committedWSs, ws.endTS < begun
  | .saved => ∃ ws older, table.committedWSs = ws :: older ∧
      ws.endTS = DTS_INF ∧ ws.keys = table.writeSet.set.map Prod.fst ∧
      ∀ old ∈ older, old.endTS < begun
  | .ended => table.writeSet.txnID = 0 ∧
      ∃ ws older, table.committedWSs = ws :: older ∧ ws.valTS < ws.endTS ∧
        begun < ws.endTS ∧ ws.endTS < nextTxID ∧
        ∀ old ∈ older, old.endTS < begun

structure DequeOk (table : Table K R) (stage : Stage) (begun nextTxID : Nat) :
    Prop where
  newestFirst : BOCCTable.NewestFirst table.committedWSs
  validated : ∀ ws ∈ table.committedWSs, ws.valTS < nextTxID
  ends : Ends table begun nextTxID stage

/-- What has been computed by a step but not used yet. -/
def Pending (tables : TableID → Table K R) (sCtx : StateContext) :
    WriterPC K R → Prop
  | .push _ _ valTS _ => valTS < sCtx.nextTxID
  | .storeEndTS txnID tblID endTS _ =>
      txnID < endTS ∧ endTS < sCtx.nextTxID ∧
        ∀ ws ∈ (tables tblID).committedWSs,
          ws.valTS < endTS ∧ (ws.endTS ≠ DTS_INF → ws.endTS < endTS)
  | .erase txnID tblID oldestTx _ =>
      ∀ ws ∈ (tables tblID).committedWSs, ws.endTS ≤ oldestTx →
        ws.endTS < txnID ∧
          ∀ other entry, sCtx.activeTx other = some entry → ws.endTS ≤ other
  | _ => True

structure StoreInv [DecidableEq K] (tables : TableID → Table K R)
    (writer : WriterPC K R) (history : List (Writes K R))
    (sCtx : StateContext) : Prop where
  contents : ∀ i, WriteFold.overwrite (tables i).tbl.getByKey
    (writer.todo tables i) = stateAfter history i
  todoSaved : ∀ i, ∀ e ∈ writer.todo tables i,
    writer.stage i = .saved ∧ e.1 ∈ (tables i).writeSet.set.map Prod.fst
  deques : ∀ i, DequeOk (tables i) (writer.stage i)
    (writer.txn.getD sCtx.nextTxID) sCtx.nextTxID
  owned : ∀ i, (tables i).writeSet.txnID = 0 ∨
    writer.txn = some (tables i).writeSet.txnID
  last : sCtx.lastCTS < sCtx.nextTxID
  lastOld : ∀ txnID, writer.txn = some txnID → sCtx.lastCTS ≤ txnID
  pending : Pending tables sCtx writer

/-- The timestamps that are stored are below infinity, but for the write set of
the commit under way. -/
theorem DequeOk.endTS_lt {table : Table K R} {stage : Stage}
    {begun nextTxID : Nat} (ok : DequeOk table stage begun nextTxID)
    (old : begun ≤ nextTxID) {ws : CommittedWS K}
    (member : ws ∈ table.committedWSs) :
    ws.endTS < nextTxID ∨ stage = .saved ∧ ws.endTS = DTS_INF := by
  have ends := ok.ends
  cases stage with
  | before => exact Or.inl (Nat.lt_of_lt_of_le (ends ws member) old)
  | saved =>
      obtain ⟨front, older, list, infinite, _, before⟩ := ends
      rw [list] at member
      rcases List.mem_cons.mp member with same | rest
      · exact Or.inr ⟨rfl, same ▸ infinite⟩
      · exact Or.inl (Nat.lt_of_lt_of_le (before ws rest) old)
  | ended =>
      obtain ⟨_, front, older, list, _, _, ended, before⟩ := ends
      rw [list] at member
      rcases List.mem_cons.mp member with same | rest
      · exact Or.inl (same ▸ ended)
      · exact Or.inl (Nat.lt_of_lt_of_le (before ws rest) old)

/-- The counter grows. -/
theorem DequeOk.grow {table : Table K R} {stage : Stage}
    {begun later nextTxID larger : Nat}
    (ok : DequeOk table stage begun nextTxID) (grows : nextTxID ≤ larger)
    (begins : begun = later ∨ stage = .before ∧ begun ≤ later) :
    DequeOk table stage later larger where
  newestFirst := ok.newestFirst
  validated := fun ws member =>
    Nat.lt_of_lt_of_le (ok.validated ws member) grows
  ends := by
    have ends := ok.ends
    rcases begins with same | ⟨stage, before⟩
    · subst later
      cases stage with
      | before => exact ends
      | saved => exact ends
      | ended =>
          obtain ⟨clean, front, older, list, validated, after, ended, before⟩ :=
            ends
          exact ⟨clean, front, older, list, validated, after,
            Nat.lt_of_lt_of_le ended grows, before⟩
    · subst stage
      intro ws member
      exact Nat.lt_of_lt_of_le (ends ws member) before

/-- Steps of other threads: the counter grows, and the transactions that are
new in the context have new ids. -/
theorem StoreInv.context [DecidableEq K] {tables : TableID → Table K R}
    {writer : WriterPC K R} {history : List (Writes K R)}
    {sCtx next : StateContext} (inv : StoreInv tables writer history sCtx)
    (begun : ∀ txnID, writer.txn = some txnID → txnID < sCtx.nextTxID)
    (grows : sCtx.nextTxID ≤ next.nextTxID)
    (last : next.lastCTS = sCtx.lastCTS)
    (known : ∀ txnID entry, next.activeTx txnID = some entry →
      sCtx.nextTxID ≤ txnID ∨ ∃ before, sCtx.activeTx txnID = some before) :
    StoreInv tables writer history next where
  contents := inv.contents
  todoSaved := inv.todoSaved
  deques := by
    intro i
    refine (inv.deques i).grow grows ?_
    cases running : writer.txn with
    | some txnID => exact Or.inl rfl
    | none =>
        refine Or.inr ⟨?_, grows⟩
        cases writer with
        | idle => rfl
        | _ => cases running
  owned := inv.owned
  last := by
    rw [last]
    exact Nat.lt_of_lt_of_le inv.last grows
  lastOld := by
    intro txnID running
    rw [last]
    exact inv.lastOld txnID running
  pending := by
    have pending := inv.pending
    cases writer with
    | push txnID tblID valTS last => exact Nat.lt_of_lt_of_le pending grows
    | storeEndTS txnID tblID endTS last =>
        exact ⟨pending.1, Nat.lt_of_lt_of_le pending.2.1 grows, pending.2.2⟩
    | erase txnID tblID oldestTx last =>
        intro ws member dropped
        obtain ⟨old, needed⟩ := pending ws member dropped
        refine ⟨old, ?_⟩
        intro other entry active
        rcases known other entry active with new | ⟨before, activeBefore⟩
        · have older := begun txnID rfl
          omega
        · exact needed other before activeBefore
    | idle => trivial
    | active txnID => trivial
    | fetchValTS txnID tblID last => trivial
    | insert txnID tblID todo last => trivial
    | fetchEndTS txnID tblID last => trivial
    | getOldest txnID tblID last => trivial
    | publish txnID => trivial
    | removeTx txnID => trivial

/-! ## What readers notice -/

/-- The effect of a writer step on the tables, for transactions in `live`: the
write sets they need are kept, and a key changes only under a write set that is
not ended. -/
structure TablesFrame (tables : TableID → Table K R) (writer : WriterPC K R)
    (changed : TableID → Table K R) (next : WriterPC K R)
    (live : Nat → Prop) : Prop where
  kept : ∀ i, ∀ ws ∈ (tables i).committedWSs, ∀ txnID, live txnID →
    txnID < writer.endTS i ws →
    ∃ still ∈ (changed i).committedWSs, still.keys = ws.keys ∧
      still.valTS = ws.valTS ∧ txnID < next.endTS i still
  contents : ∀ i key,
    (changed i).tbl.getByKey key = (tables i).tbl.getByKey key ∨
      ∃ ws ∈ (changed i).committedWSs, key ∈ ws.keys ∧
        next.endTS i ws = DTS_INF

/-- Write sets and contents stay, and no timestamp is pending. -/
theorem TablesFrame.of_same {tables changed : TableID → Table K R}
    {writer next : WriterPC K R} {live : Nat → Prop}
    (deques : ∀ i, (changed i).committedWSs = (tables i).committedWSs)
    (contents : ∀ i, (changed i).tbl = (tables i).tbl)
    (endTS : ∀ i ws, next.endTS i ws = writer.endTS i ws) :
    TablesFrame tables writer changed next live where
  kept := by
    intro i ws member txnID _ needed
    refine ⟨ws, ?_, rfl, rfl, ?_⟩
    · rw [deques]
      exact member
    · rw [endTS]
      exact needed
  contents := by
    intro i key
    rw [contents]
    exact Or.inl rfl

end PipeFabric.Bocc
