import PipeFabric.Qop.ToTxTable
import PipeFabric.Table.OccupiedSlots
import PipeFabric.Table.WriteSet

/-!
# A transaction on the streams of both tables

One operator writes to each table of the group.  A transaction reaches it as a begin
punctuation, tuples and a vote, which is a commit or an abort punctuation.  What
arrives at one operator is in this order; what arrives at the other one comes in
between in any way.
-/

namespace PipeFabric

namespace TransactionalTable

/-- One operator for each table of the group. -/
structure GroupOperators (D K R : Type) where
  operator : TableID → ToTxTable D K R
  ownTable : ∀ i, (operator i).mTable = i

/-- What belongs to a transaction on the stream of one operator. -/
inductive TxItem (D : Type) where
  | begin
  | tuple (data : D) (outdated : Bool)
  | vote (commit : Bool)

/-- What arrives at one of the operators. -/
def itemsOf {D : Type} (arrivals : List (TableID × TxItem D)) (i : TableID) :
    List (TxItem D) :=
  (arrivals.filter fun arrival => arrival.1 = i).map Prod.snd

/-- A transaction: its tuples and its vote on each table, and the order in which
they arrive. -/
structure GroupTx (D : Type) where
  tuples : TableID → List (D × Bool)
  commits : TableID → Bool
  arrivals : List (TableID × TxItem D)
  inOrder : ∀ i, itemsOf arrivals i =
    .begin :: (tuples i).map (fun tuple => .tuple tuple.1 tuple.2) ++
      [.vote (commits i)]

section

variable {D Tbl K R : Type}

@[simp] theorem itemsOf_nil (i : TableID) :
    itemsOf ([] : List (TableID × TxItem D)) i = [] := rfl

theorem itemsOf_cons (arrival : TableID × TxItem D)
    (arrivals : List (TableID × TxItem D)) (i : TableID) :
    itemsOf (arrival :: arrivals) i =
      if arrival.1 = i then arrival.2 :: itemsOf arrivals i
      else itemsOf arrivals i := by
  unfold itemsOf
  by_cases same : arrival.1 = i
  · simp [same]
  · simp [same]

theorem itemsOf_append (arrivals later : List (TableID × TxItem D)) (i : TableID) :
    itemsOf (arrivals ++ later) i = itemsOf arrivals i ++ itemsOf later i := by
  simp [itemsOf]

theorem mem_itemsOf {arrivals : List (TableID × TxItem D)} {i : TableID}
    {item : TxItem D} : item ∈ itemsOf arrivals i ↔ (i, item) ∈ arrivals := by
  simp [itemsOf]

/-- The only vote of a table is the one it ends with. -/
theorem GroupTx.vote_eq {tx : GroupTx D} {i : TableID} {commit : Bool}
    (arrives : (i, TxItem.vote commit) ∈ tx.arrivals) : commit = tx.commits i := by
  have item := mem_itemsOf.mpr arrives
  rw [tx.inOrder i] at item
  simpa using item

/-- The last thing to arrive is a vote. -/
theorem GroupTx.last_arrival (tx : GroupTx D) :
    ∃ before last,
      tx.arrivals = before ++ [(last, TxItem.vote (tx.commits last))] ∧
      itemsOf before last =
        .begin :: (tx.tuples last).map fun tuple => .tuple tuple.1 tuple.2 := by
  rcases List.eq_nil_or_concat tx.arrivals with empty | ends
  · have order := tx.inOrder 0
    rw [empty] at order
    cases order
  · obtain ⟨before, arrival, split⟩ := ends
    rw [List.concat_eq_append] at split
    have order := tx.inOrder arrival.1
    rw [split, itemsOf_append, itemsOf_cons, if_pos rfl, itemsOf_nil] at order
    obtain ⟨earlier, vote⟩ := List.append_inj' order rfl
    refine ⟨before, arrival.1, ?_, earlier⟩
    rw [split, ← List.singleton_inj.mp vote]

theorem itemsOf_map (i j : TableID) (items : List (TxItem D)) :
    itemsOf (items.map (Prod.mk i)) j = if i = j then items else [] := by
  induction items with
  | nil => simp
  | cons item items induction =>
      rw [List.map_cons, itemsOf_cons, induction]
      by_cases same : i = j
      · simp [same]
      · simp [same]

/-- One stream after the other is an order in which a transaction can arrive. -/
theorem itemsOf_streamByStream (stream : TableID → List (TxItem D)) (i : TableID) :
    itemsOf ((stream 0).map (Prod.mk 0) ++ (stream 1).map (Prod.mk 1)) i = stream i := by
  rw [itemsOf_append, itemsOf_map, itemsOf_map]
  rcases eq_or_eq_otherID i 0 with here | there
  · subst here
    simp
  · have one : i = 1 := there
    subst one
    simp

/-- What belongs to a transaction on the stream of one table. -/
def streamOf (tuples : List (D × Bool)) (commit : Bool) : List (TxItem D) :=
  .begin :: tuples.map (fun tuple => .tuple tuple.1 tuple.2) ++ [.vote commit]

/-- A transaction whose second stream arrives after the first one. -/
def GroupTx.streamByStream (tuples : TableID → List (D × Bool))
    (commits : TableID → Bool) : GroupTx D where
  tuples := tuples
  commits := commits
  arrivals := (streamOf (tuples 0) (commits 0)).map (Prod.mk 0) ++
    (streamOf (tuples 1) (commits 1)).map (Prod.mk 1)
  inOrder := itemsOf_streamByStream fun i => streamOf (tuples i) (commits i)

variable [TransactionalTable Tbl K R]

/-- Something arrives at an operator; `vote true` stands for `TxCommit`. -/
def deliver (fuel : Nat) (ops : GroupOperators D K R) (txnID : Nat)
    (group : TableGroup Tbl) (arrival : TableID × TxItem D) :
    Option (TableGroup Tbl) :=
  let op := ops.operator arrival.1
  match arrival.2 with
  | .begin => op.processPunctuation fuel ⟨.TxBegin, some txnID⟩ group
  | .tuple data outdated => op.processDataElement fuel data outdated group
  | .vote true => op.processPunctuation fuel ⟨.TxCommit, some txnID⟩ group
  | .vote false => op.processPunctuation fuel ⟨.TxAbort, some txnID⟩ group

/-- A transaction is registered and arrives at both operators. -/
def GroupTx.run (fuel : Nat) (ops : GroupOperators D K R) (tx : GroupTx D)
    (group : TableGroup Tbl) : Option (TableGroup Tbl) := do
  let begun ← group.sCtx.newTx
  tx.arrivals.foldlM (deliver fuel ops begun.1) (group.setCtx begun.2)

/-- Transactions one after the other. -/
def runHistory (fuel : Nat) (ops : GroupOperators D K R) (history : List (GroupTx D))
    (group : TableGroup Tbl) : Option (TableGroup Tbl) :=
  history.foldlM (fun group tx => tx.run fuel ops group) group

end

/-- Operators for elements with a transaction id, a key and a record. -/
def smallOps : GroupOperators (Nat × Nat × Nat) Nat Nat where
  operator := fun i =>
    { mTable := i
      mKeyFunc := fun data => data.2.1
      mTxFunc := fun data => data.1
      tuple := fun data => data.2.2
      mAutoCommit := false }
  ownTable := fun _ => rfl

/-- A transaction that writes 10 to key 7 of the first table. -/
def smallTx (commits : TableID → Bool) : GroupTx (Nat × Nat × Nat) :=
  .streamByStream (fun i => if i = 0 then [((1, 7, 10), false)] else []) commits

end TransactionalTable

end PipeFabric
