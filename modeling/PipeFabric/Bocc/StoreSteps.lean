import PipeFabric.Bocc.Invariant

/-!
# The writer keeps the store invariant of the optimistic system

One lemma for each kind of writer step, with what the step does to the readers.
-/

namespace PipeFabric.Bocc

open StateContext

variable {K R : Type} [DecidableEq K]

namespace StoreInv

variable {tables : TableID → Table K R} {history : List (Writes K R)}
  {sCtx next : StateContext} {txnID : Nat} {tblID : TableID} {last : Bool}
  {live : Nat → Prop}

omit [DecidableEq K] in
/-- Where a table is replaced by one that agrees with it, all tables agree. -/
private theorem update_agrees {β : Type} (part : Table K R → β) {table : Table K R}
    (same : part table = part (tables tblID)) (i : TableID) :
    part (Function.update tables tblID table i) = part (tables i) := by
  by_cases here : i = tblID
  · subst i
    rw [Function.update_self]
    exact same
  · rw [Function.update_of_ne here]

/-- A step that moves the writer and leaves the tables alone. -/
private theorem move {writer moved : WriterPC K R}
    (inv : StoreInv tables writer history sCtx)
    (todo : ∀ i, moved.todo tables i = writer.todo tables i)
    (stage : ∀ i, moved.stage i = writer.stage i)
    (txn : moved.txn = writer.txn) (pending : Pending tables sCtx moved) :
    StoreInv tables moved history sCtx where
  contents := by
    intro i
    rw [todo]
    exact inv.contents i
  todoSaved := by
    intro i e member
    rw [todo] at member
    rw [stage]
    exact inv.todoSaved i e member
  deques := by
    intro i
    rw [stage, txn]
    exact inv.deques i
  owned := by
    rw [txn]
    exact inv.owned
  last := inv.last
  lastOld := by
    rw [txn]
    exact inv.lastOld
  pending := pending

/-- The counter grows by one, with the same active transactions. -/
private theorem tick {writer : WriterPC K R}
    (inv : StoreInv tables writer history sCtx)
    (begun : ∀ id, writer.txn = some id → id < sCtx.nextTxID)
    (counter : next.nextTxID = sCtx.nextTxID + 1)
    (lastCTS : next.lastCTS = sCtx.lastCTS)
    (active : next.activeTx = sCtx.activeTx) :
    StoreInv tables writer history next := by
  refine inv.context begun (by omega) lastCTS ?_
  intro id entry found
  rw [active] at found
  exact Or.inr ⟨entry, found⟩

theorem newTx (inv : StoreInv tables .idle history sCtx)
    (counter : next.nextTxID = sCtx.nextTxID + 1)
    (lastCTS : next.lastCTS = sCtx.lastCTS) :
    StoreInv tables (.active sCtx.nextTxID) history next where
  contents := inv.contents
  todoSaved := inv.todoSaved
  deques := by
    intro i
    exact (inv.deques i).grow (by omega) (Or.inl rfl)
  owned := by
    intro i
    rcases inv.owned i with unowned | impossible
    · exact Or.inl unowned
    · cases impossible
  last := by
    have last := inv.last
    omega
  lastOld := by
    rintro id ⟨⟩
    rw [lastCTS]
    exact Nat.le_of_lt inv.last
  pending := trivial

/-- Beginning a transaction and buffering a write change write sets only. -/
theorem buffer (tblID : TableID) (live : Nat → Prop)
    (writeSet : WriteSet K R)
    (inv : StoreInv tables (.active txnID) history sCtx)
    (owned : writeSet.txnID = 0 ∨ writeSet.txnID = txnID) :
    let changed := Function.update tables tblID
      { tables tblID with writeSet := writeSet }
    StoreInv changed (.active txnID) history sCtx ∧
      TablesFrame tables (.active txnID) changed (.active txnID) live := by
  have same : ∀ i, (Function.update tables tblID
      { tables tblID with writeSet := writeSet } i).committedWSs =
        (tables i).committedWSs := by
    intro i
    by_cases here : i = tblID
    · subst i
      simp
    · simp [here]
  have stored : ∀ i, (Function.update tables tblID
      { tables tblID with writeSet := writeSet } i).tbl = (tables i).tbl := by
    intro i
    by_cases here : i = tblID
    · subst i
      simp
    · simp [here]
  refine ⟨⟨?_, ?_, ?_, ?_, inv.last, inv.lastOld, trivial⟩,
    .of_same same stored fun _ _ => rfl⟩
  · intro i
    rw [stored]
    exact inv.contents i
  · intro i e impossible
    cases impossible
  · intro i
    obtain ⟨newestFirst, validated, ends⟩ := inv.deques i
    exact ⟨by rw [same]; exact newestFirst, by rw [same]; exact validated,
      by unfold Ends WriterPC.stage; rw [same]; exact ends⟩
  · intro i
    by_cases here : i = tblID
    · subst i
      simpa [WriterPC.txn, eq_comm] using owned
    · simpa [here] using inv.owned i

/-- The second vote. -/
theorem startSave (inv : StoreInv tables (.active txnID) history sCtx) :
    StoreInv tables (.fetchValTS txnID tblID false) history sCtx := by
  refine inv.move (fun _ => rfl) ?_ rfl trivial
  intro i
  simp [WriterPC.stage]

theorem fetchValTS
    (inv : StoreInv tables (.fetchValTS txnID tblID last) history sCtx)
    (begun : txnID < sCtx.nextTxID)
    (counter : next.nextTxID = sCtx.nextTxID + 1)
    (lastCTS : next.lastCTS = sCtx.lastCTS)
    (active : next.activeTx = sCtx.activeTx) :
    StoreInv tables (.push txnID tblID sCtx.nextTxID last) history next := by
  have ticked := inv.tick (by rintro id ⟨⟩; exact begun) counter lastCTS active
  refine ticked.move (fun _ => rfl) (fun _ => rfl) rfl ?_
  change sCtx.nextTxID < next.nextTxID
  omega

/-! ## Saving the write sets -/

omit [DecidableEq K] in
/-- The table whose write set has been pushed. -/
private theorem pushed_ok {table : Table K R} {begun nextTxID valTS : Nat}
    (ok : DequeOk table .before begun nextTxID) (old : begun ≤ DTS_INF)
    (fetched : valTS < nextTxID) :
    DequeOk (table.pushWriteSet valTS) .saved begun nextTxID where
  newestFirst := by
    refine List.pairwise_cons.mpr ⟨?_, ok.newestFirst⟩
    intro ws member
    exact Nat.lt_of_lt_of_le (ok.ends ws member) old
  validated := by
    intro ws member
    rcases List.mem_cons.mp member with same | older
    · rw [same]
      exact fetched
    · exact ok.validated ws older
  ends := ⟨_, _, rfl, rfl, rfl, ok.ends⟩

omit [DecidableEq K] in
private theorem push_frame {writer moved : WriterPC K R} {valTS : Nat}
    (same : ∀ i ws, moved.endTS i ws = writer.endTS i ws) :
    TablesFrame tables writer
      (Function.update tables tblID ((tables tblID).pushWriteSet valTS))
      moved live where
  kept := by
    intro i ws member id _ needed
    refine ⟨ws, ?_, rfl, rfl, by rw [same]; exact needed⟩
    by_cases here : i = tblID
    · subst i
      rw [Function.update_self]
      exact List.mem_cons_of_mem _ member
    · rw [Function.update_of_ne here]
      exact member
  contents := by
    intro i key
    left
    apply update_agrees (fun table => table.tbl.getByKey key)
    rfl

/-- The first write set is pushed. -/
theorem pushFirst (live : Nat → Prop) {valTS : Nat}
    (inv : StoreInv tables (.push txnID tblID valTS false) history sCtx)
    (begun : txnID ≤ DTS_INF) :
    let changed := Function.update tables tblID
      ((tables tblID).pushWriteSet valTS)
    StoreInv changed (.fetchValTS txnID (otherID tblID) true) history sCtx ∧
      TablesFrame tables (.push txnID tblID valTS false) changed
        (.fetchValTS txnID (otherID tblID) true) live := by
  refine ⟨⟨?_, ?_, ?_, ?_, inv.last, inv.lastOld, trivial⟩,
    push_frame fun _ _ => rfl⟩
  · intro i
    rw [← inv.contents i]
    by_cases here : i = tblID
    · subst i
      rw [Function.update_self]
      rfl
    · rw [Function.update_of_ne here]
      rfl
  · intro i e impossible
    cases impossible
  · intro i
    have ok := inv.deques i
    rcases eq_or_eq_otherID i tblID with here | there
    · subst i
      simp only [WriterPC.stage, Bool.false_eq_true, and_false, if_false] at ok
      simp only [Function.update_self, WriterPC.stage,
        ne_eq, (otherID_ne tblID).symm, not_false_eq_true, and_self, if_true]
      exact pushed_ok ok begun inv.pending
    · subst i
      rw [Function.update_of_ne (otherID_ne tblID)]
      simpa [WriterPC.stage, WriterPC.txn] using ok
  · intro i
    by_cases here : i = tblID
    · subst i
      rw [Function.update_self]
      exact inv.owned tblID
    · rw [Function.update_of_ne here]
      exact inv.owned i

/-- The second write set is pushed, and the transaction enters the history. -/
theorem pushSecond (live : Nat → Prop) {valTS : Nat}
    (inv : StoreInv tables (.push txnID tblID valTS true) history sCtx)
    (begun : txnID ≤ DTS_INF) :
    let changed := Function.update tables tblID
      ((tables tblID).pushWriteSet valTS)
    let writes : Writes K R := fun i => (tables i).writeSet.set
    StoreInv changed
        (.insert txnID (otherID tblID) (writes (otherID tblID)) false)
        (writes :: history) sCtx ∧
      TablesFrame tables (.push txnID tblID valTS true) changed
        (.insert txnID (otherID tblID) (writes (otherID tblID)) false) live := by
  have written : ∀ i, (Function.update tables tblID
      ((tables tblID).pushWriteSet valTS) i).writeSet = (tables i).writeSet := by
    intro i
    apply update_agrees (fun table => table.writeSet)
    rfl
  have stored : ∀ i, (Function.update tables tblID
      ((tables tblID).pushWriteSet valTS) i).tbl = (tables i).tbl := by
    intro i
    apply update_agrees (fun table => table.tbl)
    rfl
  have todo : ∀ i, (WriterPC.insert txnID (otherID tblID)
      (tables (otherID tblID)).writeSet.set false).todo
        (Function.update tables tblID ((tables tblID).pushWriteSet valTS)) i =
      (tables i).writeSet.set := by
    intro i
    by_cases first : i = otherID tblID
    · subst i
      simp [WriterPC.todo]
    · simp [WriterPC.todo, first, written]
  refine ⟨⟨?_, ?_, ?_, ?_, inv.last, inv.lastOld, trivial⟩,
    push_frame fun _ _ => rfl⟩
  · intro i
    have before := inv.contents i
    change (tables i).tbl.getByKey = stateAfter history i at before
    rw [todo, stored, before]
    rfl
  · intro i e member
    rw [todo] at member
    rw [written]
    exact ⟨by simp [WriterPC.stage], List.mem_map_of_mem member⟩
  · intro i
    have ok := inv.deques i
    rcases eq_or_eq_otherID i tblID with here | there
    · subst i
      simp only [WriterPC.stage, ne_eq, not_true_eq_false, false_and,
        if_false] at ok
      rw [Function.update_self]
      simpa [WriterPC.stage, WriterPC.txn] using
        pushed_ok ok begun inv.pending
    · subst i
      rw [Function.update_of_ne (otherID_ne tblID)]
      simpa [WriterPC.stage, otherID_ne, WriterPC.txn] using ok
  · intro i
    rw [written]
    exact inv.owned i

/-! ## Inserting -/

theorem insertNil
    (inv : StoreInv tables (.insert txnID tblID [] last) history sCtx) :
    StoreInv tables (.fetchEndTS txnID tblID last) history sCtx := by
  refine inv.move ?_ (fun _ => rfl) rfl trivial
  intro i
  by_cases here : i = tblID <;> cases last <;> simp [WriterPC.todo, here]

theorem insertCons (live : Nat → Prop) {e : K × R} {todo : List (K × R)}
    (inv : StoreInv tables (.insert txnID tblID (e :: todo) last) history sCtx) :
    let changed := Function.update tables tblID
      { tables tblID with tbl := (tables tblID).tbl.insert e.1 e.2 }
    StoreInv changed (.insert txnID tblID todo last) history sCtx ∧
      TablesFrame tables (.insert txnID tblID (e :: todo) last) changed
        (.insert txnID tblID todo last) live := by
  have kept : ∀ i, (Function.update tables tblID
      { tables tblID with tbl := (tables tblID).tbl.insert e.1 e.2 }
        i).committedWSs = (tables i).committedWSs ∧
      (Function.update tables tblID
      { tables tblID with tbl := (tables tblID).tbl.insert e.1 e.2 }
        i).writeSet = (tables i).writeSet := by
    intro i
    by_cases here : i = tblID
    · subst i
      simp
    · simp [here]
  have head := inv.todoSaved tblID e (by simp [WriterPC.todo])
  refine ⟨⟨?_, ?_, ?_, ?_, inv.last, inv.lastOld, trivial⟩, ?_, ?_⟩
  · intro i
    have before := inv.contents i
    by_cases here : i = tblID
    · subst i
      rw [Function.update_self]
      simp only [WriterPC.todo, if_true, WriteFold.overwrite_cons] at before ⊢
      exact before
    · rw [Function.update_of_ne here]
      simp only [WriterPC.todo, here, if_false] at before ⊢
      rw [(kept i).2]
      exact before
  · intro i e' member
    rw [(kept i).2]
    have same : (WriterPC.insert txnID tblID todo last).stage i =
        (WriterPC.insert txnID tblID (e :: todo) last).stage i := rfl
    rw [same]
    apply inv.todoSaved i e'
    by_cases here : i = tblID
    · simp only [WriterPC.todo, here, if_true] at member ⊢
      exact List.mem_cons_of_mem e member
    · simp only [WriterPC.todo, here, if_false] at member ⊢
      rw [(kept i).2] at member
      exact member
  · intro i
    obtain ⟨newestFirst, validated, ends⟩ := inv.deques i
    refine ⟨?_, ?_, ?_⟩
    · rw [(kept i).1]
      exact newestFirst
    · rw [(kept i).1]
      exact validated
    · have same : Ends (Function.update tables tblID
          { tables tblID with tbl := (tables tblID).tbl.insert e.1 e.2 } i) =
          Ends (tables i) := by
        funext begun nextTxID stage
        cases stage <;> simp only [Ends, (kept i).1, (kept i).2]
      rw [same]
      exact ends
  · intro i
    rw [(kept i).2]
    exact inv.owned i
  · intro i ws member id _ needed
    refine ⟨ws, ?_, rfl, rfl, needed⟩
    rw [(kept i).1]
    exact member
  · intro i key
    by_cases here : i = tblID ∧ key = e.1
    · obtain ⟨rfl, rfl⟩ := here
      right
      have ends := (inv.deques i).ends
      rw [head.1] at ends
      obtain ⟨ws, older, list, infinite, keys, _⟩ := ends
      refine ⟨ws, ?_, ?_, infinite⟩
      · rw [(kept i).1, list]
        exact List.mem_cons_self
      · rw [keys]
        exact head.2
    · left
      by_cases table : i = tblID
      · subst i
        have other : key ≠ e.1 := fun same => here ⟨rfl, same⟩
        simp [other]
      · simp [table]

/-! ## Ending a write set -/

theorem fetchEndTS
    (inv : StoreInv tables (.fetchEndTS txnID tblID last) history sCtx)
    (begun : txnID < sCtx.nextTxID)
    (counter : next.nextTxID = sCtx.nextTxID + 1)
    (lastCTS : next.lastCTS = sCtx.lastCTS)
    (active : next.activeTx = sCtx.activeTx)
    (old : ∀ id, live id → id < sCtx.nextTxID) :
    StoreInv tables (.storeEndTS txnID tblID sCtx.nextTxID last) history next ∧
      TablesFrame tables (.fetchEndTS txnID tblID last) tables
        (.storeEndTS txnID tblID sCtx.nextTxID last) live := by
  have ticked := inv.tick (by rintro id ⟨⟩; exact begun) counter lastCTS active
  refine ⟨ticked.move (fun _ => rfl) (fun _ => rfl) rfl ?_, ?_, ?_⟩
  · refine ⟨begun, by omega, ?_⟩
    intro ws member
    refine ⟨(inv.deques tblID).validated ws member, ?_⟩
    intro finite
    rcases (inv.deques tblID).endTS_lt (Nat.le_of_lt begun) member with
      ended | ⟨_, infinite⟩
    · exact ended
    · exact absurd infinite finite
  · intro i ws member id isLive needed
    refine ⟨ws, member, rfl, rfl, ?_⟩
    simp only [WriterPC.endTS]
    split
    · exact old id isLive
    · exact needed
  · intro i key
    exact Or.inl rfl

/-- The completion timestamp is stored and the buffer is cleared. -/
theorem storeEndTS (live : Nat → Prop) {endTS : Nat}
    (inv : StoreInv tables (.storeEndTS txnID tblID endTS last) history sCtx)
    (counter : sCtx.nextTxID ≤ DTS_INF) :
    let changed := Function.update tables tblID
      { (tables tblID).storeEndTS endTS with
        writeSet := (tables tblID).writeSet.clean }
    StoreInv changed (.getOldest txnID tblID last) history sCtx ∧
      TablesFrame tables (.storeEndTS txnID tblID endTS last) changed
        (.getOldest txnID tblID last) live := by
  obtain ⟨begun, fetched, later⟩ := inv.pending
  have ends := (inv.deques tblID).ends
  simp only [WriterPC.stage, ne_eq, not_true_eq_false, false_and, if_false,
    Ends] at ends
  obtain ⟨ws, older, list, infinite, keys, before⟩ := ends
  have olderLess : ∀ old ∈ older, old.endTS < endTS := by
    intro old member
    exact Nat.lt_trans (before old member) begun
  have changedList : ((tables tblID).storeEndTS endTS).committedWSs =
      { ws with endTS := endTS } :: older := by
    simp [BOCCTable.storeEndTS, list]
  refine ⟨⟨?_, ?_, ?_, ?_, inv.last, inv.lastOld, trivial⟩, ?_, ?_⟩
  · intro i
    have unchanged := inv.contents i
    rcases eq_or_eq_otherID i tblID with here | there
    · subst i
      simpa [WriterPC.todo, BOCCTable.storeEndTS] using unchanged
    · subst i
      simpa [WriterPC.todo, otherID_ne] using unchanged
  · intro i e member
    rcases eq_or_eq_otherID i tblID with here | there
    · subst i
      simp [WriterPC.todo] at member
    · subst i
      have saved := inv.todoSaved (otherID tblID) e
      simp only [WriterPC.todo, otherID_ne, WriterPC.stage, false_or,
        ne_eq, not_false_eq_true, true_and,
        Function.update_of_ne (otherID_ne tblID)] at member saved ⊢
      exact saved member
  · intro i
    rcases eq_or_eq_otherID i tblID with here | there
    · subst i
      rw [Function.update_self]
      have validated := (inv.deques tblID).validated
      rw [list] at validated
      refine ⟨?_, ?_, ?_⟩
      · rw [changedList]
        have newestFirst := (inv.deques tblID).newestFirst
        rw [list] at newestFirst
        exact List.pairwise_cons.mpr
          ⟨olderLess, (List.pairwise_cons.mp newestFirst).2⟩
      · rw [changedList]
        intro other member
        rcases List.mem_cons.mp member with same | rest
        · rw [same]
          exact validated ws List.mem_cons_self
        · exact validated other (List.mem_cons_of_mem ws rest)
      · simp only [WriterPC.stage, true_or, if_true, Ends]
        refine ⟨rfl, _, _, changedList, ?_, begun, fetched, before⟩
        exact (later ws (by rw [list]; exact List.mem_cons_self)).1
    · subst i
      rw [Function.update_of_ne (otherID_ne tblID)]
      have ok := inv.deques (otherID tblID)
      simpa [WriterPC.stage, otherID_ne, WriterPC.txn] using ok
  · intro i
    rcases eq_or_eq_otherID i tblID with here | there
    · subst i
      rw [Function.update_self]
      exact Or.inl rfl
    · subst i
      rw [Function.update_of_ne (otherID_ne tblID)]
      exact inv.owned (otherID tblID)
  · intro i other member id _ needed
    rcases eq_or_eq_otherID i tblID with here | there
    · subst i
      rw [Function.update_self]
      rw [list] at member
      rcases List.mem_cons.mp member with same | rest
      · subst other
        refine ⟨{ ws with endTS := endTS }, ?_, rfl, rfl, ?_⟩
        · rw [changedList]
          exact List.mem_cons_self
        · simpa [WriterPC.endTS, infinite] using needed
      · refine ⟨other, ?_, rfl, rfl, ?_⟩
        · rw [changedList]
          exact List.mem_cons_of_mem _ rest
        · have finite : other.endTS ≠ DTS_INF := by
            have less := olderLess other rest
            omega
          simpa [WriterPC.endTS, finite] using needed
    · subst i
      refine ⟨other, ?_, rfl, rfl, ?_⟩
      · rw [Function.update_of_ne (otherID_ne tblID)]
        exact member
      · simpa [WriterPC.endTS, otherID_ne] using needed
  · intro i key
    left
    apply update_agrees (fun table => table.tbl.getByKey key)
    rfl

/-! ## Dropping write sets -/

/-- The bound of the clean-up is not above any active transaction, as far as
old write sets are concerned. -/
theorem getOldest {ws : CommittedWS K}
    (inv : StoreInv tables (.getOldest txnID tblID last) history sCtx)
    (wellFormed : sCtx.WellFormed) {entry : ActiveTx}
    (active : sCtx.activeTx txnID = some entry)
    (front : (tables tblID).committedWSs.head? = some ws) :
    StoreInv tables
      (.erase txnID tblID (BOCCTable.cleanUpBound sCtx txnID ws) last)
      history sCtx := by
  refine inv.move (fun _ => rfl) (fun _ => rfl) rfl ?_
  have ends := (inv.deques tblID).ends
  simp only [WriterPC.stage, true_or, if_true, Ends] at ends
  obtain ⟨_, newest, older, list, validated, begun, _, before⟩ := ends
  rw [list, List.head?_cons, Option.some.injEq] at front
  subst ws
  intro other member dropped
  rw [list] at member
  have oldest := wellFormed.getOldestActiveTx_le active
  unfold BOCCTable.cleanUpBound at dropped
  dsimp only at dropped
  split at dropped
  case isTrue own =>
    have less : other.endTS < txnID := by
      rcases List.mem_cons.mp member with same | rest
      · rw [same] at dropped
        omega
      · exact before other rest
    refine ⟨less, ?_⟩
    intro id found foundActive
    have bound := wellFormed.getOldestActiveTx_le foundActive
    omega
  case isFalse different =>
    refine ⟨by omega, ?_⟩
    intro id found foundActive
    have bound := wellFormed.getOldestActiveTx_le foundActive
    omega

/-- Write sets are dropped only if they ended before every active
transaction. -/
theorem erase_keeps {oldestTx : Nat}
    (inv : StoreInv tables (.erase txnID tblID oldestTx last) history sCtx)
    {id : Nat} {entry : ActiveTx} (active : sCtx.activeTx id = some entry)
    {ws : CommittedWS K} (member : ws ∈ (tables tblID).committedWSs)
    (needed : id < ws.endTS) :
    ws ∈ ((tables tblID).eraseFrom oldestTx).committedWSs := by
  rw [BOCCTable.mem_eraseFrom (inv.deques tblID).newestFirst]
  refine ⟨member, ?_⟩
  by_contra dropped
  have bound := (inv.pending ws member (Nat.le_of_not_lt dropped)).2 id entry
    active
  omega

omit [DecidableEq K] in
private theorem erased_ok {table : Table K R} {begun nextTxID oldestTx : Nat}
    (ok : DequeOk table .ended begun nextTxID)
    (dropped : ∀ ws ∈ table.committedWSs, ws.endTS ≤ oldestTx →
      ws.endTS < begun) :
    DequeOk (table.eraseFrom oldestTx) .ended begun nextTxID := by
  obtain ⟨newestFirst, validated, clean, ws, older, list, order, after, ended,
    before⟩ := ok
  have kept : ∀ other ∈ (table.eraseFrom oldestTx).committedWSs,
      other ∈ table.committedWSs := by
    intro other member
    exact ((BOCCTable.mem_eraseFrom newestFirst other).mp member).1
  refine ⟨newestFirst.eraseFrom oldestTx,
    fun other member => validated other (kept other member), clean, ws,
    older.takeWhile fun ws => !decide (ws.endTS ≤ oldestTx), ?_, order, after,
    ended, ?_⟩
  · have stays : ¬ ws.endTS ≤ oldestTx := by
      intro drop
      have less := dropped ws (by rw [list]; exact List.mem_cons_self) drop
      omega
    simp [BOCCTable.eraseFrom, list, stays]
  · intro old member
    exact before old ((List.takeWhile_sublist _).mem member)

private theorem erase_frame {oldestTx : Nat} {moved : WriterPC K R}
    (inv : StoreInv tables (.erase txnID tblID oldestTx last) history sCtx)
    (active : ∀ id, live id → ∃ entry, sCtx.activeTx id = some entry)
    (same : ∀ i ws, moved.endTS i ws = ws.endTS) :
    TablesFrame tables (.erase txnID tblID oldestTx last)
      (Function.update tables tblID ((tables tblID).eraseFrom oldestTx))
      moved live where
  kept := by
    intro i ws member id isLive needed
    refine ⟨ws, ?_, rfl, rfl, by rw [same]; exact needed⟩
    by_cases here : i = tblID
    · subst i
      rw [Function.update_self]
      obtain ⟨entry, found⟩ := active id isLive
      exact inv.erase_keeps found member needed
    · rw [Function.update_of_ne here]
      exact member
  contents := by
    intro i key
    left
    apply update_agrees (fun table => table.tbl.getByKey key)
    rfl

/-- The first table is done. -/
theorem eraseFirst (live : Nat → Prop) {oldestTx : Nat}
    (inv : StoreInv tables (.erase txnID tblID oldestTx false) history sCtx)
    (active : ∀ id, live id → ∃ entry, sCtx.activeTx id = some entry) :
    let changed := Function.update tables tblID
      ((tables tblID).eraseFrom oldestTx)
    let moved : WriterPC K R := .insert txnID (otherID tblID)
      (tables (otherID tblID)).writeSet.set true
    StoreInv changed moved history sCtx ∧
      TablesFrame tables (.erase txnID tblID oldestTx false) changed moved
        live := by
  refine ⟨⟨?_, ?_, ?_, ?_, inv.last, inv.lastOld, trivial⟩,
    inv.erase_frame active fun _ _ => rfl⟩
  · intro i
    have unchanged := inv.contents i
    rcases eq_or_eq_otherID i tblID with here | there
    · subst i
      simpa [WriterPC.todo, (otherID_ne tblID).symm,
        BOCCTable.eraseFrom] using unchanged
    · subst i
      simpa [WriterPC.todo, otherID_ne] using unchanged
  · intro i e member
    rcases eq_or_eq_otherID i tblID with here | there
    · subst i
      simp [WriterPC.todo, (otherID_ne tblID).symm] at member
    · subst i
      simp only [WriterPC.todo, if_true] at member
      rw [Function.update_of_ne (otherID_ne tblID)]
      exact ⟨by simp [WriterPC.stage], List.mem_map_of_mem member⟩
  · intro i
    have ok := inv.deques i
    rcases eq_or_eq_otherID i tblID with here | there
    · subst i
      simp only [WriterPC.stage, true_or, if_true] at ok
      rw [Function.update_self]
      simp only [WriterPC.stage, ne_eq, (otherID_ne tblID).symm,
        not_false_eq_true, and_self, if_true]
      exact erased_ok ok fun ws member drop =>
        (inv.pending ws member drop).1
    · subst i
      rw [Function.update_of_ne (otherID_ne tblID)]
      simpa [WriterPC.stage, otherID_ne, WriterPC.txn] using ok
  · intro i
    by_cases here : i = tblID
    · subst i
      rw [Function.update_self]
      exact inv.owned tblID
    · rw [Function.update_of_ne here]
      exact inv.owned i

/-- Both tables are done. -/
theorem eraseSecond (live : Nat → Prop) {oldestTx : Nat}
    (inv : StoreInv tables (.erase txnID tblID oldestTx true) history sCtx)
    (active : ∀ id, live id → ∃ entry, sCtx.activeTx id = some entry) :
    let changed := Function.update tables tblID
      ((tables tblID).eraseFrom oldestTx)
    StoreInv changed (.publish txnID) history sCtx ∧
      TablesFrame tables (.erase txnID tblID oldestTx true) changed
        (.publish txnID) live := by
  refine ⟨⟨?_, ?_, ?_, ?_, inv.last, inv.lastOld, trivial⟩,
    inv.erase_frame active fun _ _ => rfl⟩
  · intro i
    have unchanged := inv.contents i
    by_cases here : i = tblID
    · subst i
      simpa [WriterPC.todo, BOCCTable.eraseFrom] using unchanged
    · simpa [WriterPC.todo, here] using unchanged
  · intro i e impossible
    cases impossible
  · intro i
    have ok := inv.deques i
    simp only [WriterPC.stage, or_true, if_true] at ok
    by_cases here : i = tblID
    · subst i
      rw [Function.update_self]
      exact erased_ok ok fun ws member drop =>
        (inv.pending ws member drop).1
    · rw [Function.update_of_ne here]
      exact ok
  · intro i
    by_cases here : i = tblID
    · subst i
      rw [Function.update_self]
      exact inv.owned tblID
    · rw [Function.update_of_ne here]
      exact inv.owned i

/-! ## Leaving -/

theorem publish (inv : StoreInv tables (.publish txnID) history sCtx)
    (begun : txnID < sCtx.nextTxID) :
    StoreInv tables (.removeTx txnID) history (sCtx.setLastCTS txnID) where
  contents := inv.contents
  todoSaved := inv.todoSaved
  deques := inv.deques
  owned := inv.owned
  last := begun
  lastOld := by
    rintro id ⟨⟩
    exact le_refl txnID
  pending := trivial

theorem removeTx (inv : StoreInv tables (.removeTx txnID) history sCtx)
    (begun : txnID < sCtx.nextTxID)
    (counter : next.nextTxID = sCtx.nextTxID)
    (lastCTS : next.lastCTS = sCtx.lastCTS) :
    StoreInv tables .idle history next where
  contents := inv.contents
  todoSaved := by
    intro i e impossible
    cases impossible
  deques := by
    intro i
    obtain ⟨newestFirst, validated, _, ws, older, list, _, _, ended, before⟩ :=
      inv.deques i
    refine ⟨newestFirst, by rw [counter]; exact validated, ?_⟩
    intro other member
    rw [list] at member
    change other.endTS < next.nextTxID
    rw [counter]
    rcases List.mem_cons.mp member with same | rest
    · rw [same]
      exact ended
    · exact Nat.lt_trans (before other rest) begun
  owned := by
    intro i
    exact Or.inl (inv.deques i).ends.1
  last := by
    rw [counter, lastCTS]
    exact inv.last
  lastOld := by
    intro id impossible
    cases impossible
  pending := trivial

end StoreInv

end PipeFabric.Bocc
