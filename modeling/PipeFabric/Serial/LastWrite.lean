import PipeFabric.Mvcc.Reachable
import PipeFabric.Serial.MVCCCommit
import PipeFabric.Serial.NewReader
import PipeFabric.Serial.Transactions

/-!
# What is left of repeated writes

A transaction on the multi-version tables that writes a key several times reads
its first record until it commits, and leaves the least one.
-/

namespace PipeFabric.MVCCTable

open TransactionalTable WriteFold

variable {K R : Type} [LinearOrder K] [LinearOrder R]

/-- The record sorting and dropping duplicates leaves for a key. -/
def leastWrite (writes : List (K × R)) (key : K) : Option R :=
  firstWrite (SortUnique.sortUnique writes) key

theorem leastWrite_eq_none {writes : List (K × R)} {key : K} :
    leastWrite writes key = none ↔ key ∉ writes.map Prod.fst := by
  rw [leastWrite, firstWrite_eq_none, not_iff_not, List.mem_map, List.mem_map]
  constructor
  · intro kept
    obtain ⟨e, member, same⟩ := kept
    exact ⟨e, (SortUnique.mem_sortUnique_least member).1, same⟩
  · intro present
    obtain ⟨e, member, same⟩ := present
    obtain ⟨kept, inside, equal⟩ := SortUnique.exists_mem_sortUnique member
    exact ⟨kept, inside, equal.trans same⟩

theorem exists_leastWrite {writes : List (K × R)} {key : K} {rec : R}
    (member : (key, rec) ∈ writes) :
    ∃ least, leastWrite writes key = some least := by
  obtain ⟨kept, inside, same⟩ := SortUnique.exists_mem_sortUnique member
  have here : (key, kept.2) ∈ SortUnique.sortUnique writes := by
    obtain rfl : kept.1 = key := same
    exact inside
  exact exists_firstWrite here

/-- The record of a write is left if it is the least of its key. -/
theorem leastWrite_eq_iff {writes : List (K × R)} {key : K} {rec : R}
    (member : (key, rec) ∈ writes) :
    leastWrite writes key = some rec ↔
      ∀ e ∈ writes, e.1 = key → rec ≤ e.2 := by
  constructor
  · intro found e inside same
    exact (SortUnique.mem_sortUnique_least (mem_of_firstWrite found)).2 e inside
      same
  · intro least
    obtain ⟨kept, found⟩ := exists_leastWrite member
    obtain ⟨inside, below⟩ :=
      SortUnique.mem_sortUnique_least (mem_of_firstWrite found)
    rw [found]
    exact congrArg some (le_antisymm (below _ member rfl) (least _ inside rfl))

/-! ## One transaction -/

/-- Between two transactions nothing is buffered, and all stored versions are
published. -/
structure BetweenTransactions (group : TableGroup (MVCCTable K R)) : Prop where
  clean : ∀ i, (group.regStates i).writeSet = { txnID := 0, set := [] }
  settled : ∀ i, TableSettled group.sCtx.lastCTS (group.regStates i).tbl
  lastOld : group.sCtx.lastCTS < group.sCtx.nextTxID

/-- What a transaction that has committed leaves. -/
structure Done (txnID : Nat) (inserts : List (TableID × K × R))
    (group next : TableGroup (MVCCTable K R)) : Prop extends
    BetweenTransactions next where
  lastCTS : next.sCtx.lastCTS = txnID
  newer : group.sCtx.lastCTS < txnID
  room : next.sCtx.occupied.card < 64
  finite : txnID < DTS_INF
  installed : ∀ i, Installed txnID
    (SortUnique.sortUnique (writesTo inserts i))
    (group.regStates i).tbl (next.regStates i).tbl

omit [LinearOrder K] [LinearOrder R] in
theorem Settled.readVisible {bound t : Nat} {mvcc : MVCCTuple R}
    (settled : Settled bound mvcc) (late : bound ≤ t) (finite : t < DTS_INF)
    {p : Fin 2} (isOpen : mvcc.IsOpen p) :
    MVCCTable.readVisible mvcc t = some (mvcc.values p) := by
  rw [MVCCTable.readVisible, settled.chain.getCurrent_open isOpen
    (Nat.le_trans (settled.old p isOpen) late) finite]
  rfl

/-- After the commit a key shows the least record written to it, or what it has
shown before. -/
theorem Installed.committedRecord {writes : List (K × R)} {i : TableID}
    {group next : TableGroup (MVCCTable K R)}
    (installed : Installed next.sCtx.lastCTS (SortUnique.sortUnique writes)
      (group.regStates i).tbl (next.regStates i).tbl)
    (settled : TableSettled group.sCtx.lastCTS (group.regStates i).tbl)
    (newer : group.sCtx.lastCTS < next.sCtx.lastCTS)
    (finite : next.sCtx.lastCTS < DTS_INF) (key : K) :
    committedRecord next i key =
      (leastWrite writes key).or (committedRecord group i key) := by
  cases written : leastWrite writes key with
  | none =>
      have absent : key ∉ (SortUnique.sortUnique writes).map Prod.fst :=
        firstWrite_eq_none.mp written
      simp only [MVCCTable.committedRecord, installed.kept key absent,
        Option.none_or]
      cases found : (group.regStates i).tbl.getByKey key with
      | none => rfl
      | some mvcc =>
          have isSettled := settled key mvcc found
          obtain ⟨p, isOpen⟩ := isSettled.chain.opened
          rw [Option.bind_some, Option.bind_some,
            isSettled.readVisible (Nat.le_of_lt newer) finite isOpen,
            isSettled.readVisible (Nat.le_refl _) (Nat.lt_trans newer finite) isOpen]
  | some rec =>
      obtain ⟨mvcc, found, shows_⟩ :=
        installed.written _ (mem_of_firstWrite written)
      have visible : readVisible mvcc next.sCtx.lastCTS = some rec :=
        shows_.readVisible (Nat.le_refl _) finite
      simp [MVCCTable.committedRecord, found, visible]

theorem Done.committedRecord {txnID : Nat} {inserts : List (TableID × K × R)}
    {group next : TableGroup (MVCCTable K R)}
    (done : Done txnID inserts group next)
    (settled : ∀ i, TableSettled group.sCtx.lastCTS (group.regStates i).tbl)
    (i : TableID) (key : K) :
    committedRecord next i key =
      (leastWrite (writesTo inserts i) key).or (committedRecord group i key) := by
  have installed := done.installed i
  have newer := done.newer
  have finite := done.finite
  rw [← done.lastCTS] at installed newer finite
  exact installed.committedRecord (settled i) newer finite key

omit [LinearOrder K] [LinearOrder R] in
theorem Installed.settled {txnID bound : Nat} {set : List (K × R)}
    {before after : CuckooTable K (MVCCTuple R)}
    (installed : Installed txnID set before after)
    (settled : TableSettled bound before) (older : bound ≤ txnID) :
    TableSettled txnID after := by
  intro key mvcc found
  by_cases written : key ∈ set.map Prod.fst
  · obtain ⟨e, member, same⟩ := List.mem_map.mp written
    obtain ⟨stored, there, shows_⟩ := installed.written e member
    rw [same, found, Option.some_inj] at there
    subst stored
    exact shows_.settled (Nat.le_refl _)
  · rw [installed.kept key written] at found
    exact (settled key mvcc found).mono older

/-! ## From begin to commit -/

section Effect

variable [Inhabited R] {Thread : Type} {owner : Thread → Option Nat}

/-- The writes are buffered until the commit. -/
theorem BetweenTransactions.buffered {txnID : Nat} {sCtx : StateContext}
    {inserts : List (TableID × K × R)}
    {group written : TableGroup (MVCCTable K R)}
    (between : BetweenTransactions group)
    (inserted : insertAll txnID inserts
      (beginBoth (group.setCtx sCtx) txnID) = some written) :
    written.sCtx = sCtx ∧
      ∀ i, written.regStates i = { group.regStates i with
        writeSet := { txnID := txnID, set := writesTo inserts i } } := by
  obtain ⟨next, ran, context, tables⟩ := insertAll_begun txnID inserts
    (group.setCtx sCtx)
  cases ran.symm.trans inserted
  refine ⟨context, ?_⟩
  intro i
  rw [tables i]
  change { group.regStates i with
    writeSet := { txnID := txnID
                  set := (group.regStates i).writeSet.set ++ writesTo inserts i } }
      = _
  rw [between.clean i]
  rfl

variable [DecidableEq Thread]

/-- A transaction that is begun between two others, writes and is voted for. -/
theorem BetweenTransactions.transaction {txnID fuel : Nat} {sCtx : StateContext}
    {first : TableID} {inserts : List (TableID × K × R)}
    {group written next : TableGroup (MVCCTable K R)}
    (between : BetweenTransactions group) (thread : Thread)
    (owners : Owners group.sCtx owner)
    (begun : beginTx group.sCtx = some (txnID, sCtx))
    (inserted : insertAll txnID inserts
      (beginBoth (group.setCtx sCtx) txnID) = some written)
    (returned : voteBoth fuel txnID first written = some next) :
    Owners next.sCtx (Function.update owner thread none) ∧
      Done txnID inserts group next := by
  obtain ⟨context, tables⟩ := between.buffered inserted
  obtain ⟨begunOwners, new, counter, lastCTS, activeTx⟩ :=
    owners.beginTx thread begun
  have newer : group.sCtx.lastCTS < txnID := by
    rw [new]
    exact between.lastOld
  have active : written.sCtx.activeTx txnID =
      some (StateContext.freshTx txnID) := by
    rw [context, activeTx, Function.update_self]
  obtain ⟨voted, entry, replaces, unread, votedCounter, slots, commits⟩ :=
    voteBoth_eq fuel first (context ▸ begunOwners.wellFormed) active
  rw [commits] at returned
  have votedOwners : Owners voted
      (Function.update owner thread (some txnID)) := by
    rw [context] at replaces votedCounter
    exact begunOwners.replace replaces votedCounter
      (by rw [unread]; exact Nat.zero_le _)
  have stored : ∀ i, ((written.setCtx voted).regStates i).tbl =
      (group.regStates i).tbl := by
    intro i
    rw [TableGroup.setCtx_regStates, tables i]
  obtain ⟨ended, committed⟩ := commitBoth_effect thread votedOwners
    (Function.update_self _ _ _)
    (by
      intro i
      rw [stored i]
      exact between.settled i)
    newer
    (by
      rw [TableGroup.setCtx_sCtx, replaces.lastCTS, context, lastCTS]
      exact newer)
    returned
  rw [Function.update_idem] at ended
  have finite := (begunOwners.bounds thread (Function.update_self _ _ _)).2.2
  have installed : ∀ i, Installed txnID
      (SortUnique.sortUnique (writesTo inserts i))
      (group.regStates i).tbl (next.regStates i).tbl := by
    intro i
    have last := committed.installed i
    rw [stored i, TableGroup.setCtx_regStates, tables i] at last
    exact last
  refine ⟨ended, ?_⟩
  exact
    { clean := committed.clean
      settled := by
        intro i
        rw [committed.lastCTS]
        exact (installed i).settled (between.settled i) (Nat.le_of_lt newer)
      lastOld := by
        rw [committed.lastCTS, committed.nextTxID, TableGroup.setCtx_sCtx,
          votedCounter, context, counter, new]
        exact Nat.lt_succ_self _
      lastCTS := committed.lastCTS
      newer := newer
      room := by
        have count := committed.occupied
        have bound :=
          StateContext.card_occupied_le (written.setCtx voted).sCtx
        omega
      finite := finite
      installed := installed }

end Effect

/-! ## Reading -/

section Reading

omit [LinearOrder R] in
theorem BetweenTransactions.newRead {group : TableGroup (MVCCTable K R)}
    (between : BetweenTransactions group)
    (wellFormed : group.sCtx.WellFormed)
    (room : group.sCtx.occupied.card < 64) (i : TableID) (key : K) :
    newRead group i key = some (answer (committedRecord group i key)) := by
  apply newRead_eq wellFormed room
  rw [between.clean i]
  exact Nat.ne_of_lt (Nat.zero_lt_of_lt between.lastOld)

omit [LinearOrder R] in
/-- The transaction finds its first write of a key. -/
theorem getByKey_own {group : TableGroup (MVCCTable K R)} {i : TableID}
    {txnID : Nat} {writes : List (K × R)} {key : K} {rec : R}
    (buffered : (group.regStates i).writeSet =
      { txnID := txnID, set := writes })
    (written : firstWrite writes key = some rec) :
    getByKey group i txnID key = some (.SUCCESS, some rec, group) := by
  have own : (group.regStates i).ownVersion txnID key = some rec := by
    rw [ownVersion, buffered, if_pos rfl]
    exact written
  simp only [getByKey, own]

/-- What is promised of a transaction: it reads its last write of a key, and so
does a new reader after the commit, who sees the other keys unchanged. -/
structure LastWriteWins (txnID : Nat) (inserts : List (TableID × K × R))
    (group written next : TableGroup (MVCCTable K R)) : Prop where
  own : ∀ i key rec, lastWrite (writesTo inserts i) key = some rec →
    ∃ later, getByKey written i txnID key = some (.SUCCESS, some rec, later)
  new : ∀ i key rec, lastWrite (writesTo inserts i) key = some rec →
    newRead next i key = some (.SUCCESS, some rec)
  kept : ∀ i key, key ∉ (writesTo inserts i).map Prod.fst →
    newRead next i key = newRead group i key

/-- The last write of every key repeats the first one, and no write of the key
has a smaller record. -/
def LastIsFirstAndLeast (writes : List (K × R)) : Prop :=
  ∀ key rec, lastWrite writes key = some rec →
    firstWrite writes key = some rec ∧ ∀ e ∈ writes, e.1 = key → rec ≤ e.2

/-- All writes of a key have the same record. -/
theorem LastIsFirstAndLeast.of_agree {writes : List (K × R)}
    (agree : ∀ left ∈ writes, ∀ right ∈ writes, left.1 = right.1 →
      left.2 = right.2) :
    LastIsFirstAndLeast writes := by
  intro key rec last
  constructor
  · rw [firstWrite_eq_lastWrite agree, last]
  · intro e inside same
    exact le_of_eq (agree _ (mem_of_lastWrite last) e inside same.symm)

end Reading

end PipeFabric.MVCCTable

namespace PipeFabric.Mvcc

open MVCCTable TransactionalTable WriteFold TransitionSystem

variable {ρ K R : Type} [LinearOrder K] [LinearOrder R]

/-- An idle writer has left nothing behind. -/
theorem Inv.betweenTransactions {state : State ρ K R} (inv : Inv state)
    (idle : state.writer = .idle) : BetweenTransactions state.group := by
  have phase := inv.store.phase
  rw [idle] at phase
  obtain ⟨published, clean⟩ := phase
  constructor
  · exact clean
  · intro i key mvcc found
    have ok := inv.store.objects i key mvcc found
    constructor
    · exact ok.chain
    · intro p isOpen
      obtain ⟨commit, member, stamp, _⟩ := ok.written p isOpen.1
      rw [← stamp]
      exact published commit member
  · exact inv.store.lastOld

variable [DecidableEq ρ] [Inhabited R]

section Runs

abbrev SmallGroup := TableGroup (MVCCTable Nat Nat)

/-- The first transaction of a system that starts at clock one, before and after
its votes. -/
def firstTransaction (inserts : List (TableID × Nat × Nat)) :
    Option (SmallGroup × SmallGroup) := do
  let group := (Mvcc.initial 1 : State (Fin 1) Nat Nat).group
  let begun ← beginTx group.sCtx
  let written ← insertAll begun.1 inserts
    (beginBoth (group.setCtx begun.2) begun.1)
  let next ← TransactionalTable.voteBoth 1 begun.1 0 written
  return (written, next)

theorem firstTransaction_eq_some {inserts : List (TableID × Nat × Nat)}
    {written next : SmallGroup}
    (ran : firstTransaction inserts = some (written, next)) :
    ∃ txnID sCtx,
      beginTx (Mvcc.initial 1 : State (Fin 1) Nat Nat).group.sCtx =
        some (txnID, sCtx) ∧
      insertAll txnID inserts
        (beginBoth ((Mvcc.initial 1 : State (Fin 1) Nat Nat).group.setCtx sCtx)
          txnID) = some written ∧
      TransactionalTable.voteBoth 1 txnID 0 written = some next := by
  simp only [firstTransaction, Option.bind_eq_bind, Option.bind_eq_some_iff,
    Option.pure_def, Option.some.injEq, Prod.mk.injEq] at ran
  obtain ⟨begun, started, inserted, ran, voted, returned, rfl, rfl⟩ := ran
  exact ⟨begun.1, begun.2, started, ran, returned⟩

end Runs

/-- Whatever was committed before, a transaction on the two tables keeps the
promise exactly if the last write of every key is its first and least one. -/
theorem transaction_lastWriteWins {clock : Nat} (positive : 0 < clock)
    (small : clock ≤ DTS_INF) {state : State ρ K R}
    (reachable : Reachable step (Mvcc.initial clock) state)
    (idle : state.writer = .idle) {txnID : Nat} {sCtx : StateContext}
    (begun : beginTx state.group.sCtx = some (txnID, sCtx))
    (inserts : List (TableID × K × R)) {written : TableGroup (MVCCTable K R)}
    (inserted : insertAll txnID inserts
      (beginBoth (state.group.setCtx sCtx) txnID) = some written)
    {fuel : Nat} {first : TableID} {next : TableGroup (MVCCTable K R)}
    (returned : TransactionalTable.voteBoth fuel txnID first written = some next) :
    LastWriteWins txnID inserts state.group written next ↔
      ∀ i, LastIsFirstAndLeast (writesTo inserts i) := by
  have inv := Inv.of_execution positive small reachable
  have between := inv.betweenTransactions idle
  obtain ⟨_, tables⟩ := between.buffered inserted
  obtain ⟨owners, done⟩ := between.transaction none inv.owners begun inserted
    returned
  have buffered : ∀ i, (written.regStates i).writeSet =
      { txnID := txnID, set := writesTo inserts i } := by
    intro i
    rw [tables i]
  have after : ∀ i key, newRead next i key = some (MVCCTable.answer
      ((leastWrite (writesTo inserts i) key).or
        (committedRecord state.group i key))) := by
    intro i key
    rw [done.newRead owners.wellFormed done.room,
      done.committedRecord between.settled]
  constructor
  · intro wins i key rec last
    have member := mem_of_lastWrite last
    constructor
    · obtain ⟨later, read⟩ := wins.own i key rec last
      obtain ⟨kept, firstOne⟩ := exists_firstWrite member
      rw [getByKey_own (buffered i) firstOne] at read
      cases read
      exact firstOne
    · rw [← leastWrite_eq_iff member]
      obtain ⟨kept, least⟩ := exists_leastWrite member
      have read := wins.new i key rec last
      rw [after, least] at read
      cases read
      exact least
  · intro ordered
    constructor
    · intro i key rec last
      exact ⟨written, getByKey_own (buffered i) (ordered i key rec last).1⟩
    · intro i key rec last
      have least := (leastWrite_eq_iff (mem_of_lastWrite last)).mpr
        (ordered i key rec last).2
      rw [after, least]
      rfl
    · intro i key absent
      rw [after, leastWrite_eq_none.mpr absent, between.newRead
        inv.owners.wellFormed]
      · rfl
      · unfold beginTx at begun
        split at begun
        case isTrue =>
          have count := StateContext.occupied_newTx begun
          have bound := StateContext.card_occupied_le sCtx
          omega
        case isFalse => cases begun

theorem transaction_lastWriteWins_repeatedRecord :
    ∃ (txnID : Nat) (written next : SmallGroup),
      firstTransaction [(0, 7, 10), (1, 7, 20), (0, 7, 10)] =
        some (written, next) ∧
      LastWriteWins txnID [(0, 7, 10), (1, 7, 20), (0, 7, 10)]
        (Mvcc.initial 1 : State (Fin 1) Nat Nat).group written next := by
  have ends : (firstTransaction
      [(0, 7, 10), (1, 7, 20), (0, 7, 10)]).isSome := by
    decide
  obtain ⟨⟨written, next⟩, ran⟩ := Option.isSome_iff_exists.mp ends
  obtain ⟨txnID, sCtx, begun, inserted, returned⟩ := firstTransaction_eq_some ran
  refine ⟨txnID, written, next, ran, ?_⟩
  apply (transaction_lastWriteWins (by decide) (by decide) .refl rfl begun _
    inserted returned).mpr
  intro i
  apply LastIsFirstAndLeast.of_agree
  revert i
  decide

/-- The transaction writes 20 after 10 to a key; it reads 10, and so does a new
reader after the commit. -/
theorem not_transaction_lastWriteWins :
    ∃ (txnID : Nat) (written next : SmallGroup),
      firstTransaction [(0, 7, 10), (0, 7, 20)] = some (written, next) ∧
      newRead next 0 7 = some (.SUCCESS, some 10) ∧
      ¬ LastWriteWins txnID [(0, 7, 10), (0, 7, 20)]
        (Mvcc.initial 1 : State (Fin 1) Nat Nat).group written next := by
  have reads : (firstTransaction [(0, 7, 10), (0, 7, 20)]).map
      (fun groups => newRead groups.2 0 7) =
        some (some (.SUCCESS, some 10)) := by
    decide
  obtain ⟨⟨written, next⟩, ran, read⟩ := Option.map_eq_some_iff.mp reads
  refine ⟨1, written, next, ran, read, ?_⟩
  intro wins
  have last := wins.new 0 7 20 (by decide)
  rw [read] at last
  cases last

end PipeFabric.Mvcc
