import PipeFabric.Bocc.Reachable

/-!
# What validation guarantees

`since` is the serial point of a reader: the history at the moment it began.
For each table, either the reader is doomed, because a write set that is kept
there will make the validation fail, or the keys it reads still have the values
of that point.  A reader that passes both scans has read that state.
-/

namespace PipeFabric.Bocc

open TransitionSystem StateContext FromTxTables

variable {ρ K R : Type}

/-- A write set kept for the table conflicts with the keys of the query; with a
validation timestamp, only write sets validated before it count. -/
def Doomed (state : State ρ K R) (query : Query K R) (i : TableID)
    (valTS : Option Nat) : Prop :=
  ∃ ws ∈ (state.group.regStates i).committedWSs,
    query.mTxnID < state.writer.endTS i ws ∧
      (∀ ts ∈ valTS, ws.valTS < ts) ∧ ∃ key ∈ query.mKeys, key ∈ ws.keys

section Phases

variable [DecidableEq K]

/-- The keys of the query have the values of the serial point. -/
def Agrees (state : State ρ K R) (reader : Reader K R) (i : TableID) : Prop :=
  ∀ key ∈ reader.query.mKeys,
    (state.group.regStates i).tbl.getByKey key = stateAfter reader.since i key

/-- The values read are those of the serial point. -/
def ReadsOk (since : List (Writes K R)) (query : Query K R) (i : TableID)
    (passed : Nat → Prop) : Prop :=
  ∀ j key, passed j → query.mKeys[j]? = some key →
    ∃ rec, query.tpls i j = some rec ∧ stateAfter since i key = some rec

def ReaderPhase (state : State ρ K R) (reader : Reader K R) : ReaderPC → Prop
  | .lookup cursor => ∀ i, Doomed state reader.query i none ∨
      Agrees state reader i ∧
        ReadsOk reader.since reader.query i fun j => cursor.Passed j i
  | .restart => ∀ i, Doomed state reader.query i none ∨ Agrees state reader i
  | .firstTS tblID ok | .fetchValTS tblID ok =>
      ∀ i, if i < tblID
        then ok = true → ReadsOk reader.since reader.query i fun _ => True
        else Doomed state reader.query i none ∨
          ReadsOk reader.since reader.query i fun _ => True
  | .scan tblID valTS ok =>
      ∀ i, if i < tblID
        then ok = true → ReadsOk reader.since reader.query i fun _ => True
        else Doomed state reader.query i (if i = tblID then some valTS else none) ∨
          ReadsOk reader.since reader.query i fun _ => True
  | .publish => ∀ i, ReadsOk reader.since reader.query i fun _ => True
  | .idle => True
  | .abort => True
  | .newTx => True
  | .removeTx => True

structure SerialOk (state : State ρ K R) (reader : Reader K R) : Prop where
  suffix : reader.since <:+ state.history
  phase : ReaderPhase state reader reader.pc

def ReaderOk (state : State ρ K R) (reader : ρ) : Prop :=
  ∀ txnID, (state.readers reader).txn = some txnID →
    SerialOk state (state.readers reader)

/-- All values of a query belong to the state of both tables at one serial
point. -/
def Serial (history : List (Writes K R)) (query : Query K R) : Prop :=
  ∃ older, older <:+ history ∧ ∀ j key, query.mKeys[j]? = some key →
    ∀ i, ∃ rec, query.tpls i j = some rec ∧ stateAfter older i key = some rec

end Phases

/-! ## Steps of the writer -/

section Frames

variable {state next : State ρ K R} {query : Query K R} {i : TableID}

/-- The writer does not save a reader that is doomed. -/
theorem Doomed.frame {valTS : Option Nat}
    (doomed : Doomed state query i valTS) (live : state.live query.mTxnID)
    (frame : TablesFrame state.group.regStates state.writer
      next.group.regStates next.writer state.live) :
    Doomed next query i valTS := by
  obtain ⟨ws, member, after, before, key, wanted, written⟩ := doomed
  obtain ⟨still, kept, keys, validated, ends⟩ :=
    frame.kept i ws member query.mTxnID live after
  refine ⟨still, kept, ends, ?_, key, wanted, by rw [keys]; exact written⟩
  rw [validated]
  exact before

/-- A key that changes dooms the readers that want it. -/
theorem Agrees.frame [DecidableEq K] {reader : Reader K R}
    (agrees : Agrees state reader i) (finite : reader.query.mTxnID < DTS_INF)
    (frame : TablesFrame state.group.regStates state.writer
      next.group.regStates next.writer state.live) :
    Doomed next reader.query i none ∨ Agrees next reader i := by
  by_cases same : ∀ key ∈ reader.query.mKeys,
      (next.group.regStates i).tbl.getByKey key =
        (state.group.regStates i).tbl.getByKey key
  · right
    intro key wanted
    rw [same key wanted]
    exact agrees key wanted
  · left
    simp only [not_forall] at same
    obtain ⟨key, wanted, changed⟩ := same
    rcases frame.contents i key with unchanged | ⟨ws, member, written, infinite⟩
    · exact absurd unchanged changed
    · refine ⟨ws, member, by rw [infinite]; exact finite, ?_, key, wanted,
        written⟩
      intro ts impossible
      cases impossible

/-- A writer step keeps what is known of a reader. -/
theorem ReaderPhase.frame [DecidableEq K] {reader : Reader K R}
    {pc : ReaderPC} (phase : ReaderPhase state reader pc)
    (live : state.live reader.query.mTxnID)
    (finite : reader.query.mTxnID < DTS_INF)
    (frame : TablesFrame state.group.regStates state.writer
      next.group.regStates next.writer state.live) :
    ReaderPhase next reader pc := by
  -- the tables before `tblID` have been validated
  have validating : ∀ (tblID : TableID) (accepted : TableID → Prop)
      (valTS : TableID → Option Nat),
      (∀ i, if i < tblID then accepted i
        else Doomed state reader.query i (valTS i) ∨
          ReadsOk reader.since reader.query i fun _ => True) →
      ∀ i, if i < tblID then accepted i
        else Doomed next reader.query i (valTS i) ∨
          ReadsOk reader.since reader.query i fun _ => True := by
    intro tblID accepted valTS phase i
    have known := phase i
    split at known
    case isTrue earlier =>
      rw [if_pos earlier]
      exact known
    case isFalse later =>
      rw [if_neg later]
      exact known.imp_left fun doomed => doomed.frame live frame
  cases pc with
  | lookup cursor =>
      intro i
      rcases phase i with doomed | ⟨agrees, reads⟩
      · exact Or.inl (doomed.frame live frame)
      · exact (agrees.frame finite frame).imp_right fun still => ⟨still, reads⟩
  | restart =>
      intro i
      rcases phase i with doomed | agrees
      · exact Or.inl (doomed.frame live frame)
      · exact agrees.frame finite frame
  | firstTS tblID ok => exact validating tblID _ (fun _ => none) phase
  | fetchValTS tblID ok => exact validating tblID _ (fun _ => none) phase
  | scan tblID valTS ok =>
      exact validating tblID _ (fun i => if i = tblID then some valTS else none) phase
  | publish => exact phase
  | idle => trivial
  | abort => trivial
  | newTx => trivial
  | removeTx => trivial

end Frames

/-- Steps that leave the tables and the writer alone. -/
theorem ReaderPhase.congr [DecidableEq K] {state next : State ρ K R}
    {reader : Reader K R} {pc : ReaderPC}
    (phase : ReaderPhase state reader pc)
    (tables : next.group.regStates = state.group.regStates)
    (writer : next.writer = state.writer) :
    ReaderPhase next reader pc := by
  unfold ReaderPhase Doomed Agrees at *
  rw [tables, writer]
  exact phase

/-! ## Steps of a reader -/

section Readers

variable [DecidableEq ρ] [DecidableEq K]

omit [DecidableEq ρ] in
/-- Readers do not find own versions: the write sets belong to the writer. -/
theorem Inv.getByKey_eq {state : State ρ K R} (inv : Inv state) {reader : ρ}
    {txnID : Nat} (running : (state.readers reader).txn = some txnID)
    (i : TableID) (key : K) :
    (state.group.regStates i).getByKey txnID key =
      (state.group.regStates i).tbl.getByKey key := by
  have positive := (inv.owners.bounds (some reader) running).1
  have foreign : (state.group.regStates i).writeSet.txnID ≠ txnID := by
    intro same
    rcases inv.store.owned i with unowned | owned
    · omega
    · rw [same] at owned
      have clash := inv.owners.distinct none (some reader) txnID owned running
      cases clash
  unfold BOCCTable.getByKey
  rw [if_neg foreign]
  rfl

omit [DecidableEq ρ] in
/-- A transaction that begins agrees with the history, or is doomed by the
commit under way. -/
theorem begin_phase {state : State ρ K R} (inv : Inv state)
    (query : Query K R) (finite : query.mTxnID < DTS_INF) (i : TableID) :
    Doomed state query i none ∨ Agrees state
      { pc := .lookup .first, query := query, since := state.history } i := by
  by_cases free : ∀ key ∈ query.mKeys,
      key ∉ (state.writer.todo state.group.regStates i).map Prod.fst
  · right
    intro key wanted
    have contents := congrFun (inv.store.contents i) key
    rw [WriteFold.overwrite_of_not_mem (free key wanted)] at contents
    exact contents
  · left
    simp only [not_forall, not_not] at free
    obtain ⟨key, wanted, listed⟩ := free
    obtain ⟨e, member, rfl⟩ := List.mem_map.mp listed
    obtain ⟨saved, written⟩ := inv.store.todoSaved i e member
    have ends := (inv.store.deques i).ends
    rw [saved] at ends
    obtain ⟨ws, older, list, infinite, keys, _⟩ := ends
    refine ⟨ws, by rw [list]; exact List.mem_cons_self, ?_, ?_, e.1, wanted,
      by rw [keys]; exact written⟩
    · unfold WriterPC.endTS
      split
      case h_1 txnID tblID endTS last pc =>
        split
        case isTrue here =>
          -- nothing is left to insert once the timestamp has been fetched
          rw [here.1] at member
          rw [pc] at member
          simp [WriterPC.todo] at member
        case isFalse =>
          rw [infinite]
          exact finite
      case h_2 =>
        rw [infinite]
        exact finite
    · intro ts impossible
      cases impossible

omit [DecidableEq ρ] in
/-- The completion timestamp that counts is not above the stored one. -/
theorem Inv.endTS_le {state : State ρ K R} (inv : Inv state) (i : TableID)
    (ws : CommittedWS K) : state.writer.endTS i ws ≤ ws.endTS := by
  have pending := inv.store.pending
  have counter := inv.owners.counter
  unfold WriterPC.endTS
  split
  case h_1 txnID tblID endTS last pc =>
    split
    case isTrue here =>
      rw [pc] at pending
      rw [here.2]
      exact Nat.le_of_lt (Nat.lt_of_lt_of_le pending.2.1 counter)
    case isFalse => exact le_refl _
  case h_2 => exact le_refl _

omit [DecidableEq ρ] in
/-- A doomed reader fails the scan. -/
theorem Doomed.validate_ne {state : State ρ K R} (inv : Inv state)
    {query : Query K R} {i : TableID} {valTS : Nat}
    (doomed : Doomed state query i (some valTS)) :
    (state.group.regStates i).validate query.mTxnID valTS query.mKeys ≠
      .SUCCESS := by
  rw [ne_eq, BOCCTable.validate_eq_success]
  obtain ⟨ws, member, after, before, conflict⟩ := doomed
  intro none
  exact none ws member ⟨Nat.lt_of_lt_of_le after (inv.endTS_le i ws),
    before valTS rfl, conflict⟩

omit [DecidableEq ρ] in
/-- The reader moves within its transaction. -/
private theorem moved {state next : State ρ K R} {reader : ρ}
    {value : Reader K R} (here : next.readers reader = value)
    (suffix : value.since <:+ state.history)
    (phase : ReaderPhase state value value.pc)
    (tables : next.group.regStates = state.group.regStates)
    (writer : next.writer = state.writer)
    (history : next.history = state.history) : ReaderOk next reader := by
  intro txnID _
  rw [here]
  exact ⟨history ▸ suffix, phase.congr tables writer⟩

private theorem lookup_ok {state : State ρ K R} (inv : Inv state) {reader : ρ}
    (ok : ReaderOk state reader) {cursor : Cursor}
    (pc : (state.readers reader).pc = .lookup cursor) :
    ReaderOk (lookupStep state reader cursor) reader := by
  have running : (state.readers reader).txn =
      some (state.readers reader).query.mTxnID := by
    simp [Reader.txn, pc]
  obtain ⟨suffix, phase⟩ := ok _ running
  rw [pc] at phase
  unfold lookupStep
  dsimp only
  cases position : (state.readers reader).query.mKeys[cursor.j]? with
  | none =>
      dsimp only
      refine moved (Function.update_self _ _ _) suffix ?_ rfl rfl rfl
      intro i
      rw [if_neg (Fin.not_lt_zero i)]
      refine (phase i).imp_right ?_
      intro lookups j key _ found
      refine lookups.2 j key (Or.inl ?_) found
      obtain ⟨inside, _⟩ := List.getElem?_eq_some_iff.mp found
      exact Nat.lt_of_lt_of_le inside (List.getElem?_eq_none_iff.mp position)
  | some key =>
      dsimp only
      rw [inv.getByKey_eq running]
      cases stored : (state.group.regStates cursor.i).tbl.getByKey key with
      | none =>
          dsimp only
          refine moved (Function.update_self _ _ _) suffix ?_ rfl rfl rfl
          intro i
          exact (phase i).imp_right And.left
      | some rec =>
          dsimp only
          refine moved (Function.update_self _ _ _) suffix ?_ rfl rfl rfl
          intro i
          refine (phase i).imp_right ?_
          intro lookups
          obtain ⟨agrees, reads⟩ := lookups
          refine ⟨agrees, ?_⟩
          intro j other passed found
          rw [Query.store_tpls]
          rw [Cursor.passed_next] at passed
          by_cases here : j = cursor.j ∧ i = cursor.i
          · rw [if_pos here]
            have same : other = key := by
              have lookup : (state.readers reader).query.mKeys[j]? =
                some other := found
              rw [here.1, position] at lookup
              exact (Option.some.inj lookup).symm
            have value := agrees key (List.mem_of_getElem? position)
            refine ⟨rec, rfl, ?_⟩
            rw [same, ← value, here.2]
            exact stored
          · rw [if_neg here]
            exact reads j other (passed.resolve_right here) found

private theorem begin_ok {state next : State ρ K R} (inv : Inv state)
    {reader : ρ} {query : Query K R}
    (stepped : beginStep state reader query = some next) :
    ReaderOk next reader ∧ next.published = state.published := by
  unfold beginStep at stepped
  obtain ⟨⟨id, sCtx⟩, begun, ended⟩ := Option.bind_eq_some_iff.mp stepped
  cases ended
  obtain ⟨owners, new, _⟩ :=
    inv.owners.beginTx (some reader) begun
  have started := Function.update_self (some reader) (some id) state.owner
  have finite := (owners.bounds (some reader) started).2.2
  refine ⟨moved (Function.update_self _ _ _) (List.suffix_refl _) ?_
    rfl rfl rfl, rfl⟩
  intro i
  refine (begin_phase inv { query with mTxnID := id } finite i).imp_right
    fun agrees => ⟨agrees, ?_⟩
  intro j key passed
  exact absurd passed (Cursor.not_passed_first j i)

private theorem scan_ok {state : State ρ K R} (inv : Inv state) {reader : ρ}
    (ok : ReaderOk state reader) {tblID : TableID} {valTS : Nat} {soFar : Bool}
    (pc : (state.readers reader).pc = .scan tblID valTS soFar) :
    ReaderOk (scanStep state reader tblID valTS soFar) reader := by
  obtain ⟨suffix, phase⟩ := ok (state.readers reader).query.mTxnID
    (by simp [Reader.txn, pc])
  rw [pc] at phase
  have passed : ((state.group.regStates tblID).validate
      (state.readers reader).query.mTxnID valTS
      (state.readers reader).query.mKeys == .SUCCESS) = true →
      ReadsOk (state.readers reader).since (state.readers reader).query tblID
        fun _ => True := by
    intro success
    have known := phase tblID
    rw [if_neg (lt_irrefl tblID), if_pos rfl] at known
    refine known.resolve_left fun doomed => ?_
    exact Doomed.validate_ne inv doomed (by simpa using success)
  unfold scanStep
  dsimp only
  generalize ((state.group.regStates tblID).validate
    (state.readers reader).query.mTxnID valTS
    (state.readers reader).query.mKeys == .SUCCESS) = status at passed ⊢
  refine moved (Function.update_self _ _ _) suffix ?_ rfl rfl rfl
  have known := phase
  unfold afterScan
  rcases Fin.exists_fin_two.mp ⟨tblID, rfl⟩ with zero | one
  · subst zero
    intro i
    rcases Fin.exists_fin_two.mp ⟨i, rfl⟩ with first | second
    · subst first
      rw [if_pos Fin.zero_lt_one]
      intro both
      exact passed (Bool.and_eq_true_iff.mp both).2
    · subst second
      have other := known 1
      rw [if_neg (by decide), if_neg (by decide)] at other
      rw [if_neg (by decide)]
      exact other
  · subst one
    rw [if_neg (by decide)]
    cases both : soFar && status with
    | false => trivial
    | true =>
        obtain ⟨before, now⟩ := Bool.and_eq_true_iff.mp both
        intro i
        rcases Fin.exists_fin_two.mp ⟨i, rfl⟩ with first | second
        · subst first
          have other := known 0
          rw [if_pos Fin.zero_lt_one] at other
          exact other before
        · subst second
          exact passed now

/-- A step of a query keeps what is known of the query itself. -/
private theorem read_ok {state next : State ρ K R} (inv : Inv state)
    {reader : ρ} (ok : ReaderOk state reader)
    (stepped : readStep state reader = some next) :
    ReaderOk next reader ∧
      ∀ query ∈ next.published, query ∈ state.published ∨
        Serial state.history query := by
  unfold readStep at stepped
  cases pc : (state.readers reader).pc with
  | idle => simp [pc] at stepped
  | lookup cursor =>
      simp only [pc, Option.some.injEq] at stepped
      subst next
      refine ⟨lookup_ok inv ok pc, ?_⟩
      intro query member
      left
      unfold lookupStep at member
      dsimp only at member
      split at member
      · exact member
      · split at member <;> exact member
  | restart =>
      obtain ⟨suffix, phase⟩ := ok (state.readers reader).query.mTxnID
        (by simp [Reader.txn, pc])
      rw [pc] at phase
      simp only [pc] at stepped
      obtain ⟨sCtx, set, ended⟩ := Option.bind_eq_some_iff.mp stepped
      cases ended
      refine ⟨moved (Function.update_self _ _ _) suffix ?_ rfl rfl rfl,
        fun _ member => Or.inl member⟩
      intro i
      refine (phase i).imp_right fun agrees => ⟨agrees, ?_⟩
      intro j key passed
      exact absurd passed (Cursor.not_passed_first j i)
  | firstTS tblID soFar =>
      obtain ⟨suffix, phase⟩ := ok (state.readers reader).query.mTxnID
        (by simp [Reader.txn, pc])
      rw [pc] at phase
      simp only [pc] at stepped
      obtain ⟨result, fetched, ended⟩ := Option.bind_eq_some_iff.mp stepped
      cases ended
      exact ⟨moved (Function.update_self _ _ _) suffix phase rfl rfl rfl,
        fun _ member => Or.inl member⟩
  | fetchValTS tblID soFar =>
      obtain ⟨suffix, phase⟩ := ok (state.readers reader).query.mTxnID
        (by simp [Reader.txn, pc])
      rw [pc] at phase
      simp only [pc] at stepped
      obtain ⟨⟨valTS, sCtx⟩, fetched, ended⟩ := Option.bind_eq_some_iff.mp stepped
      cases ended
      have new := (fetchTS_eq_some fetched).2.1
      refine ⟨moved (Function.update_self _ _ _) suffix ?_ rfl rfl rfl,
        fun _ member => Or.inl member⟩
      intro i
      have known := phase i
      split at known
      case isTrue earlier =>
        rw [if_pos earlier]
        exact known
      case isFalse later =>
        rw [if_neg later]
        refine known.imp_left ?_
        intro overlap
        obtain ⟨ws, member, after, _, conflict⟩ := overlap
        -- every write set that is there was validated before
        refine ⟨ws, member, after, ?_, conflict⟩
        intro ts isTS
        split at isTS
        · cases isTS
          rw [new]
          exact (inv.store.deques i).validated ws member
        · cases isTS
  | scan tblID valTS soFar =>
      simp only [pc, Option.some.injEq] at stepped
      subst next
      exact ⟨scan_ok inv ok pc, fun _ member => Or.inl member⟩
  | publish =>
      obtain ⟨suffix, phase⟩ := ok (state.readers reader).query.mTxnID
        (by simp [Reader.txn, pc])
      rw [pc] at phase
      simp only [pc, Option.some.injEq] at stepped
      subst next
      refine ⟨moved (Function.update_self _ _ _) suffix trivial rfl rfl rfl, ?_⟩
      intro query member
      rcases List.mem_append.mp member with before | new
      · exact Or.inl before
      · right
        rw [List.mem_singleton.mp new]
        exact ⟨_, suffix, fun j key position i => phase i j key trivial position⟩
  | abort =>
      simp only [pc] at stepped
      obtain ⟨sCtx, removed, ended⟩ := Option.bind_eq_some_iff.mp stepped
      cases ended
      refine ⟨?_, fun _ member => Or.inl member⟩
      intro txnID runs
      simp [State.setReader, Reader.txn] at runs
  | newTx =>
      simp only [pc] at stepped
      obtain ⟨begun, published⟩ := begin_ok inv stepped
      refine ⟨begun, ?_⟩
      intro query member
      rw [published] at member
      exact Or.inl member
  | removeTx =>
      simp only [pc] at stepped
      obtain ⟨sCtx, removed, ended⟩ := Option.bind_eq_some_iff.mp stepped
      cases ended
      refine ⟨?_, fun _ member => Or.inl member⟩
      intro txnID runs
      simp [State.setReader, Reader.txn] at runs

/-! ## Runs -/

structure SerialInv (state : State ρ K R) : Prop where
  inv : Inv state
  readers : ∀ reader, ReaderOk state reader
  published : ∀ query ∈ state.published, Serial state.history query

omit [DecidableEq ρ] in
theorem Serial.grow {history later : List (Writes K R)} {query : Query K R}
    (serial : Serial history query) (grows : history <:+ later) :
    Serial later query := by
  obtain ⟨older, suffix, values⟩ := serial
  exact ⟨older, suffix.trans grows, values⟩

theorem SerialInv.step {state next : State ρ K R} {action : Action ρ K R}
    (serial : SerialInv state) (stepped : step state action = some next) :
    SerialInv next := by
  obtain ⟨inv, readers, published⟩ := serial
  obtain ⟨nextInv, frame⟩ := step_inv inv stepped
  have writerStep : WriterFrame state next → SerialInv next := by
    intro frame
    refine ⟨nextInv, ?_, ?_⟩
    · intro reader txnID running
      rw [frame.readers] at running ⊢
      obtain ⟨suffix, phase⟩ := readers reader txnID running
      have mine : txnID = (state.readers reader).query.mTxnID := by
        unfold Reader.txn at running
        split at running
        · cases running
        · cases running
        · exact (Option.some.inj running).symm
      subst txnID
      refine ⟨suffix.trans frame.history, phase.frame ⟨?_, ?_⟩
        (inv.owners.bounds (some reader) running).2.2 frame.tables⟩
      · exact inv.owners.live (some reader) _ running
      · intro clash
        have same := inv.owners.distinct none (some reader) _ clash running
        cases same
    · intro query member
      rw [frame.published] at member
      exact (published query member).grow frame.history
  have readerStep : ∀ reader, ReaderFrame reader state next →
      ReaderOk next reader →
      (∀ query ∈ next.published, query ∈ state.published ∨
        Serial state.history query) → SerialInv next := by
    intro reader frame moved publications
    refine ⟨nextInv, ?_, ?_⟩
    · intro other
      by_cases here : other = reader
      · rw [here]
        exact moved
      · intro txnID running
        rw [frame.readers other here] at running ⊢
        obtain ⟨suffix, phase⟩ := readers other txnID running
        exact ⟨frame.history ▸ suffix, phase.congr frame.tables frame.writer⟩
    · intro query member
      rw [frame.history]
      exact (publications query member).elim (published query) id
  cases action with
  | read reader =>
      obtain ⟨moved, publications⟩ := read_ok inv (readers reader) stepped
      exact readerStep reader frame moved publications
  | start reader keys =>
      cases pc : (state.readers reader).pc with
      | idle =>
          simp only [Bocc.step, pc] at stepped
          obtain ⟨begun, publications⟩ := begin_ok inv stepped
          refine readerStep reader frame begun ?_
          intro query member
          rw [publications] at member
          exact Or.inl member
      | _ => simp [Bocc.step, pc] at stepped
  | newTx => exact writerStep frame
  | transactionBegin tblID => exact writerStep frame
  | insert tblID key rec => exact writerStep frame
  | transactionPreCommit tblID => exact writerStep frame
  | write => exact writerStep frame

omit [DecidableEq ρ] in
theorem SerialInv.initial {clock : Nat} (positive : 0 < clock)
    (small : clock ≤ DTS_INF) :
    SerialInv (Bocc.initial clock : State ρ K R) where
  inv := .initial positive small
  readers := by
    intro reader txnID impossible
    cases impossible
  published := by
    intro query impossible
    cases impossible

/-- A reader that passes both scans has read the state of both tables at one
serial point, and the clean-up drops no write set that the validation of a
running reader needs. -/
theorem validated_serial {clock : Nat} (positive : 0 < clock)
    (small : clock ≤ DTS_INF) {state : State ρ K R}
    (reachable : Reachable Bocc.step (Bocc.initial clock) state) :
    (∀ query ∈ state.published, Serial state.history query) ∧
    ∀ txnID tblID oldestTx last,
      state.writer = .erase txnID tblID oldestTx last →
      ∀ reader id, (state.readers reader).txn = some id →
      ∀ ws ∈ (state.group.regStates tblID).committedWSs, id < ws.endTS →
        ws ∈ ((state.group.regStates tblID).eraseFrom oldestTx).committedWSs := by
  have serial : SerialInv state :=
    reachable.invariant (.initial positive small)
      fun _ _ _ serial _ stepped => serial.step stepped
  refine ⟨serial.published, ?_⟩
  intro txnID tblID oldestTx last pc reader id running ws member needed
  have store := serial.inv.store
  rw [pc] at store
  obtain ⟨entry, active⟩ := serial.inv.owners.live (some reader) id running
  exact store.erase_keeps active member needed

/-- The writer commits a record for the key to both tables. -/
def commitBoth (key rec : Nat) : List (Action (Fin 1) Nat Nat) :=
  [.newTx, .transactionBegin 0, .insert 0 key rec, .transactionBegin 1,
    .insert 1 key rec, .transactionPreCommit 0, .transactionPreCommit 1] ++
    List.replicate 18 .write

/-- A query is overtaken between its two reads, fails the validation and
succeeds in its second attempt. -/
def overtakenQuery : List (Action (Fin 1) Nat Nat) :=
  commitBoth 7 10 ++ [.start 0 [7], .read 0] ++ commitBoth 7 20 ++
    List.replicate 20 (.read 0)

theorem validated_serial_overtakenQuery :
    ∃ (state : State (Fin 1) Nat Nat) (query : Query Nat Nat),
      run Bocc.step (Bocc.initial 1) overtakenQuery = some state ∧
      query ∈ state.published ∧ query.tpls 0 0 = some 20 ∧
      Serial state.history query := by
  have published : ((run Bocc.step (Bocc.initial 1) overtakenQuery).bind
      fun state => (state.published[0]?).bind fun query =>
        query.tpls 0 0) = some 20 := by
    decide
  obtain ⟨state, ran, read⟩ := Option.bind_eq_some_iff.mp published
  obtain ⟨query, first, value⟩ := Option.bind_eq_some_iff.mp read
  have member : query ∈ state.published := List.mem_of_getElem? first
  exact ⟨state, query, ran, member, value, (validated_serial (by decide)
    (by decide) (Execution.of_run ran)).1 query member⟩

/-! ## Queries take effect at once -/

/-- What the next step of a query publishes. -/
def Reader.answer (this : Reader K R) : Option (Query K R) :=
  match this.pc with
  | .publish => some this.query
  | _ => none

/-- The calls of `start`: a query is answered when it is published. -/
def queries : Calls (State ρ K R) (Action ρ K R) ρ (Query K R) (List (Writes K R)) where
  begins _ action :=
    match action with
    | .start reader _ => some reader
    | _ => none
  answers state action :=
    match action with
    | .read reader => (state.readers reader).answer.map fun query => (reader, query)
    | _ => none
  past state := state.history

/-- What a step of a query does to the published queries and to its serial point: it stays
or is the history of the moment. -/
structure Publishes (reader : ρ) (state next : State ρ K R) : Prop where
  published : next.published = state.published ++ (state.readers reader).answer.toList
  since : (next.readers reader).since = (state.readers reader).since ∨
    (next.readers reader).since = state.history

omit [DecidableEq K] in
theorem Publishes.of_silent {state next : State ρ K R} {reader : ρ}
    (silent : (state.readers reader).answer = none)
    (published : next.published = state.published) {value : Reader K R}
    (readers : next.readers = Function.update state.readers reader value)
    (since : value.since = (state.readers reader).since ∨ value.since = state.history) :
    Publishes reader state next := by
  constructor
  · rw [silent, published]
    exact (List.append_nil _).symm
  · rw [readers, Function.update_self]
    exact since

theorem read_publishes {state next : State ρ K R} {reader : ρ}
    (stepped : readStep state reader = some next) : Publishes reader state next := by
  unfold readStep at stepped
  cases pc : (state.readers reader).pc with
  | idle => simp [pc] at stepped
  | lookup cursor =>
      have silent : (state.readers reader).answer = none := by rw [Reader.answer, pc]
      simp only [pc, lookupStep, Option.some.injEq] at stepped
      subst next
      split
      · exact .of_silent silent rfl rfl (.inl rfl)
      · split <;> exact .of_silent silent rfl rfl (.inl rfl)
  | scan tblID valTS ok =>
      have silent : (state.readers reader).answer = none := by rw [Reader.answer, pc]
      simp only [pc] at stepped
      cases stepped
      exact .of_silent silent rfl rfl (.inl rfl)
  | publish =>
      simp only [pc] at stepped
      cases stepped
      refine ⟨by rw [Reader.answer, pc]; rfl, .inl ?_⟩
      simp [State.setReader]
  | newTx =>
      have silent : (state.readers reader).answer = none := by rw [Reader.answer, pc]
      simp only [pc] at stepped
      obtain ⟨_, _, same⟩ := Option.bind_eq_some_iff.mp stepped
      cases same
      exact .of_silent silent rfl rfl (.inr rfl)
  | _ =>
      have silent : (state.readers reader).answer = none := by rw [Reader.answer, pc]
      simp only [pc] at stepped
      obtain ⟨_, _, same⟩ := Option.bind_eq_some_iff.mp stepped
      cases same
      exact .of_silent silent rfl rfl (.inl rfl)

/-- The system with the histories at which the last calls began. -/
structure Called (began : ρ → List (Writes K R)) (state : State ρ K R) : Prop where
  serial : SerialInv state
  past : ∀ reader, began reader <:+ state.history
  since : ∀ reader, began reader <:+ (state.readers reader).since

/-- A query that began a call takes the history of the moment as its serial point. -/
theorem start_since {state next : State ρ K R} {reader : ρ} {keys : List K}
    (stepped : step state (.start reader keys) = some next) :
    (next.readers reader).since = state.history ∧ next.published = state.published := by
  cases pc : (state.readers reader).pc with
  | idle =>
      simp only [step, pc] at stepped
      obtain ⟨_, _, same⟩ := Option.bind_eq_some_iff.mp stepped
      cases same
      simp [State.setReader]
  | _ => simp [step, pc] at stepped

theorem Called.step {began : ρ → List (Writes K R)} {state next : State ρ K R}
    {action : Action ρ K R} (called : Called began state)
    (stepped : step state action = some next) :
    Called (queries.begun began state action) next ∧
      next.published =
        state.published ++ (queries.answers state action).toList.map Prod.snd := by
  have serial := called.serial.step stepped
  have frame := (step_inv called.serial.inv stepped).2
  have writerStep : WriterFrame state next → Called began next := by
    intro frame
    refine ⟨serial, ?_, ?_⟩
    · intro reader
      exact (called.past reader).trans frame.history
    · intro reader
      rw [frame.readers]
      exact called.since reader
  have silent : next.published = state.published →
      next.published = state.published ++ ([] : List (Query K R)) := by
    intro same
    rw [same, List.append_nil]
  cases action with
  | start other keys =>
      obtain ⟨since, published⟩ := start_since stepped
      refine ⟨⟨serial, ?_, ?_⟩, silent published⟩
      · intro reader
        rw [frame.history]
        simp only [Calls.begun, queries, Function.update_apply]
        split
        · exact List.suffix_refl _
        · exact called.past reader
      · intro reader
        simp only [Calls.begun, queries, Function.update_apply]
        by_cases here : reader = other
        · subst here
          rw [if_pos rfl, since]
        · rw [if_neg here, frame.readers reader here]
          exact called.since reader
  | read other =>
      have publishes := read_publishes stepped
      refine ⟨⟨serial, ?_, ?_⟩, ?_⟩
      · intro reader
        rw [frame.history]
        exact called.past reader
      · intro reader
        by_cases here : reader = other
        · subst here
          rcases publishes.since with same | now
          · rw [same]
            exact called.since reader
          · rw [now]
            exact called.past reader
        · rw [frame.readers reader here]
          exact called.since reader
      · rw [publishes.published]
        simp only [queries]
        cases (state.readers other).answer <;> rfl
  | newTx => exact ⟨writerStep frame, silent frame.published⟩
  | transactionBegin tblID => exact ⟨writerStep frame, silent frame.published⟩
  | insert tblID key rec => exact ⟨writerStep frame, silent frame.published⟩
  | transactionPreCommit tblID => exact ⟨writerStep frame, silent frame.published⟩
  | write => exact ⟨writerStep frame, silent frame.published⟩

omit [DecidableEq ρ] in
/-- An answered query has read the state at its serial point. -/
theorem Called.answers {began : ρ → List (Writes K R)} {state : State ρ K R}
    {action : Action ρ K R} (called : Called began state) {reader : ρ} {query : Query K R}
    (answered : queries.answers state action = some (reader, query)) :
    Linearized ⟨began reader, state.history, query⟩ := by
  cases action with
  | read other =>
      obtain ⟨_, answer, same⟩ := Option.map_eq_some_iff.mp answered
      cases same
      unfold Reader.answer at answer
      split at answer
      next pc =>
        cases answer
        have running : (state.readers reader).txn =
            some (state.readers reader).query.mTxnID := by
          simp [Reader.txn, pc]
        obtain ⟨suffix, phase⟩ := called.serial.readers reader _ running
        rw [pc] at phase
        refine ⟨_, called.since reader, suffix, ?_⟩
        intro i j key position
        exact phase i j key trivial position
      next => cases answer
  | _ => cases answered

end Readers

end PipeFabric.Bocc
