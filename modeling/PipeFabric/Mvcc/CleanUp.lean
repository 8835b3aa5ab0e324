import PipeFabric.Library.TransitionSystem
import PipeFabric.Table.MVCCTable
import PipeFabric.Table.SlotOwners

/-!
# Clean-ups and the versions readers see

The system of this module has any number of transactions, which read, update
keys and commit in any order; a commit is the updates it makes.  An update
holds the lock of its key while it waits for a version slot, and cleans up on
every pass of that loop.
-/

namespace PipeFabric.Mvcc.CleanUp

open TransitionSystem StateContext

variable {K R : Type}

/-- The arguments of an update that waits for a slot. -/
structure Update (R : Type) where
  txnID : Nat
  dPos : Fin 2
  value : R

structure State (K R : Type) where
  sCtx : StateContext
  tbls : TableID → CuckooTable K (MVCCTuple R)
  /-- The update that holds the lock of a key. -/
  updating : TableID → K → Option (Update R)

inductive Action (K R : Type) where
  | newTx
  | fetchReadCTS (txnID : Nat)
  | restart (txnID : Nat)
  | updateByKey (txnID : Nat) (tblID : TableID) (key : K) (rec : R)
  | pass (tblID : TableID) (key : K)
  | setLastCTS (txnID : Nat)
  | removeTx (txnID : Nat)

def initial (clock : Nat) : State K R :=
  { sCtx := .initial clock
    tbls := fun _ => .empty
    updating := fun _ _ => none }

section Step

variable [DecidableEq K]

def State.store (state : State K R) (tblID : TableID)
    (tbl : CuckooTable K (MVCCTuple R)) : State K R :=
  { state with tbls := Function.update state.tbls tblID tbl }

def State.lock (state : State K R) (tblID : TableID) (key : K)
    (update : Option (Update R)) : State K R :=
  { state with
    updating := Function.update state.updating tblID
      (Function.update (state.updating tblID) key update) }

/-- The first part of installing an entry: a missing key is inserted at once,
a stored one is locked. -/
def updateStep [Inhabited R] (state : State K R) (txnID : Nat)
    (tblID : TableID) (key : K) (rec : R) : Option (State K R) :=
  match state.updating tblID key with
  | some _ => none
  | none =>
    match (state.tbls tblID).getByKey key with
    | none =>
      some (state.store tblID
        ((state.tbls tblID).insert key (.first txnID rec)))
    | some mvcc => do
      let dPos ← mvcc.getCurrent txnID
      return state.lock tblID key (some { txnID := txnID, dPos := dPos, value := rec })

/-- One pass of the loop that waits for a slot. -/
def passStep (state : State K R) (tblID : TableID) (key : K) :
    Option (State K R) := do
  let update ← state.updating tblID key
  let mvcc ← (state.tbls tblID).getByKey key
  let (sCtx, updated, done) := MVCCTable.slotStep update.txnID update.dPos
    update.value state.sCtx mvcc
  let next := { state with sCtx := sCtx }.store tblID
    ((state.tbls tblID).update key updated)
  return if done then next.lock tblID key none else next

def step [Inhabited R] (state : State K R) : Action K R → Option (State K R)
  | .newTx => do
    let (_, sCtx) ← beginTx state.sCtx
    return { state with sCtx := sCtx }
  | .fetchReadCTS txnID => do
    let _ ← state.sCtx.activeTx txnID
    let (_, sCtx) ← MVCCTable.fetchReadCTS state.sCtx txnID
    return { state with sCtx := sCtx }
  | .restart txnID => do
    let _ ← state.sCtx.activeTx txnID
    let sCtx ← state.sCtx.setReadCTS txnID 0
    return { state with sCtx := sCtx }
  | .updateByKey txnID tblID key rec => do
    let _ ← state.sCtx.activeTx txnID
    updateStep state txnID tblID key rec
  | .pass tblID key => passStep state tblID key
  | .setLastCTS txnID => do
    let _ ← state.sCtx.activeTx txnID
    return { state with sCtx := state.sCtx.setLastCTS txnID }
  | .removeTx txnID => do
    let _ ← state.sCtx.activeTx txnID
    let sCtx ← state.sCtx.removeTx txnID
    return { state with sCtx := sCtx }

end Step

/-! ## Conditions on the steps -/

/-- The version array of a locked key has no free slot, so that the next pass
cleans up. -/
def Full (state : State K R) (tblID : TableID) (key : K) : Prop :=
  ((state.tbls tblID).getByKey key).bind MVCCObject.freeSlot = none

/-- The first clean-up of all, recognised by a zero in `oldestVisibleVersion`,
happens while no transaction reads behind the last commit. -/
def FirstCallSafe (state : State K R) : Action K R → Prop
  | .pass tblID key =>
    Full state tblID key → state.sCtx.oldestVisibleVersion = 0 →
      ∀ pos : Fin 64, state.sCtx.usedSlots.getLsbD pos = true →
        (state.sCtx.activeTxs pos).readCTS ≠ 0 →
        state.sCtx.lastCTS ≤ (state.sCtx.activeTxs pos).readCTS
  | _ => True

/-- The step opens no version at or below the timestamp, and does not end or
restart the transaction that reads at it. -/
def KeepsReader (reader readCTS : Nat) (state : State K R) :
    Action K R → Prop
  | .pass tblID key =>
    ¬ Full state tblID key →
      ∀ update ∈ state.updating tblID key, readCTS < update.txnID
  | .restart txnID => txnID ≠ reader
  | .removeTx txnID => txnID ≠ reader
  | _ => True

instance (state : State K R) (tblID : TableID) (key : K) :
    Decidable (Full state tblID key) :=
  inferInstanceAs (Decidable (_ = none))

instance (state : State K R) (action : Action K R) :
    Decidable (FirstCallSafe state action) :=
  match action with
  | .pass tblID key =>
    inferInstanceAs (Decidable (Full state tblID key →
      state.sCtx.oldestVisibleVersion = 0 →
      ∀ pos : Fin 64, state.sCtx.usedSlots.getLsbD pos = true →
        (state.sCtx.activeTxs pos).readCTS ≠ 0 →
        state.sCtx.lastCTS ≤ (state.sCtx.activeTxs pos).readCTS))
  | .newTx => isTrue trivial
  | .fetchReadCTS _ => isTrue trivial
  | .restart _ => isTrue trivial
  | .updateByKey _ _ _ _ => isTrue trivial
  | .setLastCTS _ => isTrue trivial
  | .removeTx _ => isTrue trivial

instance (reader readCTS : Nat) (state : State K R) (action : Action K R) :
    Decidable (KeepsReader reader readCTS state action) :=
  match action with
  | .pass tblID key =>
    inferInstanceAs (Decidable (¬ Full state tblID key →
      ∀ update ∈ state.updating tblID key, readCTS < update.txnID))
  | .restart txnID => inferInstanceAs (Decidable (txnID ≠ reader))
  | .removeTx txnID => inferInstanceAs (Decidable (txnID ≠ reader))
  | .newTx => isTrue trivial
  | .fetchReadCTS _ => isTrue trivial
  | .updateByKey _ _ _ _ => isTrue trivial
  | .setLastCTS _ => isTrue trivial

/-! ## Invariant -/

/-- Timestamps are below the id counter, and the version that a waiting update
is going to close is valid beyond the id of the update. -/
structure Inv (state : State K R) : Prop where
  wellFormed : state.sCtx.WellFormed
  counter : state.sCtx.nextTxID ≤ DTS_INF
  last : state.sCtx.lastCTS < state.sCtx.nextTxID
  snapshots : ∀ txnID entry, state.sCtx.activeTx txnID = some entry →
    entry.readCTS < state.sCtx.nextTxID
  closing : ∀ tblID key update, state.updating tblID key = some update →
    ∃ mvcc, (state.tbls tblID).getByKey key = some mvcc ∧
      (mvcc.isUsed update.dPos = true → update.txnID < mvcc.dts update.dPos)

theorem Inv.initial {clock : Nat} (positive : 0 < clock)
    (small : clock ≤ DTS_INF) : Inv (initial clock : State K R) where
  wellFormed := initial_wellFormed positive
  counter := small
  last := positive
  snapshots := by
    intro txnID entry active
    obtain ⟨pos, used, _⟩ :=
      (initial_wellFormed positive).activeTx_eq_some.mp active
    simp [StateContext.initial] at used
  closing := by
    intro tblID key update impossible
    cases impossible

/-- The context changes, the tables and the locks do not. -/
theorem Inv.setCtx {state : State K R} (inv : Inv state) {sCtx : StateContext}
    (wellFormed : sCtx.WellFormed) (counter : sCtx.nextTxID ≤ DTS_INF)
    (last : sCtx.lastCTS < sCtx.nextTxID)
    (snapshots : ∀ txnID entry, sCtx.activeTx txnID = some entry →
      entry.readCTS < sCtx.nextTxID) :
    Inv { state with sCtx := sCtx } where
  wellFormed := wellFormed
  counter := counter
  last := last
  snapshots := snapshots
  closing := inv.closing

/-- One entry of the context is replaced, with a timestamp that is in use. -/
theorem Inv.replace {state : State K R} (inv : Inv state) {sCtx : StateContext}
    {txnID : Nat} {changed : Option ActiveTx}
    (replaces : Replaces state.sCtx sCtx txnID changed)
    (counter : sCtx.nextTxID = state.sCtx.nextTxID)
    (bound : ∀ entry ∈ changed, entry.readCTS < state.sCtx.nextTxID) :
    Inv { state with sCtx := sCtx } := by
  refine inv.setCtx replaces.wellFormed (counter ▸ inv.counter) ?_ ?_
  · rw [counter, replaces.lastCTS]
    exact inv.last
  · intro other entry active
    rw [counter]
    rw [replaces.activeTx, Function.update_apply] at active
    split at active
    · exact bound entry active
    · exact inv.snapshots other entry active

/-! ## Effects of the steps -/

section Effects

theorem store_getByKey (state : State K R) (tblID i : TableID)
    (tbl : CuckooTable K (MVCCTuple R)) (key : K) :
    ((state.store tblID tbl).tbls i).getByKey key =
      if i = tblID then tbl.getByKey key else (state.tbls i).getByKey key := by
  by_cases here : i = tblID
  · subst i
    simp [State.store]
  · simp [State.store, here]

theorem lock_updating [DecidableEq K] (state : State K R) (tblID i : TableID) (key other : K)
    (update : Option (Update R)) :
    (state.lock tblID key update).updating i other =
      if i = tblID ∧ other = key then update
      else state.updating i other := by
  by_cases here : i = tblID
  · subst i
    by_cases same : other = key <;> simp [State.lock, same]
  · simp [State.lock, here]

/-- What a step does to the version array of a key, for a reader at the
timestamp: the slots it finds valid stay, with their versions. -/
structure ShowsSame (readCTS : Nat) (before after : MVCCTuple R) : Prop where
  valid : ∀ p, after.ValidAt readCTS p ↔ before.ValidAt readCTS p
  cts : ∀ p, before.ValidAt readCTS p → after.cts p = before.cts p
  values : ∀ p, before.ValidAt readCTS p → after.values p = before.values p

theorem ShowsSame.refl (readCTS : Nat) (mvcc : MVCCTuple R) :
    ShowsSame readCTS mvcc mvcc where
  valid := fun _ => Iff.rfl
  cts := fun _ _ => rfl
  values := fun _ _ => rfl

theorem ShowsSame.trans {readCTS : Nat} {first second third : MVCCTuple R}
    (left : ShowsSame readCTS first second)
    (right : ShowsSame readCTS second third) :
    ShowsSame readCTS first third where
  valid := fun p => (right.valid p).trans (left.valid p)
  cts := fun p valid =>
    (right.cts p ((left.valid p).mpr valid)).trans (left.cts p valid)
  values := fun p valid =>
    (right.values p ((left.valid p).mpr valid)).trans (left.values p valid)

/-- A clean-up up to the timestamp of the reader. -/
theorem ShowsSame.cleanUpVersions {readCTS oldest : Nat} {mvcc : MVCCTuple R}
    (later : oldest ≤ readCTS) :
    ShowsSame readCTS mvcc (mvcc.cleanUpVersions oldest) where
  valid := fun p => MVCCObject.validAt_cleanUpVersions later p
  cts := by
    intro p valid
    exact MVCCObject.cleanUpVersions_cts
      (Nat.lt_of_le_of_lt later valid.2.2)
  values := by
    intro p _
    rw [MVCCObject.cleanUpVersions_values]

/-- A new version above the timestamp of the reader. -/
theorem ShowsSame.newEntry {readCTS txnID : Nat} {iPos dPos : Fin 2} (rec : R)
    {mvcc : MVCCTuple R} (newer : readCTS < txnID)
    (free : mvcc.isUsed iPos = false)
    (closing : mvcc.isUsed dPos = true → txnID < mvcc.dts dPos) :
    ShowsSame readCTS mvcc (mvcc.newEntry txnID iPos dPos rec) := by
  have used : ∀ p, mvcc.isUsed p = true → p ≠ iPos := by
    rintro p isUsed rfl
    rw [free] at isUsed
    cases isUsed
  refine ⟨?_, ?_, ?_⟩
  · intro p
    unfold MVCCObject.ValidAt
    rw [MVCCObject.newEntry_isUsed (by omega), MVCCObject.newEntry_cts,
      MVCCObject.newEntry_dts]
    by_cases opened : p = iPos
    · subst p
      simp [free]
      omega
    · by_cases closed : p = dPos
      · subst p
        simp only [opened, decide_false, Bool.or_false, if_false, if_true]
        constructor
        · rintro ⟨isUsed, started, _⟩
          exact ⟨isUsed, started, Nat.lt_trans newer (closing isUsed)⟩
        · rintro ⟨isUsed, started, _⟩
          exact ⟨isUsed, started, newer⟩
      · simp [opened, closed]
  · intro p valid
    rw [MVCCObject.newEntry_cts, if_neg (used p valid.1)]
  · intro p valid
    rw [MVCCObject.newEntry_values, if_neg (used p valid.1)]

/-- The search finds the same slot, with the same version. -/
theorem ShowsSame.getCurrent {readCTS : Nat} {before after : MVCCTuple R}
    (same : ShowsSame readCTS before after) {p : Fin 2}
    (current : before.getCurrent readCTS = some p) :
    after.getCurrent readCTS = some p ∧ after.cts p = before.cts p ∧
      after.values p = before.values p := by
  have valid := MVCCObject.getCurrent_validAt current
  refine ⟨?_, same.cts p valid, same.values p valid⟩
  rw [MVCCObject.getCurrent_congr same.valid]
  exact current

end Effects

section Steps

variable [DecidableEq K]

/-- A pass installs the new version or cleans up. -/
theorem passStep_cases {state next : State K R} {tblID : TableID} {key : K}
    (stepped : passStep state tblID key = some next) :
    ∃ update mvcc, state.updating tblID key = some update ∧
      (state.tbls tblID).getByKey key = some mvcc ∧
      ((∃ iPos, mvcc.freeSlot = some iPos ∧
          next = (state.store tblID ((state.tbls tblID).update key
            (mvcc.newEntry update.txnID iPos update.dPos update.value))).lock
              tblID key none) ∨
        mvcc.freeSlot = none ∧
          next = { state with
            sCtx := (state.sCtx.recalcOldestVisible update.txnID).2 }.store tblID
              ((state.tbls tblID).update key (mvcc.cleanUpVersions
                (state.sCtx.recalcOldestVisible update.txnID).1))) := by
  unfold passStep at stepped
  obtain ⟨update, locked, continued⟩ := Option.bind_eq_some_iff.mp stepped
  obtain ⟨mvcc, found, slotted⟩ := Option.bind_eq_some_iff.mp continued
  refine ⟨update, mvcc, locked, found, ?_⟩
  cases free : mvcc.freeSlot with
  | some iPos =>
      simp only [MVCCTable.slotStep, free, if_true, Option.pure_def,
        Option.some.injEq] at slotted
      exact Or.inl ⟨iPos, rfl, slotted.symm⟩
  | none =>
      simp only [MVCCTable.slotStep, free, Bool.false_eq_true, if_false,
        Option.pure_def, Option.some.injEq] at slotted
      exact Or.inr ⟨rfl, slotted.symm⟩

/-- An update inserts a missing key or locks a stored one. -/
theorem updateStep_cases [Inhabited R] {state next : State K R} {txnID : Nat}
    {tblID : TableID} {key : K} {rec : R}
    (stepped : updateStep state txnID tblID key rec = some next) :
    state.updating tblID key = none ∧
      ((state.tbls tblID).getByKey key = none ∧
          next = state.store tblID
            ((state.tbls tblID).insert key (.first txnID rec)) ∨
        ∃ mvcc dPos, (state.tbls tblID).getByKey key = some mvcc ∧
          mvcc.getCurrent txnID = some dPos ∧
          next = state.lock tblID key
            (some { txnID := txnID, dPos := dPos, value := rec })) := by
  unfold updateStep at stepped
  cases locked : state.updating tblID key with
  | some update => simp [locked] at stepped
  | none =>
      refine ⟨rfl, ?_⟩
      cases found : (state.tbls tblID).getByKey key with
      | none =>
          simp only [locked, found, Option.some.injEq] at stepped
          exact Or.inl ⟨rfl, stepped.symm⟩
      | some mvcc =>
          simp only [locked, found] at stepped
          obtain ⟨dPos, current, ended⟩ := Option.bind_eq_some_iff.mp stepped
          exact Or.inr ⟨mvcc, dPos, rfl, current, (Option.some.inj ended).symm⟩

/-- The tables after a key has been stored. -/
private theorem getByKey_store {state : State K R} {tblID : TableID} {key : K}
    {tbl : CuckooTable K (MVCCTuple R)} {mvcc : MVCCTuple R}
    (effect : ∀ other, tbl.getByKey other =
      if other = key then some mvcc else (state.tbls tblID).getByKey other)
    (i : TableID) (other : K) :
    ((state.store tblID tbl).tbls i).getByKey other =
      if i = tblID ∧ other = key then some mvcc
      else (state.tbls i).getByKey other := by
  rw [store_getByKey]
  by_cases here : i = tblID
  · subst i
    simp [effect]
  · simp [here]

private theorem insert_effect {tbl : CuckooTable K (MVCCTuple R)} {key : K}
    {mvcc : MVCCTuple R} (absent : tbl.getByKey key = none) (other : K) :
    (tbl.insert key mvcc).getByKey other =
      if other = key then some mvcc else tbl.getByKey other := by
  rw [CuckooTable.getByKey_insert, absent]
  rfl

private theorem pass_inv {state next : State K R} {tblID : TableID} {key : K}
    (inv : Inv state) (stepped : passStep state tblID key = some next) :
    Inv next := by
  obtain ⟨update, mvcc, locked, found, cases⟩ := passStep_cases stepped
  obtain ⟨stored, storedFound, closing⟩ := inv.closing tblID key update locked
  rw [found, Option.some.injEq] at storedFound
  subst stored
  rcases cases with ⟨iPos, free, rfl⟩ | ⟨full, rfl⟩
  · refine ⟨inv.wellFormed, inv.counter, inv.last, inv.snapshots, ?_⟩
    intro i other waiting waits
    rw [lock_updating] at waits
    split at waits
    case isTrue => cases waits
    case isFalse elsewhere =>
      obtain ⟨object, objectFound, later⟩ := inv.closing i other waiting waits
      refine ⟨object, ?_, later⟩
      rw [State.lock, getByKey_store fun _ => CuckooTable.getByKey_update _ _ _ _,
        if_neg elsewhere]
      exact objectFound
  · refine ⟨inv.wellFormed.recalcOldestVisible _, ?_, ?_, ?_, ?_⟩
    · simpa [State.store] using inv.counter
    · simpa [State.store] using inv.last
    · simpa [State.store, recalcOldestVisible_activeTx] using inv.snapshots
    · intro i other waiting waits
      rw [getByKey_store fun _ => CuckooTable.getByKey_update _ _ _ _]
      by_cases here : i = tblID ∧ other = key
      · obtain ⟨rfl, rfl⟩ := here
        rw [State.store, locked] at waits
        cases waits
        refine ⟨_, if_pos ⟨rfl, rfl⟩, ?_⟩
        intro isUsed
        rw [MVCCObject.cleanUpVersions_isUsed] at isUsed
        rw [MVCCObject.cleanUpVersions_dts isUsed.2]
        exact closing isUsed.1
      · rw [if_neg here]
        exact inv.closing i other waiting waits

private theorem update_inv [Inhabited R] {state next : State K R} {txnID : Nat}
    {tblID : TableID} {key : K} {rec : R} (inv : Inv state)
    (stepped : updateStep state txnID tblID key rec = some next) :
    Inv next := by
  obtain ⟨unlocked, ⟨absent, rfl⟩ | ⟨mvcc, dPos, found, current, rfl⟩⟩ :=
    updateStep_cases stepped
  · refine ⟨inv.wellFormed, inv.counter, inv.last, inv.snapshots, ?_⟩
    intro i other waiting waits
    obtain ⟨object, objectFound, later⟩ := inv.closing i other waiting waits
    have elsewhere : ¬ (i = tblID ∧ other = key) := by
      rintro ⟨rfl, rfl⟩
      rw [absent] at objectFound
      cases objectFound
    refine ⟨object, ?_, later⟩
    rw [getByKey_store (insert_effect absent), if_neg elsewhere]
    exact objectFound
  · refine ⟨inv.wellFormed, inv.counter, inv.last, inv.snapshots, ?_⟩
    intro i other waiting waits
    rw [lock_updating] at waits
    split at waits
    case isTrue here =>
      obtain ⟨rfl, rfl⟩ := here
      cases waits
      exact ⟨mvcc, found, fun _ =>
        (MVCCObject.getCurrent_validAt current).2.2⟩
    case isFalse => exact inv.closing i other waiting waits

/-! ## Runs -/

variable [Inhabited R]

/-- The reader holds the timestamp. -/
def ReadsAt (state : State K R) (reader readCTS : Nat) : Prop :=
  ∃ entry, state.sCtx.activeTx reader = some entry ∧
    entry.readCTS = readCTS ∧ readCTS ≠ 0

omit [DecidableEq K] [Inhabited R] in
theorem ReadsAt.replace {state : State K R} {sCtx : StateContext}
    {reader readCTS txnID : Nat} {changed : Option ActiveTx}
    (reads : ReadsAt state reader readCTS)
    (replaces : Replaces state.sCtx sCtx txnID changed)
    (other : txnID ≠ reader) :
    ReadsAt { state with sCtx := sCtx } reader readCTS := by
  obtain ⟨entry, active, facts⟩ := reads
  refine ⟨entry, ?_, facts⟩
  rw [replaces.activeTx, Function.update_of_ne other.symm]
  exact active

/-- The transaction whose read timestamp an action resets. -/
def Action.ended : Action K R → Option Nat
  | .restart txnID => some txnID
  | .removeTx txnID => some txnID
  | _ => none

theorem step_inv {state next : State K R} {action : Action K R}
    (inv : Inv state) (stepped : step state action = some next) :
    Inv next ∧ ∀ reader readCTS, action.ended ≠ some reader →
      ReadsAt state reader readCTS → ReadsAt next reader readCTS := by
  cases action with
  | newTx =>
      obtain ⟨⟨txnID, sCtx⟩, begun, ended⟩ := Option.bind_eq_some_iff.mp stepped
      cases ended
      unfold beginTx at begun
      split at begun
      case isFalse => cases begun
      case isTrue room =>
        obtain ⟨new, counter, replaces⟩ := inv.wellFormed.newTx begun
        have grows := inv.last
        refine ⟨inv.setCtx replaces.wellFormed (by omega) ?_ ?_, ?_⟩
        · rw [counter, replaces.lastCTS]
          omega
        · intro other entry active
          rw [replaces.activeTx, Function.update_apply] at active
          split at active
          · cases active
            exact Nat.lt_of_le_of_lt (Nat.zero_le _)
              (replaces.wellFormed.nextTxID_pos)
          · have old := inv.snapshots other entry active
            omega
        · intro reader readCTS _ reads
          refine reads.replace replaces ?_
          obtain ⟨entry, active, _⟩ := reads
          have old := (inv.wellFormed.activeTx_txnID active).2.2
          omega
  | fetchReadCTS txnID =>
      obtain ⟨entry, active, continued⟩ := Option.bind_eq_some_iff.mp stepped
      obtain ⟨⟨readCTS, sCtx⟩, fetched, ended⟩ :=
        Option.bind_eq_some_iff.mp continued
      cases ended
      obtain ⟨fixed, replaces, counter⟩ :=
        MVCCTable.fetchReadCTS_replaces inv.wellFormed active fetched
      refine ⟨inv.replace replaces counter ?_, ?_⟩
      · rintro changed ⟨⟩
        dsimp only
        rw [fixed]
        split
        · exact inv.last
        · exact inv.snapshots txnID entry active
      · rintro reader held _ ⟨found, readerActive, rfl, nonzero⟩
        by_cases same : txnID = reader
        · subst txnID
          rw [active] at readerActive
          cases readerActive
          rw [if_neg nonzero] at fixed
          refine ⟨{ entry with readCTS := readCTS }, ?_, fixed,
            nonzero⟩
          rw [replaces.activeTx, Function.update_self]
        · exact ReadsAt.replace
            ⟨found, readerActive, rfl, nonzero⟩ replaces same
  | restart txnID =>
      obtain ⟨entry, active, continued⟩ := Option.bind_eq_some_iff.mp stepped
      obtain ⟨sCtx, set, ended⟩ := Option.bind_eq_some_iff.mp continued
      cases ended
      obtain ⟨replaces, counter⟩ := inv.wellFormed.setReadCTS active set
      refine ⟨inv.replace replaces counter ?_, ?_⟩
      · rintro changed ⟨⟩
        exact inv.wellFormed.nextTxID_pos
      · intro reader readCTS other reads
        exact reads.replace replaces fun same =>
          other (congrArg some same)
  | updateByKey txnID tblID key rec =>
      obtain ⟨entry, active, updated⟩ := Option.bind_eq_some_iff.mp stepped
      refine ⟨update_inv inv updated, ?_⟩
      intro reader readCTS _ reads
      obtain ⟨_, ⟨_, rfl⟩ | ⟨_, _, _, _, rfl⟩⟩ := updateStep_cases updated
      · exact reads
      · exact reads
  | pass tblID key =>
      refine ⟨pass_inv inv stepped, ?_⟩
      intro reader readCTS _ reads
      obtain ⟨_, _, _, _, ⟨_, _, rfl⟩ | ⟨_, rfl⟩⟩ := passStep_cases stepped
      · exact reads
      · obtain ⟨entry, active, facts⟩ := reads
        refine ⟨entry, ?_, facts⟩
        rw [← active]
        exact congrFun (recalcOldestVisible_activeTx _ _) reader
  | setLastCTS txnID =>
      obtain ⟨entry, active, ended⟩ := Option.bind_eq_some_iff.mp stepped
      cases ended
      refine ⟨inv.setCtx (inv.wellFormed.congr rfl rfl (le_refl _))
        inv.counter (inv.wellFormed.activeTx_txnID active).2.2
        inv.snapshots, ?_⟩
      intro reader readCTS _ reads
      exact reads
  | removeTx txnID =>
      obtain ⟨entry, active, continued⟩ := Option.bind_eq_some_iff.mp stepped
      obtain ⟨sCtx, removed, ended⟩ := Option.bind_eq_some_iff.mp continued
      cases ended
      obtain ⟨replaces, counter⟩ :=
        inv.wellFormed.removeTx active removed
      refine ⟨inv.replace replaces counter ?_, ?_⟩
      · rintro changed ⟨⟩
      · intro reader readCTS other reads
        exact reads.replace replaces fun same =>
          other (congrArg some same)

theorem Inv.of_execution {allowed : State K R → Action K R → Prop} {clock : Nat}
    {state : State K R} (positive : 0 < clock) (small : clock ≤ DTS_INF)
    (execution : Execution step allowed (CleanUp.initial clock) state) :
    Inv state :=
  execution.invariant (.initial positive small)
    fun _ _ _ inv _ stepped => (step_inv inv stepped).1

omit [DecidableEq K] [Inhabited R] in
/-- The bound of a clean-up is not above the timestamp of any reader. -/
theorem recalcOldestVisible_le_reader {state : State K R} (inv : Inv state)
    {reader readCTS : Nat} (reads : ReadsAt state reader readCTS)
    {tblID : TableID} {key : K} (full : Full state tblID key)
    (safe : FirstCallSafe state (.pass tblID key)) (txnID : Nat) :
    (state.sCtx.recalcOldestVisible txnID).1 ≤ readCTS := by
  obtain ⟨entry, active, rfl, fixed⟩ := reads
  by_cases first : state.sCtx.oldestVisibleVersion = 0
  · obtain ⟨pos, used, slot, _⟩ := inv.wellFormed.activeTx_eq_some.mp active
    have behind := safe full first pos used (by rw [slot]; exact fixed)
    rw [slot] at behind
    simpa [recalcOldestVisible, first] using behind
  · have old := inv.snapshots reader entry active
    have counter := inv.counter
    exact inv.wellFormed.recalcOldestVisible_le_readCTS first active fixed
      (by omega) txnID

omit [DecidableEq K] [Inhabited R] in
theorem KeepsReader.ended_ne {reader readCTS : Nat} {state : State K R}
    {action : Action K R} (keeps : KeepsReader reader readCTS state action) :
    action.ended ≠ some reader := by
  cases action with
  | restart txnID => exact fun same => keeps (Option.some.inj same)
  | removeTx txnID => exact fun same => keeps (Option.some.inj same)
  | newTx => exact Option.some_ne_none reader |>.symm
  | fetchReadCTS txnID => exact Option.some_ne_none reader |>.symm
  | updateByKey txnID tblID key rec => exact Option.some_ne_none reader |>.symm
  | pass tblID key => exact Option.some_ne_none reader |>.symm
  | setLastCTS txnID => exact Option.some_ne_none reader |>.symm

/-- A step shows a reader the versions it was shown before. -/
theorem step_showsSame {state next : State K R} {action : Action K R}
    {reader readCTS : Nat} (inv : Inv state)
    (reads : ReadsAt state reader readCTS)
    (safe : FirstCallSafe state action)
    (keeps : KeepsReader reader readCTS state action)
    (stepped : step state action = some next) {i : TableID} {key : K}
    {mvcc : MVCCTuple R} (found : (state.tbls i).getByKey key = some mvcc) :
    ∃ shown, (next.tbls i).getByKey key = some shown ∧
      ShowsSame readCTS mvcc shown := by
  have unchanged : next.tbls = state.tbls →
      ∃ shown, (next.tbls i).getByKey key = some shown ∧
        ShowsSame readCTS mvcc shown := by
    intro same
    rw [same]
    exact ⟨mvcc, found, .refl readCTS mvcc⟩
  cases action with
  | updateByKey txnID tblID other rec =>
      obtain ⟨entry, active, updated⟩ := Option.bind_eq_some_iff.mp stepped
      obtain ⟨_, ⟨absent, rfl⟩ | ⟨_, _, _, _, rfl⟩⟩ := updateStep_cases updated
      · have elsewhere : ¬ (i = tblID ∧ key = other) := by
          rintro ⟨rfl, rfl⟩
          rw [absent] at found
          cases found
        refine ⟨mvcc, ?_, .refl readCTS mvcc⟩
        rw [getByKey_store (insert_effect absent), if_neg elsewhere]
        exact found
      · exact unchanged rfl
  | pass tblID other =>
      obtain ⟨update, object, locked, stored, cases⟩ := passStep_cases stepped
      by_cases here : i = tblID ∧ key = other
      · obtain ⟨rfl, rfl⟩ := here
        rw [found, Option.some.injEq] at stored
        subst object
        rcases cases with ⟨iPos, free, rfl⟩ | ⟨full, rfl⟩
        · obtain ⟨again, againFound, closing⟩ := inv.closing i key update locked
          rw [found, Option.some.injEq] at againFound
          subst again
          have newer := keeps (by simp [Full, found, free]) update locked
          refine ⟨_, ?_, .newEntry update.value newer
            (MVCCObject.freeSlot_unused (by omega) free) closing⟩
          rw [State.lock,
            getByKey_store fun _ => CuckooTable.getByKey_update _ _ _ _,
            if_pos ⟨rfl, rfl⟩]
        · have bound := recalcOldestVisible_le_reader inv reads
            (by simp [Full, found, full]) safe update.txnID
          refine ⟨_, ?_, .cleanUpVersions bound⟩
          rw [getByKey_store fun _ => CuckooTable.getByKey_update _ _ _ _,
            if_pos ⟨rfl, rfl⟩]
      · refine ⟨mvcc, ?_, .refl readCTS mvcc⟩
        rcases cases with ⟨iPos, free, rfl⟩ | ⟨full, rfl⟩
        · rw [State.lock,
            getByKey_store fun _ => CuckooTable.getByKey_update _ _ _ _,
            if_neg here]
          exact found
        · rw [getByKey_store fun _ => CuckooTable.getByKey_update _ _ _ _,
            if_neg here]
          exact found
  | newTx =>
      obtain ⟨_, _, ended⟩ := Option.bind_eq_some_iff.mp stepped
      cases ended
      exact unchanged rfl
  | fetchReadCTS txnID =>
      simp only [step, Option.bind_eq_bind, Option.bind_eq_some_iff,
        Option.pure_def, Option.some.injEq] at stepped
      obtain ⟨_, _, _, _, rfl⟩ := stepped
      exact unchanged rfl
  | restart txnID =>
      simp only [step, Option.bind_eq_bind, Option.bind_eq_some_iff,
        Option.pure_def, Option.some.injEq] at stepped
      obtain ⟨_, _, _, _, rfl⟩ := stepped
      exact unchanged rfl
  | setLastCTS txnID =>
      simp only [step, Option.bind_eq_bind, Option.bind_eq_some_iff,
        Option.pure_def, Option.some.injEq] at stepped
      obtain ⟨_, _, rfl⟩ := stepped
      exact unchanged rfl
  | removeTx txnID =>
      simp only [step, Option.bind_eq_bind, Option.bind_eq_some_iff,
        Option.pure_def, Option.some.injEq] at stepped
      obtain ⟨_, _, _, _, rfl⟩ := stepped
      exact unchanged rfl

/-- A run shows a reader the versions it was shown before. -/
theorem run_showsSame {start state : State K R} {reader readCTS : Nat}
    (inv : Inv start) (reads : ReadsAt start reader readCTS)
    (execution : Execution step (fun state action =>
      FirstCallSafe state action ∧ KeepsReader reader readCTS state action)
      start state) {i : TableID} {key : K} {mvcc : MVCCTuple R}
    (found : (start.tbls i).getByKey key = some mvcc) :
    ∃ shown, (state.tbls i).getByKey key = some shown ∧
      ShowsSame readCTS mvcc shown := by
  have kept : Inv state ∧ ReadsAt state reader readCTS ∧
      ∃ shown, (state.tbls i).getByKey key = some shown ∧
        ShowsSame readCTS mvcc shown := by
    induction execution with
    | refl => exact ⟨inv, reads, mvcc, found, .refl _ _⟩
    | tail _ permitted stepped induction =>
        obtain ⟨middleInv, middleReads, shown, shownFound, same⟩ := induction
        obtain ⟨nextInv, keepsReads⟩ := step_inv middleInv stepped
        obtain ⟨after, afterFound, step⟩ := step_showsSame middleInv
          middleReads permitted.1 permitted.2 stepped shownFound
        exact ⟨nextInv,
          keepsReads reader readCTS permitted.2.ended_ne middleReads, after,
          afterFound, same.trans step⟩
  exact kept.2.2

/-- No slot the pass is going to clear holds a version some reader sees. -/
def ClearsNothingVisible (state : State K R) (tblID : TableID) (key : K) :
    Prop :=
  ∀ update mvcc, state.updating tblID key = some update →
    (state.tbls tblID).getByKey key = some mvcc → mvcc.freeSlot = none →
    ∀ reader readCTS, ReadsAt state reader readCTS →
    ∀ p, mvcc.dts p ≤ (state.sCtx.recalcOldestVisible update.txnID).1 →
      ¬ (mvcc.cts p ≤ readCTS ∧ readCTS < mvcc.dts p)

/-- Three commits of a key, the last after a clean-up, and then a reader that
fixes its timestamp at the third commit. -/
def threeCommitsThenReader : List (Action Nat Nat) :=
  [.newTx, .updateByKey 1 0 7 10, .setLastCTS 1, .removeTx 1,
    .newTx, .updateByKey 2 0 7 20, .pass 0 7, .setLastCTS 2, .removeTx 2,
    .newTx, .updateByKey 3 0 7 30, .pass 0 7, .pass 0 7, .setLastCTS 3,
    .removeTx 3, .newTx, .fetchReadCTS 4]

/-- Two more updates while the reader is active; the second one waits. -/
def twoMoreUpdates : List (Action Nat Nat) :=
  [.newTx, .updateByKey 5 0 7 40, .pass 0 7, .pass 0 7, .setLastCTS 5,
    .removeTx 5, .newTx, .updateByKey 6 0 7 50, .pass 0 7]

/-- A reader fixes its timestamp at the first commit of a key; the third update
runs the first clean-up, which does not look at readers. -/
def firstCleanUpUnderReader : List (Action Nat Nat) :=
  [.newTx, .updateByKey 1 0 7 10, .setLastCTS 1, .removeTx 1,
    .newTx, .fetchReadCTS 2,
    .newTx, .updateByKey 3 0 7 20, .pass 0 7, .setLastCTS 3, .removeTx 3,
    .newTx, .updateByKey 4 0 7 30]

end Steps

end PipeFabric.Mvcc.CleanUp
