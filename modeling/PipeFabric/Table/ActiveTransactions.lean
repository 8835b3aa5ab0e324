import PipeFabric.Library.ScanMinimum
import PipeFabric.Table.StateContext

/-!
# The context as a map of active transactions

`activeTxs` is an array with stale entries next to a mask of used slots.  For
clients the context is a finite map from the ids of active transactions to
their entries: `activeTx`.  On well-formed contexts every operation acts on
that map, which is all later modules use.
-/

namespace PipeFabric.StateContext

/-- The entry of an active transaction. -/
def activeTx (ctx : StateContext) (txnID : Nat) : Option ActiveTx :=
  (ctx.getPosFromTxnID txnID).bind fun (pos : Fin 64) =>
    if ctx.usedSlots.getLsbD pos then some (ctx.activeTxs pos) else none

theorem activeTx_of_free {ctx : StateContext} (free : ctx.usedSlots = 0#64)
    (txnID : Nat) : ctx.activeTx txnID = none := by
  unfold activeTx
  rw [Option.bind_eq_none_iff]
  intro pos _
  rw [free]
  simp

/-- Ids are not reused, neither by live nor by stale slots, and id zero is
never handed out. -/
structure WellFormed (ctx : StateContext) : Prop where
  unique : ∀ pos other,
    (ctx.activeTxs pos).txnID = (ctx.activeTxs other).txnID →
    (ctx.activeTxs pos).txnID ≠ 0 → pos = other
  old : ∀ pos, (ctx.activeTxs pos).txnID < ctx.nextTxID
  used : ∀ pos : Fin 64, ctx.usedSlots.getLsbD pos = true →
    (ctx.activeTxs pos).txnID ≠ 0

theorem WellFormed.nextTxID_pos {ctx : StateContext}
    (wellFormed : ctx.WellFormed) : 0 < ctx.nextTxID :=
  Nat.lt_of_le_of_lt (Nat.zero_le _) (wellFormed.old 0)

theorem initial_wellFormed {clock : Nat} (positive : 0 < clock) :
    (initial clock).WellFormed where
  unique := by
    intro pos other _ nonzero
    exact absurd rfl nonzero
  old := fun _ => positive
  used := by
    intro pos set
    simp [initial] at set

theorem getPosFromTxnID_some {ctx : StateContext} {txnID : Nat}
    {pos : Fin 64} (found : ctx.getPosFromTxnID txnID = some pos) :
    (ctx.activeTxs pos).txnID = txnID := by
  have holds := List.find?_some found
  simpa using holds

theorem WellFormed.getPosFromTxnID {ctx : StateContext}
    (wellFormed : ctx.WellFormed) {pos : Fin 64}
    (nonzero : (ctx.activeTxs pos).txnID ≠ 0) :
    ctx.getPosFromTxnID (ctx.activeTxs pos).txnID = some pos := by
  cases found : ctx.getPosFromTxnID (ctx.activeTxs pos).txnID with
  | none =>
      have absent := List.find?_eq_none.mp found pos (List.mem_finRange pos)
      simp at absent
  | some other =>
      have same := getPosFromTxnID_some found
      exact congrArg some (wellFormed.unique pos other same.symm nonzero).symm

/-- An id is active exactly when a used slot carries it. -/
theorem WellFormed.activeTx_eq_some {ctx : StateContext}
    (wellFormed : ctx.WellFormed) {txnID : Nat} {entry : ActiveTx} :
    ctx.activeTx txnID = some entry ↔
      ∃ pos : Fin 64, ctx.usedSlots.getLsbD pos = true ∧
        ctx.activeTxs pos = entry ∧ entry.txnID = txnID := by
  constructor
  · intro active
    simp only [activeTx, Option.bind_eq_some_iff] at active
    obtain ⟨pos, found, slot⟩ := active
    split at slot
    case isTrue set =>
      cases slot
      exact ⟨pos, set, rfl, getPosFromTxnID_some found⟩
    case isFalse => cases slot
  · rintro ⟨pos, set, rfl, rfl⟩
    simp [activeTx, wellFormed.getPosFromTxnID (wellFormed.used pos set), set]

theorem WellFormed.activeTx_txnID {ctx : StateContext}
    (wellFormed : ctx.WellFormed) {txnID : Nat} {entry : ActiveTx}
    (active : ctx.activeTx txnID = some entry) :
    entry.txnID = txnID ∧ txnID ≠ 0 ∧ txnID < ctx.nextTxID := by
  obtain ⟨pos, set, rfl, rfl⟩ := wellFormed.activeTx_eq_some.mp active
  exact ⟨rfl, wellFormed.used pos set, wellFormed.old pos⟩

theorem WellFormed.activeTx_fresh {ctx : StateContext}
    (wellFormed : ctx.WellFormed) {txnID : Nat}
    (fresh : ctx.nextTxID ≤ txnID) : ctx.activeTx txnID = none := by
  cases active : ctx.activeTx txnID with
  | none => rfl
  | some entry =>
      have older := (wellFormed.activeTx_txnID active).2.2
      omega

/-- The position of an active transaction is a used slot with its entry. -/
theorem getPosFromTxnID_of_active {ctx : StateContext} {txnID : Nat}
    {entry : ActiveTx} (active : ctx.activeTx txnID = some entry) :
    ∃ pos : Fin 64, ctx.getPosFromTxnID txnID = some pos ∧
      ctx.usedSlots.getLsbD pos = true ∧ ctx.activeTxs pos = entry := by
  simp only [activeTx, Option.bind_eq_some_iff] at active
  obtain ⟨pos, found, slot⟩ := active
  split at slot
  case isTrue set =>
    cases slot
    exact ⟨pos, found, set, rfl⟩
  case isFalse => cases slot

theorem getReadCTS_of_active {ctx : StateContext} {txnID : Nat}
    {entry : ActiveTx} (active : ctx.activeTx txnID = some entry) :
    ctx.getReadCTS txnID = some entry.readCTS := by
  obtain ⟨pos, found, _, rfl⟩ := getPosFromTxnID_of_active active
  simp [getReadCTS, found]

theorem getWriteStatus_of_active {ctx : StateContext} {txnID : Nat}
    {entry : ActiveTx} (active : ctx.activeTx txnID = some entry)
    (tblID : TableID) :
    ctx.getWriteStatus txnID tblID = some (entry.writeInfo tblID) := by
  obtain ⟨pos, found, _, rfl⟩ := getPosFromTxnID_of_active active
  simp [getWriteStatus, found]

/-- Everything but the map of active transactions and the id counter. -/
structure SameVersions (ctx next : StateContext) : Prop where
  lastCTS : next.lastCTS = ctx.lastCTS
  oldestVisibleVersion : next.oldestVisibleVersion = ctx.oldestVisibleVersion

/-- `next` is a well-formed context whose active transactions are those of
`ctx`, with the entry of `txnID` replaced. -/
structure Replaces (ctx next : StateContext) (txnID : Nat)
    (entry : Option ActiveTx) : Prop extends SameVersions ctx next where
  wellFormed : next.WellFormed
  activeTx : next.activeTx = Function.update ctx.activeTx txnID entry

/-- Replacing the entry twice. -/
theorem Replaces.trans {ctx middle next : StateContext} {txnID : Nat}
    {entry later : Option ActiveTx} (first : Replaces ctx middle txnID entry)
    (second : Replaces middle next txnID later) :
    Replaces ctx next txnID later where
  lastCTS := second.lastCTS.trans first.lastCTS
  oldestVisibleVersion :=
    second.oldestVisibleVersion.trans first.oldestVisibleVersion
  wellFormed := second.wellFormed
  activeTx := by
    rw [second.activeTx, first.activeTx, Function.update_idem]

/-- Overwriting the entry in one slot, keeping its id. -/
theorem WellFormed.replace_slot {ctx : StateContext}
    (wellFormed : ctx.WellFormed) {pos : Fin 64} (entry : ActiveTx)
    (set : ctx.usedSlots.getLsbD pos = true)
    (same : entry.txnID = (ctx.activeTxs pos).txnID) :
    Replaces ctx
      { ctx with activeTxs := Function.update ctx.activeTxs pos entry }
      (ctx.activeTxs pos).txnID (some entry) := by
  have ids : ∀ other,
      (Function.update ctx.activeTxs pos entry other).txnID =
        (ctx.activeTxs other).txnID := by
    intro other
    by_cases here : other = pos
    · subst other
      simpa using same
    · simp [here]
  have kept : WellFormed
      { ctx with activeTxs := Function.update ctx.activeTxs pos entry } := by
    constructor
    · intro first second equal nonzero
      simp only [ids] at equal nonzero
      exact wellFormed.unique first second equal nonzero
    · intro other
      simp only [ids]
      exact wellFormed.old other
    · intro other used
      simp only [ids]
      exact wellFormed.used other used
  refine
    { lastCTS := rfl
      oldestVisibleVersion := rfl
      wellFormed := kept
      activeTx := ?_ }
  funext txnID
  apply Option.ext
  intro found
  rw [kept.activeTx_eq_some]
  by_cases here : txnID = (ctx.activeTxs pos).txnID
  · subst txnID
    rw [Function.update_self]
    constructor
    · rintro ⟨other, used, rfl, equal⟩
      simp only [ids] at equal
      have position := wellFormed.unique other pos equal
        (by rw [equal]; exact wellFormed.used pos set)
      subst other
      simp
    · rintro ⟨⟩
      exact ⟨pos, set, by simp, same⟩
  · rw [Function.update_of_ne here, wellFormed.activeTx_eq_some]
    constructor
    · rintro ⟨other, used, rfl, equal⟩
      have elsewhere : other ≠ pos := by
        rintro rfl
        apply here
        rw [← equal]
        simpa using same
      exact ⟨other, used, by simp [elsewhere], equal⟩
    · rintro ⟨other, used, rfl, equal⟩
      have elsewhere : other ≠ pos := by
        rintro rfl
        exact here equal.symm
      exact ⟨other, used, by simp [elsewhere], equal⟩

theorem WellFormed.setReadCTS {ctx next : StateContext}
    (wellFormed : ctx.WellFormed) {txnID read : Nat}
    {entry : ActiveTx} (active : ctx.activeTx txnID = some entry)
    (set : ctx.setReadCTS txnID read = some next) :
    Replaces ctx next txnID (some { entry with readCTS := read }) ∧
      next.nextTxID = ctx.nextTxID := by
  obtain ⟨pos, found, used, rfl⟩ := getPosFromTxnID_of_active active
  simp only [StateContext.setReadCTS, found, Option.map_some,
    Option.some.injEq] at set
  subst next
  have replaced := wellFormed.replace_slot
    { ctx.activeTxs pos with readCTS := read } used rfl
  rw [getPosFromTxnID_some found] at replaced
  exact ⟨replaced, rfl⟩

theorem setReadCTS_isSome {ctx : StateContext} {txnID : Nat}
    {entry : ActiveTx} (active : ctx.activeTx txnID = some entry)
    (read : Nat) : ∃ next, ctx.setReadCTS txnID read = some next := by
  obtain ⟨pos, found, _, _⟩ := getPosFromTxnID_of_active active
  simp [StateContext.setReadCTS, found]

theorem WellFormed.setWriteStatus {ctx next : StateContext}
    (wellFormed : ctx.WellFormed) {txnID : Nat} {tblID : TableID}
    {status : Status} {entry : ActiveTx}
    (active : ctx.activeTx txnID = some entry)
    (set : ctx.setWriteStatus txnID tblID status = some next) :
    Replaces ctx next txnID (some { entry with
      writeInfo := Function.update entry.writeInfo tblID status }) ∧
      next.nextTxID = ctx.nextTxID := by
  obtain ⟨pos, found, used, rfl⟩ := getPosFromTxnID_of_active active
  simp only [StateContext.setWriteStatus, found, Option.map_some,
    Option.some.injEq] at set
  subst next
  have replaced := wellFormed.replace_slot
    { ctx.activeTxs pos with
      writeInfo := Function.update (ctx.activeTxs pos).writeInfo tblID status }
    used rfl
  rw [getPosFromTxnID_some found] at replaced
  exact ⟨replaced, rfl⟩

theorem setWriteStatus_isSome {ctx : StateContext} {txnID : Nat}
    {entry : ActiveTx} (active : ctx.activeTx txnID = some entry)
    (tblID : TableID) (status : Status) :
    ∃ next, ctx.setWriteStatus txnID tblID status = some next := by
  obtain ⟨pos, found, _, _⟩ := getPosFromTxnID_of_active active
  simp [StateContext.setWriteStatus, found]

/-- The entry of a transaction that has just begun. -/
def freshTx (txnID : Nat) : ActiveTx :=
  { txnID := txnID, writeInfo := fun _ => .Active, readCTS := 0 }

/-- Writing the entry of a new transaction into an unused slot. -/
theorem WellFormed.claim_slot {ctx : StateContext}
    (wellFormed : ctx.WellFormed) (pos : Fin 64) {usedSlots : BitVec 64}
    (unset : ctx.usedSlots.getLsbD pos = false)
    (usedIff : ∀ other : Fin 64, usedSlots.getLsbD other = true ↔
      ctx.usedSlots.getLsbD other = true ∨ other = pos) :
    Replaces ctx
      { ctx with
        nextTxID := ctx.nextTxID + 1
        usedSlots := usedSlots
        activeTxs := Function.update ctx.activeTxs pos (freshTx ctx.nextTxID) }
      ctx.nextTxID (some (freshTx ctx.nextTxID)) := by
  have positive := wellFormed.nextTxID_pos
  have kept : WellFormed
      { ctx with
        nextTxID := ctx.nextTxID + 1
        usedSlots := usedSlots
        activeTxs := Function.update ctx.activeTxs pos
          (freshTx ctx.nextTxID) } := by
    constructor
    · intro first second equal nonzero
      have firstOld := wellFormed.old first
      have secondOld := wellFormed.old second
      by_cases firstHere : first = pos <;> by_cases secondHere : second = pos
      · rw [firstHere, secondHere]
      · simp [firstHere, secondHere, freshTx] at equal
        omega
      · simp [firstHere, secondHere, freshTx] at equal
        omega
      · simp only [Function.update_of_ne firstHere,
          Function.update_of_ne secondHere] at equal nonzero
        exact wellFormed.unique first second equal nonzero
    · intro other
      have older := wellFormed.old other
      by_cases here : other = pos
      · simp [here, freshTx]
      · simp only [Function.update_of_ne here]
        omega
    · intro other used
      by_cases here : other = pos
      · simp [here, freshTx]
        omega
      · simp only [Function.update_of_ne here]
        rcases (usedIff other).mp used with before | same
        · exact wellFormed.used other before
        · exact absurd same here
  refine
    { lastCTS := rfl
      oldestVisibleVersion := rfl
      wellFormed := kept
      activeTx := ?_ }
  funext txnID
  apply Option.ext
  intro found
  rw [kept.activeTx_eq_some]
  by_cases here : txnID = ctx.nextTxID
  · subst txnID
    rw [Function.update_self]
    constructor
    · rintro ⟨other, used, rfl, equal⟩
      have older := wellFormed.old other
      by_cases same : other = pos
      · subst other
        simp
      · simp only [Function.update_of_ne same] at equal
        omega
    · rintro ⟨⟩
      exact ⟨pos, (usedIff pos).mpr (Or.inr rfl), by simp, rfl⟩
  · rw [Function.update_of_ne here, wellFormed.activeTx_eq_some]
    constructor
    · rintro ⟨other, used, rfl, equal⟩
      by_cases same : other = pos
      · subst other
        simp only [Function.update_self, freshTx] at equal
        exact absurd equal.symm here
      · rcases (usedIff other).mp used with before | new
        · exact ⟨other, before, by simp [same], equal⟩
        · exact absurd new same
    · rintro ⟨other, used, rfl, equal⟩
      have same : other ≠ pos := by
        rintro rfl
        rw [unset] at used
        cases used
      exact ⟨other, (usedIff other).mpr (Or.inl used), by simp [same], equal⟩

theorem WellFormed.newTx {ctx next : StateContext} {txnID : Nat}
    (wellFormed : ctx.WellFormed) (begun : ctx.newTx = some (txnID, next)) :
    txnID = ctx.nextTxID ∧ next.nextTxID = ctx.nextTxID + 1 ∧
      Replaces ctx next txnID (some (freshTx txnID)) := by
  obtain ⟨rfl, inside, rfl⟩ := newTx_eq_some begun
  refine ⟨rfl, rfl, wellFormed.claim_slot
    ⟨getFreePos ctx.usedSlots, inside⟩
    (getFreePos_unset inside) ?_⟩
  intro other
  rw [BitScan.getLsbD_set]
  simp [Fin.ext_iff]

theorem newTx_isSome {ctx : StateContext}
    (room : ctx.usedSlots ≠ BitVec.allOnes 64) :
    ∃ next, ctx.newTx = some (ctx.nextTxID, next) := by
  have inside := (getFreePos_isLowestZero room).inside
  simp [newTx_eq, inside]

theorem WellFormed.removeTx {ctx next : StateContext} {txnID : Nat}
    {entry : ActiveTx} (wellFormed : ctx.WellFormed)
    (active : ctx.activeTx txnID = some entry)
    (removed : ctx.removeTx txnID = some next) :
    Replaces ctx next txnID none ∧ next.nextTxID = ctx.nextTxID := by
  obtain ⟨pos, found, used, rfl⟩ := getPosFromTxnID_of_active active
  have sameID := getPosFromTxnID_some found
  simp only [StateContext.removeTx, found, Option.map_some,
    Option.some.injEq] at removed
  subst next
  have usedIff : ∀ other : Fin 64,
      (unsetPos ctx.usedSlots pos).getLsbD other = true ↔
        ctx.usedSlots.getLsbD other = true ∧ other ≠ pos := by
    intro other
    rw [unsetPos, BitScan.getLsbD_unset]
    simp [Fin.ext_iff]
  have ids : ∀ other,
      (Function.update ctx.activeTxs pos
        { ctx.activeTxs pos with readCTS := 0 } other).txnID =
        (ctx.activeTxs other).txnID := by
    intro other
    by_cases here : other = pos
    · subst other
      simp
    · simp [here]
  have kept : WellFormed
      { ctx with
        activeTxs := Function.update ctx.activeTxs pos
          { ctx.activeTxs pos with readCTS := 0 }
        usedSlots := unsetPos ctx.usedSlots pos } := by
    constructor
    · intro first second equal nonzero
      simp only [ids] at equal nonzero
      exact wellFormed.unique first second equal nonzero
    · intro other
      simp only [ids]
      exact wellFormed.old other
    · intro other set
      simp only [ids]
      exact wellFormed.used other ((usedIff other).mp set).1
  refine ⟨
    { lastCTS := rfl
      oldestVisibleVersion := rfl
      wellFormed := kept
      activeTx := ?_ }, rfl⟩
  funext other
  apply Option.ext
  intro result
  rw [kept.activeTx_eq_some]
  by_cases here : other = txnID
  · subst other
    rw [Function.update_self]
    constructor
    · rintro ⟨place, set, rfl, equal⟩
      have still := (usedIff place).mp set
      simp only [ids] at equal
      have samePlace := wellFormed.unique place pos (equal.trans sameID.symm)
        (wellFormed.used place still.1)
      exact absurd samePlace still.2
    · intro impossible
      cases impossible
  · rw [Function.update_of_ne here, wellFormed.activeTx_eq_some]
    constructor
    · rintro ⟨place, set, rfl, equal⟩
      have still := (usedIff place).mp set
      exact ⟨place, still.1, by simp [still.2], equal⟩
    · rintro ⟨place, set, rfl, equal⟩
      have elsewhere : place ≠ pos := by
        rintro rfl
        exact here (equal.symm.trans sameID)
      exact ⟨place, (usedIff place).mpr ⟨set, elsewhere⟩,
        by simp [elsewhere], equal⟩

theorem removeTx_isSome {ctx : StateContext} {txnID : Nat}
    {entry : ActiveTx} (active : ctx.activeTx txnID = some entry) :
    ∃ next, ctx.removeTx txnID = some next := by
  obtain ⟨pos, found, _, _⟩ := getPosFromTxnID_of_active active
  simp [StateContext.removeTx, found]

theorem activeTx_congr {ctx next : StateContext}
    (slots : next.usedSlots = ctx.usedSlots)
    (entries : next.activeTxs = ctx.activeTxs) :
    next.activeTx = ctx.activeTx := by
  funext txnID
  simp [activeTx, getPosFromTxnID, slots, entries]

theorem WellFormed.congr {ctx next : StateContext}
    (wellFormed : ctx.WellFormed) (slots : next.usedSlots = ctx.usedSlots)
    (entries : next.activeTxs = ctx.activeTxs)
    (counter : ctx.nextTxID ≤ next.nextTxID) : next.WellFormed := by
  constructor
  · rw [entries]
    exact wellFormed.unique
  · intro pos
    rw [entries]
    exact Nat.lt_of_lt_of_le (wellFormed.old pos) counter
  · rw [entries, slots]
    exact wellFormed.used

/-! ## The two scans over the slots -/

theorem WellFormed.getOldestActiveTx_le {ctx : StateContext}
    (wellFormed : ctx.WellFormed) {txnID : Nat} {entry : ActiveTx}
    (active : ctx.activeTx txnID = some entry) :
    ctx.getOldestActiveTx ≤ txnID := by
  obtain ⟨pos, used, rfl, rfl⟩ := wellFormed.activeTx_eq_some.mp active
  refine ScanMinimum.foldl_le_candidate
    (fun (item : Fin 64) value =>
      ctx.usedSlots.getLsbD item = true ∧ value = (ctx.activeTxs item).txnID)
    ?_ ?_ (List.mem_finRange pos) ⟨used, rfl⟩ DTS_INF
  · intro least item
    split
    · exact min_le_right _ _
    · exact le_refl least
  · rintro least item value ⟨set, rfl⟩
    simp only [set, if_true]
    exact min_le_left _ _

/-- The timestamps that are set bound the minimum from above. -/
theorem WellFormed.oldestReadCTS_le {ctx : StateContext}
    (wellFormed : ctx.WellFormed) {txnID : Nat} {entry : ActiveTx}
    (active : ctx.activeTx txnID = some entry) (set : entry.readCTS ≠ 0) :
    ctx.oldestReadCTS ≤ entry.readCTS := by
  obtain ⟨pos, used, rfl, rfl⟩ := wellFormed.activeTx_eq_some.mp active
  refine ScanMinimum.foldl_le_candidate
    (fun (item : Fin 64) value =>
      ctx.usedSlots.getLsbD item = true ∧
        value = (ctx.activeTxs item).readCTS ∧ value ≠ 0)
    ?_ ?_ (List.mem_finRange pos) ⟨used, rfl, set⟩ DTS_INF
  · intro least item
    dsimp only
    split
    · split
      · omega
      · exact le_refl least
    · exact le_refl least
  · rintro least item value ⟨inUse, rfl, nonzero⟩
    simp only [inUse, if_true]
    split <;> omega

/-- The minimum is a read timestamp of an active transaction, unless there is
none. -/
theorem WellFormed.oldestReadCTS_cases {ctx : StateContext}
    (wellFormed : ctx.WellFormed) :
    ctx.oldestReadCTS = DTS_INF ∨
      ∃ txnID entry, ctx.activeTx txnID = some entry ∧ entry.readCTS ≠ 0 ∧
        entry.readCTS = ctx.oldestReadCTS := by
  rcases ScanMinimum.foldl_start_or_candidate
    (fun newMin (pos : Fin 64) =>
      if ctx.usedSlots.getLsbD pos then
        let rCTS := (ctx.activeTxs pos).readCTS
        if rCTS ≠ 0 ∧ rCTS < newMin then rCTS else newMin
      else newMin)
    (fun item value => ctx.usedSlots.getLsbD item = true ∧
      value = (ctx.activeTxs item).readCTS ∧ value ≠ 0)
    (by
      intro least item
      dsimp only
      split
      case isTrue used =>
        split
        case isTrue smaller => exact Or.inr ⟨used, rfl, smaller.1⟩
        case isFalse => exact Or.inl rfl
      case isFalse => exact Or.inl rfl)
    (List.finRange 64) DTS_INF with start | ⟨pos, _, used, value, nonzero⟩
  · exact Or.inl start
  · refine Or.inr ⟨(ctx.activeTxs pos).txnID, ctx.activeTxs pos,
      wellFormed.activeTx_eq_some.mpr ⟨pos, used, rfl, rfl⟩, ?_, value.symm⟩
    rw [← value]
    exact nonzero

/-! ## Recalculating the oldest visible version -/

theorem recalcOldestVisible_activeTx (ctx : StateContext) (txnID : Nat) :
    (ctx.recalcOldestVisible txnID).2.activeTx = ctx.activeTx := by
  unfold recalcOldestVisible
  split <;> exact activeTx_congr rfl rfl

theorem WellFormed.recalcOldestVisible {ctx : StateContext}
    (wellFormed : ctx.WellFormed) (txnID : Nat) :
    (ctx.recalcOldestVisible txnID).2.WellFormed := by
  unfold StateContext.recalcOldestVisible
  split <;> exact wellFormed.congr rfl rfl (le_refl _)

@[simp] theorem recalcOldestVisible_nextTxID (ctx : StateContext)
    (txnID : Nat) :
    (ctx.recalcOldestVisible txnID).2.nextTxID = ctx.nextTxID := by
  unfold recalcOldestVisible
  split <;> rfl

@[simp] theorem recalcOldestVisible_lastCTS (ctx : StateContext)
    (txnID : Nat) :
    (ctx.recalcOldestVisible txnID).2.lastCTS = ctx.lastCTS := by
  unfold recalcOldestVisible
  split <;> rfl

/-- As long as no transaction reads ahead of the last commit, the bound of a
clean-up is at most the last commit. -/
theorem WellFormed.recalcOldestVisible_le {ctx : StateContext}
    (wellFormed : ctx.WellFormed)
    (snapshots : ∀ txnID entry, ctx.activeTx txnID = some entry →
      entry.readCTS ≤ ctx.lastCTS) (txnID : Nat) :
    (ctx.recalcOldestVisible txnID).1 ≤ ctx.lastCTS := by
  unfold StateContext.recalcOldestVisible
  split
  · dsimp only
    split
    · exact le_refl _
    case isFalse finite =>
      rcases wellFormed.oldestReadCTS_cases with infinite | found
      · exact absurd infinite finite
      · obtain ⟨other, entry, active, _, value⟩ := found
        rw [← value]
        exact snapshots other entry active
  · exact le_refl _

/-- Past the first call, the bound respects every read timestamp that is set. -/
theorem WellFormed.recalcOldestVisible_le_readCTS {ctx : StateContext}
    (wellFormed : ctx.WellFormed) (later : ctx.oldestVisibleVersion ≠ 0)
    {reader : Nat} {entry : ActiveTx}
    (active : ctx.activeTx reader = some entry) (set : entry.readCTS ≠ 0)
    (finite : entry.readCTS < DTS_INF) (txnID : Nat) :
    (ctx.recalcOldestVisible txnID).1 ≤ entry.readCTS := by
  have bound := wellFormed.oldestReadCTS_le active set
  rw [StateContext.recalcOldestVisible, if_pos later]
  dsimp only
  split
  case isTrue infinite => omega
  case isFalse => exact bound

end PipeFabric.StateContext
