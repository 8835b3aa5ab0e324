import PipeFabric.Library.BitScan
import Mathlib.Data.List.FinRange

/-!
# The state context

`StateContext` hands out transaction ids, keeps one slot for each active
transaction and publishes the last committed transaction of the (single)
topology group.  It is the object all transactional tables share.

The counters that the source keeps only for evaluation (`restarts`, `txCntR`,
`txCntW`) and the key generators are left out.
-/

namespace PipeFabric

/-- Infinity, used for maximum validity.  A `TransactionID` is a 64-bit number in
the source and a `Nat` here. -/
def DTS_INF : Nat := 2 ^ 64 - 1

/-- Tables of the topology group; `MAX_STATES_TOPO` is two. -/
abbrev TableID := Fin 2

instance (priority := 2000) neZero_MAX_STATES_TOPO : NeZero 2 := ⟨by decide⟩

/-- The runs with a single reader number it zero. -/
instance (priority := 2000) neZero_oneReader : NeZero 1 := ⟨by decide⟩

inductive Errc where
  | SUCCESS
  | ABORT
  | NOT_FOUND
  | INCONSISTENT
  deriving Repr, DecidableEq

inductive Status where
  | Active
  | Commit
  | Abort
  deriving Repr, DecidableEq

/-! ## Slot masks -/

def tab64 : Vector Nat 64 :=
  #v[63, 0, 58, 1, 59, 47, 53, 2,
     60, 39, 48, 27, 54, 33, 42, 3,
     61, 51, 37, 40, 49, 18, 28, 20,
     55, 30, 34, 11, 43, 14, 22, 4,
     62, 57, 46, 52, 38, 26, 32, 41,
     50, 36, 17, 19, 29, 10, 13, 21,
     56, 45, 25, 31, 35, 16, 9, 12,
     44, 24, 15, 8, 23, 7, 6, 5]

theorem ushiftRight_58_lt (x : BitVec 64) : (x >>> 58).toNat < 64 := by
  rw [BitVec.toNat_ushiftRight, Nat.shiftRight_eq_div_pow]
  omega

/-- Position of the first zero bit, by a de Bruijn multiplication and a table
lookup; 64 means no free position. -/
def getFreePos (v : BitVec 64) : Nat :=
  if v = BitVec.allOnes 64 then 64
  else tab64.get ⟨_, ushiftRight_58_lt ((~~~v &&& -(~~~v)) * 0x07EDD5E59A4E28C2#64)⟩

/-- The position taken and the mask after the compare-and-swap succeeded. -/
def getSetFreePos (v : BitVec 64) : Nat × BitVec 64 :=
  let pos := getFreePos v
  (pos, v ||| 1#64 <<< pos)

def unsetPos (v : BitVec 64) (pos : Nat) : BitVec 64 :=
  v &&& ~~~(1#64 <<< pos)

/-- The table inverts the multiplication on every power of two. -/
private theorem tab64_power (k : Fin 64) :
    tab64.get ⟨_, ushiftRight_58_lt (1#64 <<< k.val * 0x07EDD5E59A4E28C2#64)⟩ =
      k.val := by
  revert k
  decide

theorem getFreePos_allOnes : getFreePos (BitVec.allOnes 64) = 64 := by
  simp [getFreePos]

/-- The lookup computes the lowest zero bit. -/
theorem getFreePos_isLowestZero {v : BitVec 64} (room : v ≠ BitVec.allOnes 64) :
    BitScan.IsLowestZero v (getFreePos v) := by
  obtain ⟨k, lowest⟩ := BitScan.exists_isLowestZero room
  have position : getFreePos v = k := by
    simp only [getFreePos, if_neg room, BitScan.isolate_eq_shiftLeft lowest]
    exact tab64_power ⟨k, lowest.inside⟩
  rw [position]
  exact lowest

/-- The multiplication and the table give what the naive scan gives, on every
mask. -/
theorem getFreePos_scans :
    (∀ v : BitVec 64, v ≠ BitVec.allOnes 64 →
      BitScan.IsLowestZero v (getFreePos v)) ∧
    getFreePos (BitVec.allOnes 64) = 64 ∧
    ∀ v : BitVec 64, getFreePos v = BitScan.scan v := by
  refine ⟨fun v room => getFreePos_isLowestZero room, getFreePos_allOnes, ?_⟩
  intro v
  by_cases full : v = BitVec.allOnes 64
  · subst full
    rw [getFreePos_allOnes, BitScan.scan_allOnes]
  · have lowest := getFreePos_isLowestZero full
    exact lowest.scan_eq.symm

theorem getFreePos_unset {v : BitVec 64} (inside : getFreePos v < 64) :
    v.getLsbD (getFreePos v) = false := by
  have room : v ≠ BitVec.allOnes 64 := by
    intro full
    rw [full, getFreePos_allOnes] at inside
    omega
  exact (getFreePos_isLowestZero room).zero

theorem getFreePos_le {v : BitVec 64} {k : Nat} (inside : k < 64)
    (unset : v.getLsbD k = false) : getFreePos v ≤ k := by
  have room : v ≠ BitVec.allOnes 64 := by
    intro full
    rw [full, BitVec.getLsbD_allOnes] at unset
    simp [inside] at unset
  by_contra above
  have set := (getFreePos_isLowestZero room).below k (by omega)
  rw [unset] at set
  cases set

/-! ## The context -/

/-- One slot of `activeTxs`; there is a single topology group, so `ReadInfo`
is one timestamp. -/
structure ActiveTx where
  txnID : Nat
  writeInfo : TableID → Status
  readCTS : Nat

instance : Inhabited ActiveTx :=
  ⟨{ txnID := 0, writeInfo := fun _ => .Active, readCTS := 0 }⟩

structure StateContext where
  nextTxID : Nat
  /-- `topoGrps[0].second` -/
  lastCTS : Nat
  usedSlots : BitVec 64
  activeTxs : Fin 64 → ActiveTx
  oldestVisibleVersion : Nat

namespace StateContext

/-- A context whose clock reads `clock`, with one registered group. -/
def initial (clock : Nat) : StateContext :=
  { nextTxID := clock
    lastCTS := 0
    usedSlots := 0#64
    activeTxs := fun _ => default
    oldestVisibleVersion := 0 }

/-- The position in `activeTxs` holding the id.  The source scans past the end
of the array when there is none; the model then has no result. -/
def getPosFromTxnID (ctx : StateContext) (txnID : Nat) :
    Option (Fin 64) :=
  (List.finRange 64).find? fun pos => (ctx.activeTxs pos).txnID == txnID

def getWriteStatus (ctx : StateContext) (txnID : Nat)
    (tblID : TableID) : Option Status :=
  (ctx.getPosFromTxnID txnID).map fun pos => (ctx.activeTxs pos).writeInfo tblID

def setWriteStatus (ctx : StateContext) (txnID : Nat)
    (tblID : TableID) (status : Status) : Option StateContext :=
  (ctx.getPosFromTxnID txnID).map fun (pos : Fin 64) =>
    let slot := ctx.activeTxs pos
    { ctx with
      activeTxs := Function.update ctx.activeTxs pos
        { slot with writeInfo := Function.update slot.writeInfo tblID status } }

def getReadCTS (ctx : StateContext) (txnID : Nat) :
    Option Nat :=
  (ctx.getPosFromTxnID txnID).map fun pos => (ctx.activeTxs pos).readCTS

def setReadCTS (ctx : StateContext) (txnID read : Nat) :
    Option StateContext :=
  (ctx.getPosFromTxnID txnID).map fun (pos : Fin 64) =>
    { ctx with
      activeTxs := Function.update ctx.activeTxs pos
        { ctx.activeTxs pos with readCTS := read } }

def getOldestActiveTx (ctx : StateContext) : Nat :=
  (List.finRange 64).foldl
    (fun oldest (pos : Fin 64) =>
      if ctx.usedSlots.getLsbD pos then min (ctx.activeTxs pos).txnID oldest
      else oldest)
    DTS_INF

/-- Registers a new transaction.  With all 64 slots taken the source writes
behind `activeTxs`; the model then has no result. -/
def newTx (ctx : StateContext) : Option (Nat × StateContext) :=
  let txnID := ctx.nextTxID
  let (pos, usedSlots) := getSetFreePos ctx.usedSlots
  if inside : pos < 64 then
    some (txnID,
      { ctx with
        nextTxID := txnID + 1
        usedSlots := usedSlots
        activeTxs := Function.update ctx.activeTxs ⟨pos, inside⟩
          { txnID := txnID, writeInfo := fun _ => .Active, readCTS := 0 } })
  else none

theorem newTx_eq (ctx : StateContext) :
    ctx.newTx =
      if inside : getFreePos ctx.usedSlots < 64 then
        some (ctx.nextTxID,
          { ctx with
            nextTxID := ctx.nextTxID + 1
            usedSlots := ctx.usedSlots ||| 1#64 <<< getFreePos ctx.usedSlots
            activeTxs := Function.update ctx.activeTxs
              ⟨getFreePos ctx.usedSlots, inside⟩
              { txnID := ctx.nextTxID
                writeInfo := fun _ => .Active
                readCTS := 0 } })
      else none := rfl

/-- A transaction that begins takes the first free slot. -/
theorem newTx_eq_some {ctx next : StateContext} {txnID : Nat}
    (begun : ctx.newTx = some (txnID, next)) :
    txnID = ctx.nextTxID ∧ ∃ inside : getFreePos ctx.usedSlots < 64, next =
      { ctx with
        nextTxID := ctx.nextTxID + 1
        usedSlots := ctx.usedSlots ||| 1#64 <<< getFreePos ctx.usedSlots
        activeTxs := Function.update ctx.activeTxs ⟨getFreePos ctx.usedSlots, inside⟩
          { txnID := ctx.nextTxID, writeInfo := fun _ => .Active, readCTS := 0 } } := by
  rw [newTx_eq] at begun
  by_cases inside : getFreePos ctx.usedSlots < 64
  case neg =>
    rw [dif_neg inside] at begun
    cases begun
  case pos =>
    rw [dif_pos inside] at begun
    cases begun
    exact ⟨rfl, inside, rfl⟩

def getNewTS (ctx : StateContext) : Nat × StateContext :=
  (ctx.nextTxID, { ctx with nextTxID := ctx.nextTxID + 1 })

def removeTx (ctx : StateContext) (txnID : Nat) :
    Option StateContext :=
  (ctx.getPosFromTxnID txnID).map fun (pos : Fin 64) =>
    { ctx with
      activeTxs := Function.update ctx.activeTxs pos
        { ctx.activeTxs pos with readCTS := 0 }
      usedSlots := unsetPos ctx.usedSlots pos }

/-- The minimum over the read timestamps that are set. -/
def oldestReadCTS (ctx : StateContext) : Nat :=
  (List.finRange 64).foldl
    (fun newMin (pos : Fin 64) =>
      if ctx.usedSlots.getLsbD pos then
        let rCTS := (ctx.activeTxs pos).readCTS
        if rCTS ≠ 0 ∧ rCTS < newMin then rCTS else newMin
      else newMin)
    DTS_INF

/-- Recalculates the oldest visible version.  The first call, recognised by a
zero in `oldestVisibleVersion`, does not look at the slots. -/
def recalcOldestVisible (ctx : StateContext) (_txnID : Nat) :
    Nat × StateContext :=
  if ctx.oldestVisibleVersion ≠ 0 then
    let found := ctx.oldestReadCTS
    let newMin := if found = DTS_INF then ctx.lastCTS else found
    (newMin,
      { ctx with
        oldestVisibleVersion :=
          if ctx.oldestVisibleVersion < newMin then newMin
          else ctx.oldestVisibleVersion })
  else
    (ctx.lastCTS, { ctx with oldestVisibleVersion := ctx.lastCTS })

def setLastCTS (ctx : StateContext) (txnID : Nat) : StateContext :=
  { ctx with lastCTS := txnID }

end StateContext

/-- The tables registered in a context. -/
structure TableGroup (Tbl : Type) where
  sCtx : StateContext
  regStates : TableID → Tbl

namespace TableGroup

variable {Tbl : Type}

def setTable (group : TableGroup Tbl) (tblID : TableID) (tbl : Tbl) :
    TableGroup Tbl :=
  { group with regStates := Function.update group.regStates tblID tbl }

def setCtx (group : TableGroup Tbl) (sCtx : StateContext) : TableGroup Tbl :=
  { group with sCtx := sCtx }

@[simp] theorem setTable_sCtx (group : TableGroup Tbl) (tblID : TableID)
    (tbl : Tbl) : (group.setTable tblID tbl).sCtx = group.sCtx := rfl

@[simp] theorem setTable_regStates (group : TableGroup Tbl) (tblID : TableID)
    (tbl : Tbl) :
    (group.setTable tblID tbl).regStates =
      Function.update group.regStates tblID tbl := rfl

@[simp] theorem setCtx_sCtx (group : TableGroup Tbl) (sCtx : StateContext) :
    (group.setCtx sCtx).sCtx = sCtx := rfl

@[simp] theorem setCtx_regStates (group : TableGroup Tbl) (sCtx : StateContext) :
    (group.setCtx sCtx).regStates = group.regStates := rfl

end TableGroup

/-- `(tblID == 0) ? 1 : 0` -/
def otherID (tblID : TableID) : TableID := if tblID = 0 then 1 else 0

theorem otherID_ne (tblID : TableID) : otherID tblID ≠ tblID := by
  revert tblID
  decide

@[simp] theorem otherID_otherID (tblID : TableID) :
    otherID (otherID tblID) = tblID := by
  revert tblID
  decide

theorem eq_or_eq_otherID (left right : TableID) :
    left = right ∨ left = otherID right := by
  revert left right
  decide

end PipeFabric
