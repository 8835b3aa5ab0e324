import Mathlib.Data.Fintype.Card
import PipeFabric.Table.ActiveTransactions

/-!
# The number of occupied slots

`newTx` occupies one more of the 64 slots and `removeTx` gives one back.  A new
transaction finds a slot as long as one is free.
-/

namespace PipeFabric.StateContext

/-- The slots whose bit is set. -/
def occupied (ctx : StateContext) : Finset (Fin 64) :=
  Finset.univ.filter fun pos => ctx.usedSlots.getLsbD pos = true

theorem mem_occupied {ctx : StateContext} {pos : Fin 64} :
    pos ∈ ctx.occupied ↔ ctx.usedSlots.getLsbD pos = true := by
  simp [occupied]

theorem occupied_congr {ctx next : StateContext}
    (same : next.usedSlots = ctx.usedSlots) : next.occupied = ctx.occupied := by
  unfold occupied
  rw [same]

theorem occupied_initial (clock : Nat) : (initial clock).occupied = ∅ := by
  apply Finset.eq_empty_of_forall_notMem
  intro pos member
  have set := mem_occupied.mp member
  simp [initial] at set

/-- The slots are full exactly if the count is 64. -/
theorem card_occupied_eq {ctx : StateContext} :
    ctx.occupied.card = 64 ↔ ctx.usedSlots = BitVec.allOnes 64 := by
  constructor
  · intro full
    have all : ctx.occupied = Finset.univ := by
      apply Finset.eq_univ_of_card
      rw [full, Fintype.card_fin]
    apply BitVec.eq_of_getLsbD_eq
    intro k inside
    have member : (⟨k, inside⟩ : Fin 64) ∈ ctx.occupied := by
      rw [all]
      exact Finset.mem_univ _
    rw [BitVec.getLsbD_allOnes, decide_eq_true inside]
    exact mem_occupied.mp member
  · intro full
    have all : ctx.occupied = Finset.univ := by
      apply Finset.eq_univ_of_forall
      intro pos
      rw [mem_occupied, full, BitVec.getLsbD_allOnes]
      exact decide_eq_true pos.isLt
    rw [all, Finset.card_univ, Fintype.card_fin]

theorem card_occupied_le (ctx : StateContext) : ctx.occupied.card ≤ 64 := by
  have bound := Finset.card_le_univ ctx.occupied
  rwa [Fintype.card_fin] at bound

/-- A new transaction takes a free slot. -/
theorem occupied_newTx {ctx next : StateContext} {txnID : Nat}
    (begun : ctx.newTx = some (txnID, next)) :
    next.occupied.card = ctx.occupied.card + 1 := by
  obtain ⟨rfl, inside, rfl⟩ := newTx_eq_some begun
  have free : (⟨getFreePos ctx.usedSlots, inside⟩ : Fin 64) ∉ ctx.occupied := by
    rw [mem_occupied, getFreePos_unset inside]
    exact Bool.false_ne_true
  rw [← Finset.card_insert_of_notMem free]
  apply congrArg Finset.card
  ext pos
  rw [Finset.mem_insert, mem_occupied, mem_occupied, BitScan.getLsbD_set]
  simp [Fin.ext_iff, or_comm]

theorem newTx_eq_some_iff {ctx : StateContext} :
    (∃ next, ctx.newTx = some (ctx.nextTxID, next)) ↔
      ctx.occupied.card < 64 := by
  constructor
  · intro begun
    obtain ⟨next, begun⟩ := begun
    have count := occupied_newTx begun
    have bound := card_occupied_le next
    omega
  · intro room
    apply newTx_isSome
    intro full
    have count := card_occupied_eq.mpr full
    omega

/-- The slot of an active transaction is given back. -/
theorem occupied_removeTx {ctx next : StateContext} {txnID : Nat}
    {entry : ActiveTx} (active : ctx.activeTx txnID = some entry)
    (removed : ctx.removeTx txnID = some next) :
    next.occupied.card + 1 = ctx.occupied.card := by
  obtain ⟨pos, found, used, _⟩ := getPosFromTxnID_of_active active
  simp only [removeTx, found, Option.map_some, Option.some.injEq] at removed
  subst next
  have member : pos ∈ ctx.occupied := mem_occupied.mpr used
  rw [← Finset.card_erase_add_one member]
  apply congrArg (· + 1)
  apply congrArg Finset.card
  ext other
  rw [Finset.mem_erase, mem_occupied, mem_occupied, unsetPos,
    BitScan.getLsbD_unset]
  simp [Fin.ext_iff, and_comm]

end PipeFabric.StateContext
