import PipeFabric.Table.StateContext

/-!
# Version arrays

`MVCCObject` keeps a fixed number of versions of one record.  A version in slot
`p` is valid from `cts p` until before `dts p`; the mask `usedSlots` says which
slots hold one.
-/

namespace PipeFabric

structure Header where
  cts : Nat
  dts : Nat
  deriving Repr, DecidableEq

/-- A default-constructed header. -/
def Header.blank : Header := { cts := DTS_INF, dts := 0 }

structure MVCCObject (R : Type) (VERSIONS : Nat) where
  headers : Fin VERSIONS → Header
  usedSlots : BitVec 8
  values : Fin VERSIONS → R

namespace MVCCObject

variable {R : Type} {VERSIONS : Nat}

def empty [Inhabited R] : MVCCObject R VERSIONS :=
  { headers := fun _ => .blank, usedSlots := 0#8, values := fun _ => default }

def cts (mvcc : MVCCObject R VERSIONS) (i : Fin VERSIONS) : Nat :=
  (mvcc.headers i).cts

def dts (mvcc : MVCCObject R VERSIONS) (i : Fin VERSIONS) : Nat :=
  (mvcc.headers i).dts

/-- `usedSlots & (1 << i)` -/
def isUsed (mvcc : MVCCObject R VERSIONS) (i : Fin VERSIONS) : Bool :=
  mvcc.usedSlots &&& 1#8 <<< i.val != 0#8

/-- The first used slot whose version is valid at `txnID`; `none` is the -1 of
the source. -/
def getCurrent (mvcc : MVCCObject R VERSIONS) (txnID : Nat) :
    Option (Fin VERSIONS) :=
  (List.finRange VERSIONS).find? fun i =>
    mvcc.isUsed i && decide (mvcc.dts i > txnID) && decide (mvcc.cts i ≤ txnID)

/-- Opens a version in slot `iPos` and closes the one in slot `dPos`. -/
def newEntry (mvcc : MVCCObject R VERSIONS) (txnID : Nat)
    (iPos dPos : Fin VERSIONS) (value : R) : MVCCObject R VERSIONS :=
  let opened := Function.update mvcc.headers iPos { cts := txnID, dts := DTS_INF }
  { headers := Function.update opened dPos { opened dPos with dts := txnID }
    usedSlots := mvcc.usedSlots ||| 1#8 <<< iPos.val
    values := Function.update mvcc.values iPos value }

/-- One iteration of the clean-up loop. -/
def cleanUpSlot (oldestReadVersion : Nat) (mvcc : MVCCObject R VERSIONS)
    (i : Fin VERSIONS) : MVCCObject R VERSIONS :=
  if mvcc.dts i ≤ oldestReadVersion then
    { mvcc with
      usedSlots := mvcc.usedSlots &&& ~~~(1#8 <<< i.val)
      headers := Function.update mvcc.headers i .blank }
  else mvcc

def cleanUpVersions (mvcc : MVCCObject R VERSIONS) (oldestReadVersion : Nat) :
    MVCCObject R VERSIONS :=
  (List.finRange VERSIONS).foldl (cleanUpSlot oldestReadVersion) mvcc

/-- `getFreePos(usedSlots)`, as a slot when it lies inside the array. -/
def freeSlot (mvcc : MVCCObject R VERSIONS) : Option (Fin VERSIONS) :=
  let iPos := getFreePos (mvcc.usedSlots.setWidth 64)
  if inside : iPos < VERSIONS then some ⟨iPos, inside⟩ else none

/-- The object stored for a key that is written for the first time. -/
def first [Inhabited R] [NeZero VERSIONS] (txnID : Nat) (value : R) :
    MVCCObject R VERSIONS :=
  { (empty : MVCCObject R VERSIONS) with
    headers := Function.update (fun _ => .blank) 0 { cts := txnID, dts := DTS_INF }
    values := Function.update (fun _ => default) 0 value
    usedSlots := 1#8 }

theorem isUsed_eq (mvcc : MVCCObject R VERSIONS) (i : Fin VERSIONS) :
    mvcc.isUsed i = mvcc.usedSlots.getLsbD i := by
  rw [Bool.eq_iff_iff, isUsed, bne_iff_ne]
  exact BitScan.and_one_shiftLeft_ne_zero _ _

/-- Slot `i` is used and its version is valid at `txnID`. -/
def ValidAt (mvcc : MVCCObject R VERSIONS) (txnID : Nat) (i : Fin VERSIONS) :
    Prop :=
  mvcc.isUsed i = true ∧ mvcc.cts i ≤ txnID ∧ txnID < mvcc.dts i

theorem getCurrent_validAt {mvcc : MVCCObject R VERSIONS} {txnID : Nat}
    {i : Fin VERSIONS} (found : mvcc.getCurrent txnID = some i) :
    mvcc.ValidAt txnID i := by
  have holds := List.find?_some found
  simp only [gt_iff_lt, Bool.and_eq_true, decide_eq_true_eq] at holds
  exact ⟨holds.1.1, holds.2, holds.1.2⟩

theorem getCurrent_eq_none {mvcc : MVCCObject R VERSIONS} {txnID : Nat} :
    mvcc.getCurrent txnID = none ↔ ∀ i, ¬ mvcc.ValidAt txnID i := by
  unfold getCurrent
  rw [List.find?_eq_none]
  constructor
  · intro absent i valid
    apply absent i (List.mem_finRange i)
    simp [valid.1, valid.2.1, valid.2.2]
  · intro absent i _ holds
    simp only [gt_iff_lt, Bool.and_eq_true, decide_eq_true_eq] at holds
    exact absent i ⟨holds.1.1, holds.2, holds.1.2⟩

/-- Where at most one version is valid, the search finds it. -/
theorem getCurrent_eq_some {mvcc : MVCCObject R VERSIONS} {txnID : Nat}
    {i : Fin VERSIONS} (valid : mvcc.ValidAt txnID i)
    (unique : ∀ j, mvcc.ValidAt txnID j → j = i) :
    mvcc.getCurrent txnID = some i := by
  cases found : mvcc.getCurrent txnID with
  | none => exact absurd valid (getCurrent_eq_none.mp found i)
  | some j => rw [unique j (getCurrent_validAt found)]

/-- The search depends only on which slots are valid. -/
theorem getCurrent_congr {left right : MVCCObject R VERSIONS} {txnID : Nat}
    (same : ∀ i, left.ValidAt txnID i ↔ right.ValidAt txnID i) :
    left.getCurrent txnID = right.getCurrent txnID := by
  unfold getCurrent
  congr 1
  funext i
  have equal := same i
  unfold ValidAt at equal
  rw [Bool.eq_iff_iff]
  simp only [gt_iff_lt, Bool.and_eq_true, decide_eq_true_eq]
  tauto

/-! ## Effect of the operations on one slot -/

theorem freeSlot_unused {mvcc : MVCCObject R VERSIONS} {i : Fin VERSIONS}
    (few : VERSIONS ≤ 8) (free : mvcc.freeSlot = some i) :
    mvcc.isUsed i = false := by
  simp only [freeSlot] at free
  by_cases inside : getFreePos (mvcc.usedSlots.setWidth 64) < VERSIONS
  case neg => simp [inside] at free
  case pos =>
    simp only [inside, dite_true, Option.some.injEq] at free
    subst free
    have unset := getFreePos_unset (v := mvcc.usedSlots.setWidth 64) (by omega)
    rw [BitVec.getLsbD_setWidth] at unset
    rw [isUsed_eq]
    simpa [show getFreePos (mvcc.usedSlots.setWidth 64) < 64 by omega] using unset

theorem freeSlot_isSome {mvcc : MVCCObject R VERSIONS} {i : Fin VERSIONS}
    (few : VERSIONS ≤ 8) (unused : mvcc.isUsed i = false) :
    ∃ j, mvcc.freeSlot = some j := by
  have unset : (mvcc.usedSlots.setWidth 64).getLsbD i = false := by
    rw [BitVec.getLsbD_setWidth, ← isUsed_eq, unused]
    simp
  have low := getFreePos_le (by omega) unset
  have inside : getFreePos (mvcc.usedSlots.setWidth 64) < VERSIONS := by omega
  exact ⟨⟨_, inside⟩, by simp [freeSlot, inside]⟩

/-- The free slot that is taken is the first one. -/
theorem freeSlot_eq_some_iff {mvcc : MVCCObject R VERSIONS} {i : Fin VERSIONS}
    (few : VERSIONS ≤ 8) :
    mvcc.freeSlot = some i ↔
      mvcc.isUsed i = false ∧ ∀ j < i, mvcc.isUsed j = true := by
  have bits : ∀ j : Fin VERSIONS,
      (mvcc.usedSlots.setWidth 64).getLsbD j = mvcc.isUsed j := by
    intro j
    have inside : j.val < 64 := by omega
    rw [BitVec.getLsbD_setWidth, isUsed_eq]
    simp [inside]
  have below : ∀ j, mvcc.freeSlot = some j → ∀ k, mvcc.isUsed k = false →
      j ≤ k := by
    intro j free k unused
    simp only [freeSlot] at free
    split at free
    case isTrue inside =>
      cases free
      exact getFreePos_le (by omega) ((bits k).trans unused)
    case isFalse => cases free
  constructor
  · intro free
    refine ⟨freeSlot_unused few free, ?_⟩
    intro j before
    apply Bool.eq_true_of_not_eq_false
    intro unused
    exact absurd before (Fin.not_lt.mpr (below i free j unused))
  · intro lowest
    obtain ⟨unused, used⟩ := lowest
    obtain ⟨j, free⟩ := freeSlot_isSome few unused
    rw [free, Option.some_inj]
    apply le_antisymm (below j free i unused)
    by_contra before
    have set := used j (Fin.not_le.mp before)
    rw [freeSlot_unused few free] at set
    cases set

theorem newEntry_isUsed {mvcc : MVCCObject R VERSIONS} {txnID : Nat}
    {iPos dPos : Fin VERSIONS} {value : R} (few : VERSIONS ≤ 8)
    (p : Fin VERSIONS) :
    (mvcc.newEntry txnID iPos dPos value).isUsed p =
      (mvcc.isUsed p || decide (p = iPos)) := by
  have inside : p.val < 8 := by omega
  rw [isUsed_eq, isUsed_eq, newEntry, BitScan.getLsbD_set]
  simp [inside, Fin.ext_iff]

theorem newEntry_cts {mvcc : MVCCObject R VERSIONS} {txnID : Nat}
    {iPos dPos : Fin VERSIONS} {value : R} (p : Fin VERSIONS) :
    (mvcc.newEntry txnID iPos dPos value).cts p =
      if p = iPos then txnID else mvcc.cts p := by
  by_cases opened : p = iPos <;> by_cases closed : p = dPos <;>
    simp [newEntry, cts, Function.update_apply, opened, closed] <;> grind

theorem newEntry_dts {mvcc : MVCCObject R VERSIONS} {txnID : Nat}
    {iPos dPos : Fin VERSIONS} {value : R} (p : Fin VERSIONS) :
    (mvcc.newEntry txnID iPos dPos value).dts p =
      if p = dPos then txnID else if p = iPos then DTS_INF else mvcc.dts p := by
  by_cases opened : p = iPos <;> by_cases closed : p = dPos <;>
    simp [newEntry, dts, Function.update_apply, opened, closed] <;> grind

theorem newEntry_values {mvcc : MVCCObject R VERSIONS} {txnID : Nat}
    {iPos dPos : Fin VERSIONS} {value : R} (p : Fin VERSIONS) :
    (mvcc.newEntry txnID iPos dPos value).values p =
      if p = iPos then value else mvcc.values p := by
  simp [newEntry, Function.update_apply]

private theorem cleanUpSlot_headers (oldest : Nat)
    (mvcc : MVCCObject R VERSIONS) (i p : Fin VERSIONS) :
    (cleanUpSlot oldest mvcc i).headers p =
      if p = i ∧ mvcc.dts p ≤ oldest then .blank else mvcc.headers p := by
  unfold cleanUpSlot
  by_cases here : p = i
  · subst i
    by_cases drop : mvcc.dts p ≤ oldest <;> simp [drop]
  · by_cases drop : mvcc.dts i ≤ oldest <;> simp [drop, here]

private theorem cleanUpSlot_mask (oldest : Nat)
    (mvcc : MVCCObject R VERSIONS) (i : Fin VERSIONS) (k : Nat) :
    (cleanUpSlot oldest mvcc i).usedSlots.getLsbD k =
      (mvcc.usedSlots.getLsbD k &&
        !decide (k = i.val ∧ mvcc.dts i ≤ oldest)) := by
  unfold cleanUpSlot
  by_cases drop : mvcc.dts i ≤ oldest
  · rw [if_pos drop, BitScan.getLsbD_unset]
    simp [drop]
  · rw [if_neg drop]
    simp [drop]

private theorem cleanUpSlot_values (oldest : Nat)
    (mvcc : MVCCObject R VERSIONS) (i : Fin VERSIONS) :
    (cleanUpSlot oldest mvcc i).values = mvcc.values := by
  unfold cleanUpSlot
  split <;> rfl

private theorem foldl_cleanUpSlot_headers (oldest : Nat)
    (items : List (Fin VERSIONS)) (mvcc : MVCCObject R VERSIONS)
    (p : Fin VERSIONS) :
    (items.foldl (cleanUpSlot oldest) mvcc).headers p =
      if p ∈ items ∧ mvcc.dts p ≤ oldest then .blank else mvcc.headers p := by
  induction items generalizing mvcc with
  | nil => simp
  | cons item items induction =>
      rw [List.foldl_cons, induction]
      unfold dts
      rw [cleanUpSlot_headers]
      unfold dts
      by_cases here : p = item
      · subst item
        by_cases drop : (mvcc.headers p).dts ≤ oldest <;> simp [drop]
      · simp [here]

private theorem foldl_cleanUpSlot_mask (oldest : Nat)
    (items : List (Fin VERSIONS)) (mvcc : MVCCObject R VERSIONS) (k : Nat) :
    (items.foldl (cleanUpSlot oldest) mvcc).usedSlots.getLsbD k =
      (mvcc.usedSlots.getLsbD k &&
        !decide (∃ i ∈ items, i.val = k ∧ mvcc.dts i ≤ oldest)) := by
  induction items generalizing mvcc with
  | nil => simp
  | cons item items induction =>
      rw [List.foldl_cons, induction, cleanUpSlot_mask]
      rw [Bool.eq_iff_iff]
      simp only [Bool.and_eq_true, Bool.not_eq_true', decide_eq_false_iff_not,
        List.exists_mem_cons_iff, not_or, and_assoc]
      constructor
      · rintro ⟨set, keep, rest⟩
        refine ⟨set, fun drop => keep ⟨drop.1.symm, drop.2⟩, ?_⟩
        rintro ⟨i, member, rfl, drop⟩
        apply rest
        refine ⟨i, member, rfl, ?_⟩
        unfold dts
        rw [cleanUpSlot_headers]
        split
        · exact Nat.zero_le oldest
        · exact drop
      · rintro ⟨set, keep, rest⟩
        refine ⟨set, fun drop => keep ⟨drop.1.symm, drop.2⟩, ?_⟩
        rintro ⟨i, member, rfl, drop⟩
        apply rest
        refine ⟨i, member, rfl, ?_⟩
        unfold dts at drop
        rw [cleanUpSlot_headers] at drop
        split at drop
        case isTrue both => exact both.2
        case isFalse => exact drop

private theorem foldl_cleanUpSlot_values (oldest : Nat)
    (items : List (Fin VERSIONS)) (mvcc : MVCCObject R VERSIONS) :
    (items.foldl (cleanUpSlot oldest) mvcc).values = mvcc.values := by
  induction items generalizing mvcc with
  | nil => rfl
  | cons item items induction =>
      rw [List.foldl_cons, induction, cleanUpSlot_values]

theorem cleanUpVersions_headers (mvcc : MVCCObject R VERSIONS) (oldest : Nat)
    (p : Fin VERSIONS) :
    (mvcc.cleanUpVersions oldest).headers p =
      if mvcc.dts p ≤ oldest then .blank else mvcc.headers p := by
  rw [cleanUpVersions, foldl_cleanUpSlot_headers]
  simp

/-- A bit survives a clean-up unless it belongs to a slot that is dropped. -/
theorem cleanUpVersions_mask (mvcc : MVCCObject R VERSIONS) (oldest k : Nat) :
    (mvcc.cleanUpVersions oldest).usedSlots.getLsbD k =
      (mvcc.usedSlots.getLsbD k &&
        !decide (∃ i : Fin VERSIONS, i.val = k ∧ mvcc.dts i ≤ oldest)) := by
  rw [cleanUpVersions, foldl_cleanUpSlot_mask]
  simp

theorem cleanUpVersions_isUsed {mvcc : MVCCObject R VERSIONS} {oldest : Nat}
    {p : Fin VERSIONS} :
    (mvcc.cleanUpVersions oldest).isUsed p = true ↔
      mvcc.isUsed p = true ∧ oldest < mvcc.dts p := by
  rw [isUsed_eq, isUsed_eq, cleanUpVersions_mask, Bool.and_eq_true,
    Bool.not_eq_true', decide_eq_false_iff_not]
  constructor
  · rintro ⟨set, keep⟩
    refine ⟨set, ?_⟩
    by_contra drop
    exact keep ⟨p, rfl, Nat.le_of_not_lt drop⟩
  · rintro ⟨set, keep⟩
    refine ⟨set, ?_⟩
    rintro ⟨i, same, drop⟩
    rw [Fin.ext same] at drop
    omega

@[simp] theorem cleanUpVersions_values (mvcc : MVCCObject R VERSIONS)
    (oldest : Nat) : (mvcc.cleanUpVersions oldest).values = mvcc.values :=
  foldl_cleanUpSlot_values oldest _ mvcc

theorem cleanUpVersions_cts {mvcc : MVCCObject R VERSIONS} {oldest : Nat}
    {p : Fin VERSIONS} (kept : oldest < mvcc.dts p) :
    (mvcc.cleanUpVersions oldest).cts p = mvcc.cts p := by
  rw [cts, cleanUpVersions_headers, if_neg (Nat.not_le.mpr kept), cts]

theorem cleanUpVersions_dts {mvcc : MVCCObject R VERSIONS} {oldest : Nat}
    {p : Fin VERSIONS} (kept : oldest < mvcc.dts p) :
    (mvcc.cleanUpVersions oldest).dts p = mvcc.dts p := by
  rw [dts, cleanUpVersions_headers, if_neg (Nat.not_le.mpr kept), dts]

/-- A clean-up keeps the versions that are valid at or after its bound. -/
theorem validAt_cleanUpVersions {mvcc : MVCCObject R VERSIONS}
    {oldest txnID : Nat} (later : oldest ≤ txnID) (p : Fin VERSIONS) :
    (mvcc.cleanUpVersions oldest).ValidAt txnID p ↔ mvcc.ValidAt txnID p := by
  unfold ValidAt
  rw [cleanUpVersions_isUsed]
  by_cases kept : oldest < mvcc.dts p
  · simp [kept, cleanUpVersions_cts kept, cleanUpVersions_dts kept]
  · constructor
    · rintro ⟨⟨_, impossible⟩, _⟩
      exact absurd impossible kept
    · rintro ⟨_, _, before⟩
      omega

theorem first_isUsed [Inhabited R] [NeZero VERSIONS] {txnID : Nat} {value : R}
    (few : VERSIONS ≤ 8) (p : Fin VERSIONS) :
    (first txnID value : MVCCObject R VERSIONS).isUsed p = decide (p = 0) := by
  have inside : p.val < 8 := by omega
  rw [isUsed_eq]
  have mask : (1#8).getLsbD p = (decide (p.val < 8) && decide (p.val = 0)) :=
    BitScan.getLsbD_one_shiftLeft 0 p
  rw [first, mask]
  simp only [inside, decide_true, Bool.true_and, decide_eq_decide]
  exact (Fin.ext_iff (b := 0)).symm

theorem first_headers [Inhabited R] [NeZero VERSIONS] {txnID : Nat} {value : R}
    (p : Fin VERSIONS) :
    (first txnID value : MVCCObject R VERSIONS).headers p =
      if p = 0 then { cts := txnID, dts := DTS_INF } else .blank := by
  simp [first, Function.update_apply]

theorem first_values [Inhabited R] [NeZero VERSIONS] {txnID : Nat} {value : R} :
    (first txnID value : MVCCObject R VERSIONS).values 0 = value := by
  simp [first]

end MVCCObject

end PipeFabric
