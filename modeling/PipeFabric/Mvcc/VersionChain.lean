import PipeFabric.Table.MVCCObject

/-!
# Version chains

The versions an object holds form a chain: their validity intervals are
disjoint, each ends where the next one starts, and the last one is open.  The
chain is kept by the first insert, by opening a version on top of the open one
and by every clean-up below infinity.
-/

namespace PipeFabric.MVCCObject

variable {R : Type} {VERSIONS : Nat}

/-- The slot holds a version with a nonempty validity interval. -/
def IsLive (mvcc : MVCCObject R VERSIONS) (p : Fin VERSIONS) : Prop :=
  mvcc.cts p < mvcc.dts p

/-- Slot `p` holds the open version. -/
def IsOpen (mvcc : MVCCObject R VERSIONS) (p : Fin VERSIONS) : Prop :=
  mvcc.IsLive p ∧ mvcc.dts p = DTS_INF

structure VersionChain (mvcc : MVCCObject R VERSIONS) : Prop where
  /-- The set bits are exactly the live slots. -/
  mask : ∀ k, mvcc.usedSlots.getLsbD k = true ↔
    ∃ p : Fin VERSIONS, p.val = k ∧ mvcc.IsLive p
  blank : ∀ p, ¬ mvcc.IsLive p → mvcc.headers p = .blank
  bounded : ∀ p, mvcc.dts p ≤ DTS_INF
  disjoint : ∀ p q, mvcc.IsLive p → mvcc.IsLive q → p ≠ q →
    mvcc.dts p ≤ mvcc.cts q ∨ mvcc.dts q ≤ mvcc.cts p
  consecutive : ∀ p, mvcc.IsLive p → mvcc.dts p ≠ DTS_INF →
    ∃ q, mvcc.IsLive q ∧ mvcc.cts q = mvcc.dts p
  opened : ∃ p, mvcc.IsOpen p

namespace VersionChain

variable {mvcc : MVCCObject R VERSIONS}

theorem isUsed (chain : mvcc.VersionChain) (p : Fin VERSIONS) :
    mvcc.isUsed p = true ↔ mvcc.IsLive p := by
  rw [isUsed_eq, chain.mask]
  constructor
  · rintro ⟨q, same, live⟩
    rwa [← Fin.ext same]
  · intro live
    exact ⟨p, rfl, live⟩

/-- Versions other than the open one end before it starts. -/
theorem dts_le_open (chain : mvcc.VersionChain) {p q : Fin VERSIONS}
    (isOpen : mvcc.IsOpen p) (live : mvcc.IsLive q) (different : q ≠ p) :
    mvcc.dts q ≤ mvcc.cts p := by
  rcases chain.disjoint q p live isOpen.1 different with before | after
  · exact before
  · have bound := chain.bounded q
    have interval := live
    unfold IsLive at interval
    rw [isOpen.2] at after
    omega

theorem open_unique (chain : mvcc.VersionChain) {p q : Fin VERSIONS}
    (left : mvcc.IsOpen p) (right : mvcc.IsOpen q) : p = q := by
  by_contra different
  have before := chain.dts_le_open right left.1 different
  have bound := chain.bounded q
  have interval := right.1
  unfold IsLive at interval
  rw [left.2] at before
  omega

/-- The open version is the newest one. -/
theorem cts_lt_open (chain : mvcc.VersionChain) {p q : Fin VERSIONS}
    (isOpen : mvcc.IsOpen p) (live : mvcc.IsLive q) (different : q ≠ p) :
    mvcc.cts q < mvcc.cts p :=
  Nat.lt_of_lt_of_le live (chain.dts_le_open isOpen live different)

theorem validAt_unique (chain : mvcc.VersionChain) {t : Nat}
    {p q : Fin VERSIONS} (left : mvcc.ValidAt t p) (right : mvcc.ValidAt t q) :
    p = q := by
  by_contra different
  have pLive := (chain.isUsed p).mp left.1
  have qLive := (chain.isUsed q).mp right.1
  have pStart := left.2.1
  have pEnd := left.2.2
  have qStart := right.2.1
  have qEnd := right.2.2
  rcases chain.disjoint p q pLive qLive different with before | after <;> omega

/-- The search finds the version valid at a timestamp, and nothing else. -/
theorem getCurrent_iff (chain : mvcc.VersionChain) {t : Nat}
    {p : Fin VERSIONS} :
    mvcc.getCurrent t = some p ↔
      mvcc.IsLive p ∧ mvcc.cts p ≤ t ∧ t < mvcc.dts p := by
  constructor
  · intro found
    have valid := getCurrent_validAt found
    exact ⟨(chain.isUsed p).mp valid.1, valid.2⟩
  · rintro ⟨live, interval⟩
    have valid : mvcc.ValidAt t p := ⟨(chain.isUsed p).mpr live, interval⟩
    exact getCurrent_eq_some valid fun q other => chain.validAt_unique other valid

theorem getCurrent_open (chain : mvcc.VersionChain) {t : Nat}
    {p : Fin VERSIONS} (isOpen : mvcc.IsOpen p) (started : mvcc.cts p ≤ t)
    (finite : t < DTS_INF) : mvcc.getCurrent t = some p := by
  apply chain.getCurrent_iff.mpr
  exact ⟨isOpen.1, started, by rw [isOpen.2]; exact finite⟩

theorem first [Inhabited R] [NeZero VERSIONS] {txnID : Nat} {value : R}
    (finite : txnID < DTS_INF) :
    (MVCCObject.first txnID value : MVCCObject R VERSIONS).VersionChain := by
  have live : ∀ p, (MVCCObject.first txnID value :
      MVCCObject R VERSIONS).IsLive p ↔ p = 0 := by
    intro p
    by_cases zero : p = 0
    · simpa [IsLive, cts, dts, first_headers, zero] using finite
    · simp [IsLive, cts, dts, first_headers, zero, Header.blank]
  refine ⟨?_, ?_, ?_, ?_, ?_, ?_⟩
  · intro k
    have mask : (1#8).getLsbD k = (decide (k < 8) && decide (k = 0)) :=
      BitScan.getLsbD_one_shiftLeft 0 k
    rw [MVCCObject.first, mask]
    constructor
    · intro set
      simp only [Bool.and_eq_true, decide_eq_true_eq] at set
      exact ⟨0, by simp [set.2], (live 0).mpr rfl⟩
    · rintro ⟨p, rfl, isLive⟩
      rw [(live p).mp isLive]
      simp
  · intro p dead
    rw [live] at dead
    simp [first_headers, dead]
  · intro p
    by_cases zero : p = 0 <;> simp [dts, first_headers, zero, Header.blank]
  · intro p q left right different
    rw [live] at left right
    exact absurd (left.trans right.symm) different
  · intro p isLive closed
    rw [live] at isLive
    simp [dts, first_headers, isLive] at closed
  · exact ⟨0, (live 0).mpr rfl, by simp [dts, first_headers]⟩

section NewEntry

variable {txnID : Nat} {iPos dPos : Fin VERSIONS} {value : R}

/-- The live slots after opening a version. -/
theorem newEntry_isLive (value : R)
    (isOpen : mvcc.IsOpen dPos) (free : ¬ mvcc.IsLive iPos)
    (newer : mvcc.cts dPos < txnID) (finite : txnID < DTS_INF)
    (p : Fin VERSIONS) :
    (mvcc.newEntry txnID iPos dPos value).IsLive p ↔
      mvcc.IsLive p ∨ p = iPos := by
  have apart : iPos ≠ dPos := fun same => free (same ▸ isOpen.1)
  unfold IsLive
  rw [newEntry_cts, newEntry_dts]
  by_cases opening : p = iPos
  · subst p
    simp [apart, finite]
  · by_cases closing : p = dPos
    · subst p
      have live := isOpen.1
      unfold IsLive at live
      simp [opening, newer, live]
    · simp [opening, closing]

theorem newEntry_isOpen
    (isOpen : mvcc.IsOpen dPos) (free : ¬ mvcc.IsLive iPos)
    (newer : mvcc.cts dPos < txnID) (finite : txnID < DTS_INF) :
    (mvcc.newEntry txnID iPos dPos value).IsOpen iPos := by
  have apart : iPos ≠ dPos := fun same => free (same ▸ isOpen.1)
  refine ⟨?_, ?_⟩
  · rw [newEntry_isLive value isOpen free newer finite]
    exact Or.inr rfl
  · rw [newEntry_dts]
    simp [apart]

/-- Opening a version in a free slot, on top of the open one. -/
theorem newEntry (few : VERSIONS ≤ 8) (chain : mvcc.VersionChain)
    (isOpen : mvcc.IsOpen dPos) (free : ¬ mvcc.IsLive iPos)
    (newer : mvcc.cts dPos < txnID) (finite : txnID < DTS_INF) :
    (mvcc.newEntry txnID iPos dPos value).VersionChain := by
  have apart : iPos ≠ dPos := fun same => free (same ▸ isOpen.1)
  have live := newEntry_isLive value isOpen free newer finite
  have olderEnds : ∀ p, mvcc.IsLive p → p ≠ dPos → mvcc.dts p < txnID := by
    intro p isLive different
    exact Nat.lt_of_le_of_lt (chain.dts_le_open isOpen isLive different) newer
  refine ⟨?_, ?_, ?_, ?_, ?_, ?_⟩
  · intro k
    rw [MVCCObject.newEntry, BitScan.getLsbD_set, Bool.or_eq_true, chain.mask]
    constructor
    · rintro (⟨p, same, isLive⟩ | bit)
      · exact ⟨p, same, (live p).mpr (Or.inl isLive)⟩
      · simp only [Bool.and_eq_true, decide_eq_true_eq] at bit
        exact ⟨iPos, bit.2.symm, (live iPos).mpr (Or.inr rfl)⟩
    · rintro ⟨p, rfl, isLive⟩
      rcases (live p).mp isLive with before | same
      · exact Or.inl ⟨p, rfl, before⟩
      · subst p
        have inside : iPos.val < 8 := by omega
        exact Or.inr (by simp [inside])
  · intro p dead
    rw [live, not_or] at dead
    have kept : p ≠ dPos := fun same => dead.1 (same ▸ isOpen.1)
    have same := chain.blank p dead.1
    simp [MVCCObject.newEntry, Function.update_apply, kept, dead.2, same]
  · intro p
    have bound := chain.bounded p
    rw [newEntry_dts]
    split
    · exact Nat.le_of_lt finite
    · split
      · exact le_refl DTS_INF
      · exact bound
  · intro p q left right different
    rw [live] at left right
    rw [newEntry_dts, newEntry_dts, newEntry_cts, newEntry_cts]
    rcases left with pLive | rfl <;> rcases right with qLive | rfl
    · have pOld : p ≠ iPos := fun same => free (same ▸ pLive)
      have qOld : q ≠ iPos := fun same => free (same ▸ qLive)
      simp only [pOld, qOld, if_false]
      by_cases pClosing : p = dPos
      · subst p
        right
        simpa [different.symm] using chain.dts_le_open isOpen qLive different.symm
      · by_cases qClosing : q = dPos
        · subst q
          left
          simpa [pClosing] using chain.dts_le_open isOpen pLive pClosing
        · simpa [pClosing, qClosing] using chain.disjoint p q pLive qLive different
    · left
      by_cases closing : p = dPos
      · simp [closing]
      · simpa [closing, different] using
          Nat.le_of_lt (olderEnds p pLive closing)
    · right
      by_cases closing : q = dPos
      · simp [closing]
      · simpa [closing, different.symm] using
          Nat.le_of_lt (olderEnds q qLive closing)
    · exact absurd rfl different
  · intro p isLive closed
    rw [live] at isLive
    rw [newEntry_dts] at closed ⊢
    by_cases closing : p = dPos
    · refine ⟨iPos, (live iPos).mpr (Or.inr rfl), ?_⟩
      rw [newEntry_cts]
      simp [closing]
    · rcases isLive with before | same
      · have old : p ≠ iPos := fun same => free (same ▸ before)
        simp only [closing, old, if_false] at closed ⊢
        obtain ⟨q, qLive, meets⟩ := chain.consecutive p before closed
        have qOld : q ≠ iPos := fun same => free (same ▸ qLive)
        refine ⟨q, (live q).mpr (Or.inl qLive), ?_⟩
        rw [newEntry_cts]
        simpa [qOld] using meets
      · simp [same, apart] at closed
  · exact ⟨iPos, newEntry_isOpen isOpen free newer finite⟩

end NewEntry

section CleanUp

variable {oldest : Nat}

theorem cleanUpVersions_isLive (p : Fin VERSIONS) :
    (mvcc.cleanUpVersions oldest).IsLive p ↔
      mvcc.IsLive p ∧ oldest < mvcc.dts p := by
  by_cases kept : oldest < mvcc.dts p
  · simp [IsLive, cleanUpVersions_cts kept, cleanUpVersions_dts kept, kept]
  · have blank : (mvcc.cleanUpVersions oldest).headers p = .blank := by
      rw [cleanUpVersions_headers, if_pos (Nat.le_of_not_lt kept)]
    simp [IsLive, cts, dts, blank, Header.blank]
    intro _
    exact Nat.le_of_not_lt kept

theorem cleanUpVersions_isOpen (finite : oldest < DTS_INF) (p : Fin VERSIONS) :
    (mvcc.cleanUpVersions oldest).IsOpen p ↔ mvcc.IsOpen p := by
  unfold IsOpen
  rw [cleanUpVersions_isLive]
  by_cases kept : oldest < mvcc.dts p
  · simp [cleanUpVersions_dts kept, kept]
  · constructor
    · rintro ⟨⟨_, impossible⟩, _⟩
      exact absurd impossible kept
    · rintro ⟨_, infinite⟩
      rw [infinite] at kept
      exact absurd finite kept

/-- A clean-up drops a prefix of the chain and never the open version. -/
theorem cleanUpVersions (chain : mvcc.VersionChain) (finite : oldest < DTS_INF) :
    (mvcc.cleanUpVersions oldest).VersionChain := by
  have live : ∀ p, (mvcc.cleanUpVersions oldest).IsLive p ↔
      mvcc.IsLive p ∧ oldest < mvcc.dts p := cleanUpVersions_isLive
  refine ⟨?_, ?_, ?_, ?_, ?_, ?_⟩
  · intro k
    rw [cleanUpVersions_mask, Bool.and_eq_true, chain.mask,
      Bool.not_eq_true', decide_eq_false_iff_not]
    constructor
    · rintro ⟨⟨p, rfl, isLive⟩, keep⟩
      refine ⟨p, rfl, (live p).mpr ⟨isLive, ?_⟩⟩
      by_contra drop
      exact keep ⟨p, rfl, Nat.le_of_not_lt drop⟩
    · rintro ⟨p, rfl, isLive⟩
      obtain ⟨before, kept⟩ := (live p).mp isLive
      refine ⟨⟨p, rfl, before⟩, ?_⟩
      rintro ⟨q, same, drop⟩
      rw [Fin.ext same] at drop
      omega
  · intro p dead
    rw [cleanUpVersions_headers]
    split
    · rfl
    case isFalse kept =>
      apply chain.blank
      intro isLive
      exact dead ((live p).mpr ⟨isLive, Nat.lt_of_not_le kept⟩)
  · intro p
    rw [dts, cleanUpVersions_headers]
    split
    · exact Nat.zero_le _
    · exact chain.bounded p
  · intro p q left right different
    obtain ⟨pLive, pKept⟩ := (live p).mp left
    obtain ⟨qLive, qKept⟩ := (live q).mp right
    rw [cleanUpVersions_cts pKept, cleanUpVersions_cts qKept,
      cleanUpVersions_dts pKept, cleanUpVersions_dts qKept]
    exact chain.disjoint p q pLive qLive different
  · intro p isLive closed
    obtain ⟨before, kept⟩ := (live p).mp isLive
    rw [cleanUpVersions_dts kept] at closed ⊢
    obtain ⟨q, qLive, meets⟩ := chain.consecutive p before closed
    have qKept : oldest < mvcc.dts q := by
      unfold IsLive at qLive
      omega
    refine ⟨q, (live q).mpr ⟨qLive, qKept⟩, ?_⟩
    rw [cleanUpVersions_cts qKept]
    exact meets
  · obtain ⟨p, isOpen⟩ := chain.opened
    exact ⟨p, (cleanUpVersions_isOpen finite p).mpr isOpen⟩

end CleanUp

end VersionChain

end PipeFabric.MVCCObject
