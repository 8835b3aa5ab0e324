import Mathlib.Data.Multiset.Bind
import PipeFabric.Library.ChangeStream

/-!
# Maintained views

A burst of changes leads from one multiset of live elements to another.  The rules
below are about such bursts as rules of a program logic are about commands: bursts
are put one after the other, framed by elements they do not touch, and sent through
an operator that replaces every element by its image.
-/

namespace ChangeStream

variable {α β : Type} [DecidableEq α] [DecidableEq β]

/-- The changes lead from the live elements `before` to the live elements `after`, and
never retract an element that is not live. -/
structure Leads (before : Multiset α) (changes : List (Change α)) (after : Multiset α) :
    Prop where
  retractsLive : RetractsLive before changes
  reached : changes.foldl applyChange before = after

variable {before between after : Multiset α} {changes later : List (Change α)}

/-- A stream maintains a view when it leads to the view from nothing. -/
theorem leads_iff : Leads 0 changes after ↔ WellFormed changes ∧ live changes = after :=
  ⟨fun leads => ⟨leads.1, leads.2⟩, fun both => ⟨both.1, both.2⟩⟩

theorem Leads.wellFormed (leads : Leads 0 changes after) : WellFormed changes :=
  leads.retractsLive

theorem Leads.live_eq (leads : Leads 0 changes after) : live changes = after :=
  leads.reached

theorem WellFormed.leads (wellFormed : WellFormed changes) : Leads 0 changes (live changes) :=
  ⟨wellFormed, rfl⟩

@[simp]
theorem leads_nil : Leads before ([] : List (Change α)) after ↔ before = after :=
  ⟨fun leads => leads.reached, fun same => ⟨trivial, same⟩⟩

theorem leads_cons_new {data : α} :
    Leads before (⟨data, false⟩ :: changes) after ↔
      Leads (data ::ₘ before) changes after := by
  constructor
  · intro leads
    exact ⟨leads.retractsLive.2, leads.reached⟩
  · intro leads
    refine ⟨⟨?_, leads.retractsLive⟩, leads.reached⟩
    intro outdated
    cases outdated

theorem leads_cons_outdated {data : α} :
    Leads before (⟨data, true⟩ :: changes) after ↔
      data ∈ before ∧ Leads (before.erase data) changes after := by
  constructor
  · intro leads
    exact ⟨leads.retractsLive.1 rfl, leads.retractsLive.2, leads.reached⟩
  · intro both
    exact ⟨⟨fun _ => both.1, both.2.retractsLive⟩, both.2.reached⟩

theorem leads_append_iff :
    Leads before (changes ++ later) after ↔
      ∃ between, Leads before changes between ∧ Leads between later after := by
  constructor
  · intro leads
    obtain ⟨first, second⟩ := (retractsLive_append _ _ _).mp leads.retractsLive
    refine ⟨_, ⟨first, rfl⟩, second, ?_⟩
    rw [← List.foldl_append]
    exact leads.reached
  · intro both
    obtain ⟨between, first, second⟩ := both
    refine ⟨(retractsLive_append _ _ _).mpr ⟨first.retractsLive, ?_⟩, ?_⟩
    · rw [first.reached]
      exact second.retractsLive
    · rw [List.foldl_append, first.reached]
      exact second.reached

/-- One burst after the other. -/
theorem Leads.append (first : Leads before changes between)
    (second : Leads between later after) : Leads before (changes ++ later) after :=
  leads_append_iff.mpr ⟨between, first, second⟩

/-- Where a stream goes on, it leads on from its live elements. -/
theorem WellFormed.leads_rest (wellFormed : WellFormed (changes ++ later)) :
    Leads (live changes) later (live (changes ++ later)) := by
  obtain ⟨_, second⟩ := (wellFormed_append _ _).mp wellFormed
  exact ⟨second, (live_append changes later).symm⟩

/-- Elements that are live besides stay live. -/
theorem Leads.frame (leads : Leads before changes after) (besides : Multiset α) :
    Leads (before + besides) changes (after + besides) := by
  induction changes generalizing before with
  | nil => simpa using leads
  | cons change changes induction =>
      obtain ⟨data, outdated⟩ := change
      cases outdated with
      | false =>
          rw [leads_cons_new] at leads ⊢
          rw [← Multiset.cons_add]
          exact induction leads
      | true =>
          rw [leads_cons_outdated] at leads ⊢
          obtain ⟨present, rest⟩ := leads
          refine ⟨Multiset.mem_add.mpr (.inl present), ?_⟩
          rw [Multiset.erase_add_left_pos besides present]
          exact induction rest

theorem leads_insertAll (elements : List α) (before : Multiset α) :
    Leads before (insertAll elements) ((elements : Multiset α) + before) := by
  induction elements generalizing before with
  | nil => simp
  | cons data elements induction =>
      have rest := induction (data ::ₘ before)
      rw [Multiset.add_cons, ← Multiset.cons_add, Multiset.cons_coe] at rest
      exact leads_cons_new.mpr rest

theorem leads_retractAll (elements : List α) (after : Multiset α) :
    Leads ((elements : Multiset α) + after) (retractAll elements) after := by
  induction elements generalizing after with
  | nil => simp
  | cons data elements induction =>
      rw [retractAll_cons, leads_cons_outdated, ← Multiset.cons_coe, Multiset.cons_add,
        Multiset.erase_cons_head]
      exact ⟨Multiset.mem_cons_self _ _, induction after⟩

theorem Leads.before_eq {elements : List α}
    (leads : Leads before (retractAll elements) after) :
    before = (elements : Multiset α) + after := by
  induction elements generalizing before with
  | nil =>
      rw [Multiset.coe_nil, zero_add]
      exact leads_nil.mp leads
  | cons data elements induction =>
      obtain ⟨present, rest⟩ := leads_cons_outdated.mp leads
      rw [← Multiset.cons_coe, Multiset.cons_add, ← induction rest,
        Multiset.cons_erase present]

/-- An operator publishes for every new element its image, and retracts the image with
the element. -/
structure Replaces (replace : Change α → List (Change β)) (image : α → Multiset β) :
    Prop where
  inserts : ∀ data held, Leads held (replace ⟨data, false⟩) (image data + held)
  retracts : ∀ data held, Leads (image data + held) (replace ⟨data, true⟩) held

/-- What such an operator publishes leads from the images of the live elements to
those of the elements that are live then. -/
theorem Leads.flatMap {replace : Change α → List (Change β)} {image : α → Multiset β}
    (replaces : Replaces replace image) (leads : Leads before changes after) :
    Leads (before.bind image) (changes.flatMap replace) (after.bind image) := by
  induction changes generalizing before with
  | nil =>
      rw [leads_nil.mp leads]
      exact leads_nil.mpr rfl
  | cons change changes induction =>
      obtain ⟨data, outdated⟩ := change
      rw [List.flatMap_cons]
      cases outdated with
      | false =>
          have rest := induction (leads_cons_new.mp leads)
          rw [Multiset.cons_bind] at rest
          exact (replaces.inserts data _).append rest
      | true =>
          obtain ⟨present, remaining⟩ := leads_cons_outdated.mp leads
          have rest := induction remaining
          have first := replaces.retracts data ((before.erase data).bind image)
          rw [← Multiset.cons_bind, Multiset.cons_erase present] at first
          exact first.append rest

/-! ### Streams without duplicates -/

/-- No element is ever live twice on the way. -/
def NeverTwice (before : Multiset α) (changes : List (Change α)) : Prop :=
  ∀ earlier, earlier <+: changes → (earlier.foldl applyChange before).Nodup

theorem neverTwice_nil : NeverTwice before ([] : List (Change α)) ↔ before.Nodup := by
  constructor
  · intro never
    exact never [] List.prefix_rfl
  · intro nodup earlier start
    rw [List.prefix_nil.mp start]
    exact nodup

theorem neverTwice_cons {change : Change α} :
    NeverTwice before (change :: changes) ↔
      before.Nodup ∧ NeverTwice (applyChange before change) changes := by
  constructor
  · intro never
    refine ⟨never [] List.nil_prefix, ?_⟩
    intro earlier start
    exact never (change :: earlier) (List.cons_prefix_cons.mpr ⟨rfl, start⟩)
  · intro both earlier start
    cases earlier with
    | nil => exact both.1
    | cons first earlier =>
        obtain ⟨rfl, rest⟩ := List.cons_prefix_cons.mp start
        exact both.2 earlier rest

theorem neverTwice_append :
    NeverTwice before (changes ++ later) ↔
      NeverTwice before changes ∧
        NeverTwice (changes.foldl applyChange before) later := by
  induction changes generalizing before with
  | nil =>
      rw [List.nil_append, neverTwice_nil, List.foldl_nil, iff_and_self]
      intro never
      exact never [] List.nil_prefix
  | cons change changes induction =>
      rw [List.cons_append, neverTwice_cons, induction, neverTwice_cons, and_assoc]
      rfl

theorem neverTwice_insertAll {elements : List α}
    (nodup : ((elements : Multiset α) + before).Nodup) :
    NeverTwice before (insertAll elements) := by
  induction elements generalizing before with
  | nil =>
      rw [Multiset.coe_nil, zero_add] at nodup
      exact neverTwice_nil.mpr nodup
  | cons data elements induction =>
      apply neverTwice_cons.mpr
      constructor
      · exact Multiset.nodup_of_le (Multiset.le_add_left _ _) nodup
      · apply induction
        rw [← Multiset.cons_coe, Multiset.cons_add, ← Multiset.add_cons] at nodup
        exact nodup

theorem neverTwice_retractAll {elements : List α}
    (nodup : ((elements : Multiset α) + after).Nodup) :
    NeverTwice ((elements : Multiset α) + after) (retractAll elements) := by
  induction elements with
  | nil => exact neverTwice_nil.mpr nodup
  | cons data elements induction =>
      apply neverTwice_cons.mpr
      refine ⟨nodup, ?_⟩
      rw [← Multiset.cons_coe, Multiset.cons_add] at nodup ⊢
      simp only [applyChange, if_true, Multiset.erase_cons_head]
      exact induction (Multiset.nodup_cons.mp nodup).2

/-- The retraction of an element that is live once leaves none. -/
theorem NeverTwice.insertedSince_eq_count (never : NeverTwice 0 changes) (data : α) :
    insertedSince data changes = (live changes).count data := by
  induction changes using List.reverseRecOn with
  | nil => rfl
  | append_singleton changes change induction =>
      have before := (neverTwice_append.mp never).1
      have nodup := never changes (List.prefix_append _ _)
      have once : (live changes).count change.data ≤ 1 :=
        Multiset.nodup_iff_count_le_one.mp nodup change.data
      obtain ⟨other, outdated⟩ := change
      rw [insertedSince_concat, induction before]
      cases outdated with
      | false =>
          rw [live_concat_new, Multiset.count_cons]
          by_cases same : other = data
          · simp [same]
          · simp [same, Ne.symm same]
      | true =>
          rw [live_concat_outdated]
          by_cases same : other = data
          · subst same
            simp only [if_true, Multiset.count_erase_self]
            dsimp only at once
            omega
          · simp only [same, if_false, Multiset.count_erase_of_ne (Ne.symm same)]

omit [DecidableEq α] [DecidableEq β] in
/-- Where every element is replaced by at most one, an initial part of the output comes
from an initial part of the input. -/
theorem prefix_flatMap {replace : Change α → List (Change β)} {part : List (Change β)}
    (single : ∀ change, (replace change).length ≤ 1)
    (start : part <+: changes.flatMap replace) :
    ∃ earlier, earlier <+: changes ∧ part = earlier.flatMap replace := by
  induction changes generalizing part with
  | nil => exact ⟨[], List.prefix_rfl, List.prefix_nil.mp start⟩
  | cons change changes induction =>
      cases part with
      | nil => exact ⟨[], List.nil_prefix, rfl⟩
      | cons first part =>
          rw [List.flatMap_cons] at start
          have short := single change
          cases replaced : replace change with
          | nil =>
              rw [replaced, List.nil_append] at start
              obtain ⟨earlier, inside, same⟩ := induction start
              refine ⟨change :: earlier, List.cons_prefix_cons.mpr ⟨rfl, inside⟩, ?_⟩
              rw [List.flatMap_cons, replaced, List.nil_append, same]
          | cons only others =>
              rw [replaced, List.length_cons] at short
              obtain rfl : others = [] := List.eq_nil_of_length_eq_zero (by omega)
              rw [replaced, List.singleton_append] at start
              obtain ⟨rfl, rest⟩ := List.cons_prefix_cons.mp start
              obtain ⟨earlier, inside, rfl⟩ := induction rest
              refine ⟨change :: earlier, List.cons_prefix_cons.mpr ⟨rfl, inside⟩, ?_⟩
              rw [List.flatMap_cons, replaced, List.singleton_append]

/-- An operator that replaces different elements by different images makes no
duplicates. -/
theorem NeverTwice.flatMap {replace : Change α → List (Change β)} {image : α → Multiset β}
    (replaces : Replaces replace image) (single : ∀ change, (replace change).length ≤ 1)
    (wellFormed : WellFormed changes)
    (never : ∀ earlier, earlier <+: changes → ((live earlier).bind image).Nodup) :
    NeverTwice 0 (changes.flatMap replace) := by
  intro part start
  obtain ⟨earlier, inside, rfl⟩ := prefix_flatMap single start
  have replaced := (wellFormed.truncate inside).leads.flatMap replaces
  rw [Multiset.zero_bind] at replaced
  rw [replaced.reached]
  exact never earlier inside

/-- First in, first out, elements that are all different are never live twice. -/
theorem FirstInFirstOut.neverTwice (ordered : FirstInFirstOut changes)
    (nodup : (insertions changes).Nodup) : NeverTwice 0 changes := by
  intro earlier start
  have inside := (ordered.truncate start).live_eq
  have part := insertions_mono start
  change (live earlier).Nodup
  rw [inside, Multiset.coe_nodup]
  exact (nodup.sublist part.sublist).sublist (List.drop_sublist _ _)

end ChangeStream
