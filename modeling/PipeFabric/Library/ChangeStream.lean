import Mathlib.Data.List.Induction
import Mathlib.Data.List.Infix
import Mathlib.Data.Multiset.AddSub
import Mathlib.Data.Multiset.Count
import Mathlib.Data.Multiset.Dedup

/-!
# Streams of insertions and retractions

A change either inserts an element or retracts one that was inserted before.
Applying the changes of a stream one after the other gives the multiset of live
elements; the stream is well formed when it never retracts an element that is
not live.
-/

/-- One element of a change stream; `outdated` marks a retraction. -/
structure Change (α : Type) where
  data : α
  outdated : Bool
  deriving DecidableEq

namespace ChangeStream

variable {α : Type}

/-- The inserted elements in their order. -/
def insertions (changes : List (Change α)) : List α :=
  changes.filterMap fun change =>
    if change.outdated then none else some change.data

/-- The retracted elements in their order. -/
def retractions (changes : List (Change α)) : List α :=
  changes.filterMap fun change =>
    if change.outdated then some change.data else none

@[simp] theorem insertions_nil : insertions ([] : List (Change α)) = [] := rfl

@[simp] theorem retractions_nil : retractions ([] : List (Change α)) = [] := rfl

@[simp] theorem insertions_append (changes later : List (Change α)) :
    insertions (changes ++ later) = insertions changes ++ insertions later :=
  List.filterMap_append

theorem insertions_mono {earlier changes : List (Change α)} (start : earlier <+: changes) :
    insertions earlier <+: insertions changes := by
  obtain ⟨later, rfl⟩ := start
  rw [insertions_append]
  exact List.prefix_append _ _

@[simp] theorem retractions_append (changes later : List (Change α)) :
    retractions (changes ++ later) = retractions changes ++ retractions later :=
  List.filterMap_append

@[simp] theorem insertions_cons_new (data : α) (changes : List (Change α)) :
    insertions (⟨data, false⟩ :: changes) = data :: insertions changes := rfl

@[simp] theorem insertions_cons_outdated (data : α) (changes : List (Change α)) :
    insertions (⟨data, true⟩ :: changes) = insertions changes := rfl

@[simp] theorem retractions_cons_new (data : α) (changes : List (Change α)) :
    retractions (⟨data, false⟩ :: changes) = retractions changes := rfl

@[simp] theorem retractions_cons_outdated (data : α) (changes : List (Change α)) :
    retractions (⟨data, true⟩ :: changes) = data :: retractions changes := rfl

/-- A run of retractions. -/
def retractAll (elements : List α) : List (Change α) :=
  elements.map fun data => ⟨data, true⟩

@[simp] theorem retractAll_nil : retractAll ([] : List α) = [] := rfl

@[simp] theorem retractAll_cons (data : α) (elements : List α) :
    retractAll (data :: elements) = ⟨data, true⟩ :: retractAll elements := rfl

@[simp] theorem insertions_retractAll (elements : List α) :
    insertions (retractAll elements) = [] := by
  induction elements with
  | nil => rfl
  | cons data elements induction => simpa using induction

@[simp] theorem retractions_retractAll (elements : List α) :
    retractions (retractAll elements) = elements := by
  induction elements with
  | nil => rfl
  | cons data elements induction => simpa using induction

/-- Elements are retracted in the order in which they were inserted, each at most
once and only after its insertion: at every point of the stream the retracted
elements are an initial part of the inserted ones. -/
def FirstInFirstOut (changes : List (Change α)) : Prop :=
  ∀ earlier, earlier <+: changes → retractions earlier <+: insertions earlier

theorem firstInFirstOut_nil : FirstInFirstOut ([] : List (Change α)) := by
  intro earlier start
  rw [List.prefix_nil.mp start]
  exact List.prefix_rfl

theorem FirstInFirstOut.concat_new {changes : List (Change α)}
    (ordered : FirstInFirstOut changes) (data : α) :
    FirstInFirstOut (changes ++ [⟨data, false⟩]) := by
  intro earlier start
  rcases List.prefix_concat_iff.mp start with whole | before
  · subst whole
    simp only [retractions_append, retractions_cons_new, retractions_nil,
      List.append_nil, insertions_append]
    exact (ordered changes List.prefix_rfl).trans (List.prefix_append _ _)
  · exact ordered earlier before

theorem FirstInFirstOut.append_retractAll {changes : List (Change α)}
    (ordered : FirstInFirstOut changes) {elements : List α}
    (next : retractions changes ++ elements <+: insertions changes) :
    FirstInFirstOut (changes ++ retractAll elements) := by
  induction elements using List.reverseRecOn with
  | nil => simpa using ordered
  | append_singleton elements data induction =>
      have split : changes ++ retractAll (elements ++ [data]) =
          (changes ++ retractAll elements) ++ [⟨data, true⟩] := by
        simp [retractAll]
      rw [← List.append_assoc] at next
      intro earlier start
      rw [split] at start
      rcases List.prefix_concat_iff.mp start with whole | before
      · subst whole
        simpa using next
      · exact induction ((List.prefix_append _ _).trans next) earlier before

/-- A run of insertions. -/
def insertAll (elements : List α) : List (Change α) :=
  elements.map fun data => ⟨data, false⟩

@[simp] theorem insertAll_nil : insertAll ([] : List α) = [] := rfl

@[simp] theorem insertAll_append (elements later : List α) :
    insertAll (elements ++ later) = insertAll elements ++ insertAll later :=
  List.map_append

@[simp] theorem insertAll_singleton (data : α) :
    insertAll [data] = [⟨data, false⟩] := rfl

@[simp] theorem insertions_insertAll (elements : List α) :
    insertions (insertAll elements) = elements := by
  induction elements with
  | nil => rfl
  | cons data elements induction =>
      unfold insertAll at *
      simpa using induction

@[simp] theorem retractions_insertAll (elements : List α) :
    retractions (insertAll elements) = [] := by
  induction elements with
  | nil => rfl
  | cons data elements induction =>
      unfold insertAll at *
      simpa using induction

variable [DecidableEq α]

/-- What a change does to the live elements. -/
def applyChange (live : Multiset α) (change : Change α) : Multiset α :=
  if change.outdated then live.erase change.data else change.data ::ₘ live

/-- The live elements after the changes. -/
def live (changes : List (Change α)) : Multiset α :=
  changes.foldl applyChange 0

/-- Every retraction removes an element that is live, starting with the
elements of `held`. -/
def RetractsLive (held : Multiset α) : List (Change α) → Prop
  | [] => True
  | change :: changes =>
      (change.outdated = true → change.data ∈ held) ∧
        RetractsLive (applyChange held change) changes

instance decidableRetractsLive (held : Multiset α) (changes : List (Change α)) :
    Decidable (RetractsLive held changes) :=
  match changes with
  | [] => inferInstanceAs (Decidable True)
  | change :: changes =>
      have := decidableRetractsLive (applyChange held change) changes
      inferInstanceAs (Decidable (_ ∧ _))

/-- Every element is retracted only after it was inserted, and at most as often
as it was inserted. -/
def WellFormed (changes : List (Change α)) : Prop := RetractsLive 0 changes

instance (changes : List (Change α)) : Decidable (WellFormed changes) :=
  inferInstanceAs (Decidable (RetractsLive 0 changes))

@[simp] theorem live_nil : live ([] : List (Change α)) = 0 := rfl

theorem live_append (changes later : List (Change α)) :
    live (changes ++ later) = later.foldl applyChange (live changes) :=
  List.foldl_append

@[simp] theorem live_concat_new (changes : List (Change α)) (data : α) :
    live (changes ++ [⟨data, false⟩]) = data ::ₘ live changes := by
  rw [live_append]
  rfl

@[simp] theorem live_concat_outdated (changes : List (Change α)) (data : α) :
    live (changes ++ [⟨data, true⟩]) = (live changes).erase data := by
  rw [live_append]
  rfl

theorem card_live_le (changes : List (Change α)) :
    (live changes).card ≤ changes.length := by
  induction changes using List.reverseRecOn with
  | nil => exact le_refl 0
  | append_singleton changes change induction =>
      rw [live_append, List.length_append, List.length_singleton]
      simp only [List.foldl_cons, List.foldl_nil, applyChange]
      split
      · have fewer := Multiset.card_erase_le (a := change.data)
          (s := live changes)
        omega
      · rw [Multiset.card_cons]
        omega

theorem wellFormed_nil : WellFormed ([] : List (Change α)) := trivial

theorem retractsLive_append (held : Multiset α) (changes later : List (Change α)) :
    RetractsLive held (changes ++ later) ↔
      RetractsLive held changes ∧
        RetractsLive (changes.foldl applyChange held) later := by
  induction changes generalizing held with
  | nil => simp [RetractsLive]
  | cons change changes induction =>
      simp only [List.cons_append, RetractsLive, induction, List.foldl_cons,
        and_assoc]

theorem wellFormed_append (changes later : List (Change α)) :
    WellFormed (changes ++ later) ↔
      WellFormed changes ∧ RetractsLive (live changes) later :=
  retractsLive_append 0 changes later

theorem WellFormed.truncate {earlier changes : List (Change α)}
    (wellFormed : WellFormed changes) (start : earlier <+: changes) :
    WellFormed earlier := by
  obtain ⟨later, rfl⟩ := start
  exact ((wellFormed_append earlier later).mp wellFormed).1

@[simp] theorem wellFormed_concat_new (changes : List (Change α)) (data : α) :
    WellFormed (changes ++ [⟨data, false⟩]) ↔ WellFormed changes := by
  rw [wellFormed_append]
  simp [RetractsLive]

theorem wellFormed_insertAll (elements : List α) :
    WellFormed (insertAll elements) := by
  induction elements using List.reverseRecOn with
  | nil => exact wellFormed_nil
  | append_singleton elements data induction =>
      rw [insertAll_append, insertAll_singleton, wellFormed_concat_new]
      exact induction

theorem wellFormed_concat_outdated (changes : List (Change α)) (data : α) :
    WellFormed (changes ++ [⟨data, true⟩]) ↔
      WellFormed changes ∧ data ∈ live changes := by
  rw [wellFormed_append]
  simp [RetractsLive]

/-- A change of a well formed stream adds its element to the live ones or takes it
from them. -/
theorem WellFormed.live_concat {changes : List (Change α)} {change : Change α}
    (wellFormed : WellFormed (changes ++ [change])) :
    if change.outdated then
      live changes = change.data ::ₘ live (changes ++ [change])
    else live (changes ++ [change]) = change.data ::ₘ live changes := by
  obtain ⟨data, outdated⟩ := change
  cases outdated with
  | false => simp
  | true =>
      have present := ((wellFormed_concat_outdated _ _).mp wellFormed).2
      simp only [if_true, live_concat_outdated, Multiset.cons_erase present]

/-- In a well formed stream every element is live as often as it was inserted and
not retracted. -/
theorem WellFormed.count_live {changes : List (Change α)}
    (wellFormed : WellFormed changes) (data : α) :
    (live changes).count data + (retractions changes).count data =
      (insertions changes).count data := by
  induction changes using List.reverseRecOn with
  | nil => rfl
  | append_singleton changes change induction =>
      obtain ⟨other, outdated⟩ := change
      cases outdated with
      | false =>
          have balance := induction ((wellFormed_concat_new _ _).mp wellFormed)
          rw [live_concat_new, Multiset.count_cons]
          simp only [insertions_append, retractions_append, insertions_cons_new,
            insertions_nil, retractions_cons_new, retractions_nil,
            List.append_nil, List.count_append, List.count_singleton, beq_iff_eq]
          by_cases same : data = other
          · subst same
            simp only [if_true]
            omega
          · have different : ¬ other = data := fun equal => same equal.symm
            simp only [same, different, if_false]
            omega
      | true =>
          obtain ⟨before, present⟩ :=
            (wellFormed_concat_outdated _ _).mp wellFormed
          have balance := induction before
          simp only [live_concat_outdated, insertions_append,
            retractions_append, insertions_cons_outdated, insertions_nil,
            retractions_cons_outdated, retractions_nil, List.append_nil,
            List.count_append]
          by_cases same : data = other
          · subst same
            have positive := Multiset.count_pos.mpr present
            rw [Multiset.count_erase_self, List.count_singleton_self]
            omega
          · rw [Multiset.count_erase_of_ne same,
              List.count_singleton, if_neg (by simpa using Ne.symm same)]
            omega

/-- The live elements and the retracted ones make up the inserted ones. -/
theorem WellFormed.live_add_retractions {changes : List (Change α)}
    (wellFormed : WellFormed changes) :
    live changes + (retractions changes : Multiset α) =
      (insertions changes : Multiset α) := by
  ext data
  rw [Multiset.count_add, Multiset.coe_count, Multiset.coe_count]
  exact wellFormed.count_live data

theorem WellFormed.card_live {changes : List (Change α)}
    (wellFormed : WellFormed changes) :
    (live changes).card + (retractions changes).length =
      (insertions changes).length := by
  have balance := congrArg Multiset.card wellFormed.live_add_retractions
  simpa using balance

/-- What a well formed stream may retract next. -/
theorem WellFormed.mem_live_iff {changes : List (Change α)}
    (wellFormed : WellFormed changes) (data : α) :
    data ∈ live changes ↔
      (retractions changes).count data < (insertions changes).count data := by
  have balance := wellFormed.count_live data
  rw [← Multiset.count_pos]
  omega

omit [DecidableEq α] in
theorem FirstInFirstOut.truncate {earlier changes : List (Change α)}
    (ordered : FirstInFirstOut changes) (start : earlier <+: changes) :
    FirstInFirstOut earlier := by
  intro part inside
  exact ordered part (inside.trans start)

theorem FirstInFirstOut.wellFormed {changes : List (Change α)}
    (ordered : FirstInFirstOut changes) : WellFormed changes := by
  induction changes using List.reverseRecOn with
  | nil => exact wellFormed_nil
  | append_singleton changes change induction =>
      have before : WellFormed changes :=
        induction fun earlier start =>
          ordered earlier (start.trans (List.prefix_append _ _))
      obtain ⟨data, outdated⟩ := change
      cases outdated with
      | false => exact (wellFormed_concat_new changes data).mpr before
      | true =>
          have next := ordered _ List.prefix_rfl
          simp only [retractions_append, retractions_cons_outdated,
            retractions_nil, insertions_append, insertions_cons_outdated,
            insertions_nil, List.append_nil] at next
          have counted := next.sublist.count_le data
          rw [List.count_append, List.count_singleton_self] at counted
          rw [wellFormed_concat_outdated, before.mem_live_iff]
          exact ⟨before, counted⟩

/-- First in, first out, the live elements are the last ones inserted. -/
theorem FirstInFirstOut.live_eq {changes : List (Change α)}
    (ordered : FirstInFirstOut changes) :
    live changes = (((insertions changes).drop (retractions changes).length :
      List α) : Multiset α) := by
  have balance := ordered.wellFormed.live_add_retractions
  obtain ⟨rest, split⟩ := ordered changes List.prefix_rfl
  rw [← split] at balance ⊢
  rw [List.drop_left]
  rw [← Multiset.coe_add, Multiset.add_comm] at balance
  exact Multiset.add_right_inj.mp balance

/-- Retracting several elements after a well formed stream keeps it well formed
when none of them is retracted more often than it was inserted. -/
theorem wellFormed_append_retractAll (changes : List (Change α))
    (elements : List α) :
    WellFormed (changes ++ retractAll elements) ↔
      WellFormed changes ∧ ∀ data ∈ elements,
        (retractions changes ++ elements).count data ≤
          (insertions changes).count data := by
  induction elements using List.reverseRecOn with
  | nil => simp
  | append_singleton elements data induction =>
      have split : changes ++ retractAll (elements ++ [data]) =
          (changes ++ retractAll elements) ++ [⟨data, true⟩] := by
        simp [retractAll]
      rw [split, wellFormed_concat_outdated, induction]
      constructor
      · rintro ⟨⟨before, covered⟩, present⟩
        refine ⟨before, ?_⟩
        have whole : WellFormed (changes ++ retractAll elements) :=
          induction.mpr ⟨before, covered⟩
        rw [whole.mem_live_iff] at present
        simp only [retractions_append, retractions_retractAll,
          insertions_append, insertions_retractAll, List.append_nil] at present
        intro other member
        rcases List.mem_append.mp member with earlier | last
        · by_cases same : other = data
          · subst same
            rw [← List.append_assoc, List.count_append, List.count_singleton_self]
            exact present
          · rw [← List.append_assoc, List.count_append,
              List.count_singleton, if_neg (by simpa using Ne.symm same)]
            exact covered other earlier
        · rw [List.mem_singleton] at last
          subst last
          rw [← List.append_assoc, List.count_append, List.count_singleton_self]
          exact present
      · rintro ⟨before, covered⟩
        have earlier : ∀ other ∈ elements,
            (retractions changes ++ elements).count other ≤
              (insertions changes).count other := by
          intro other member
          refine le_trans ?_ (covered other (List.mem_append_left _ member))
          rw [← List.append_assoc]
          exact (List.sublist_append_left _ _).count_le _
        have whole : WellFormed (changes ++ retractAll elements) :=
          induction.mpr ⟨before, earlier⟩
        refine ⟨⟨before, earlier⟩, ?_⟩
        rw [whole.mem_live_iff]
        have last := covered data (by simp)
        simp only [List.count_append, List.count_singleton_self] at last
        simp only [retractions_append, retractions_retractAll,
          insertions_append, insertions_retractAll, List.append_nil,
          List.count_append]
        omega

theorem wellFormed_append_retractAll_iff_le (changes : List (Change α))
    (elements : List α) :
    WellFormed (changes ++ retractAll elements) ↔
      WellFormed changes ∧
        ((retractions changes ++ elements : List α) : Multiset α) ≤
          insertions changes := by
  rw [wellFormed_append_retractAll]
  apply and_congr_right
  intro wellFormed
  rw [Multiset.le_iff_count]
  simp only [Multiset.coe_count]
  constructor
  · intro covered data
    by_cases member : data ∈ elements
    · exact covered data member
    · have balance := wellFormed.count_live data
      rw [List.count_append, List.count_eq_zero_of_not_mem member]
      omega
  · intro covered data _
    exact covered data

/-- First in, first out, and no element is live twice. -/
structure Orderly (changes : List (Change α)) : Prop where
  ordered : FirstInFirstOut changes
  distinct : ∀ earlier, earlier <+: changes → (live earlier).Nodup

omit [DecidableEq α] in
theorem firstInFirstOut_iff_inits (changes : List (Change α)) :
    (∀ earlier ∈ changes.inits, retractions earlier <+: insertions earlier) ↔
      FirstInFirstOut changes := by
  simp only [FirstInFirstOut, List.mem_inits]

instance (changes : List (Change α)) : Decidable (FirstInFirstOut changes) :=
  decidable_of_iff _ (firstInFirstOut_iff_inits changes)

theorem orderly_iff_inits (changes : List (Change α)) :
    (FirstInFirstOut changes ∧ ∀ earlier ∈ changes.inits, (live earlier).Nodup) ↔
      Orderly changes := by
  simp only [List.mem_inits]
  exact ⟨fun both => ⟨both.1, both.2⟩, fun orderly => ⟨orderly.1, orderly.2⟩⟩

instance (changes : List (Change α)) : Decidable (Orderly changes) :=
  decidable_of_iff _ (orderly_iff_inits changes)

theorem Orderly.truncate {earlier changes : List (Change α)}
    (orderly : Orderly changes) (start : earlier <+: changes) :
    Orderly earlier :=
  ⟨orderly.ordered.truncate start,
    fun part inside => orderly.distinct part (inside.trans start)⟩

omit [DecidableEq α] in
theorem prefix_insertAll {elements : List α} {earlier : List (Change α)}
    (start : earlier <+: insertAll elements) :
    ∃ part, part <+: elements ∧ earlier = insertAll part := by
  obtain ⟨part, inside, equal⟩ := List.prefix_map_iff.mp start
  exact ⟨part, inside, equal⟩

/-- Insertions alone are orderly when no element is inserted twice. -/
theorem orderly_insertAll {elements : List α} (distinct : elements.Nodup) :
    Orderly (insertAll elements) := by
  have ordered : FirstInFirstOut (insertAll elements) := by
    intro earlier start
    obtain ⟨part, _, rfl⟩ := prefix_insertAll start
    rw [retractions_insertAll]
    exact List.nil_prefix
  refine ⟨ordered, ?_⟩
  intro earlier start
  have inside := ordered.truncate start
  obtain ⟨part, short, rfl⟩ := prefix_insertAll start
  rw [inside.live_eq, insertions_insertAll, retractions_insertAll,
    List.length_nil, List.drop_zero, Multiset.coe_nodup]
  exact distinct.sublist short.sublist

/-! ### Retractions that remove every copy -/

/-- How often an element was inserted since it was last retracted. -/
def insertedSince (data : α) (changes : List (Change α)) : Nat :=
  changes.foldl (fun copies change =>
    if change.data = data then
      if change.outdated then 0 else copies + 1
    else copies) 0

@[simp] theorem insertedSince_nil (data : α) :
    insertedSince data ([] : List (Change α)) = 0 := rfl

theorem insertedSince_concat (data : α) (changes : List (Change α))
    (change : Change α) :
    insertedSince data (changes ++ [change]) =
      if change.data = data then
        if change.outdated then 0 else insertedSince data changes + 1
      else insertedSince data changes := by
  unfold insertedSince
  rw [List.foldl_append]
  rfl

/-- Distinct live elements are live once or not at all. -/
theorem Orderly.insertedSince_eq_count {changes : List (Change α)}
    (orderly : Orderly changes) (data : α) :
    insertedSince data changes = (live changes).count data := by
  induction changes using List.reverseRecOn with
  | nil => rfl
  | append_singleton changes change induction =>
      have before := induction (orderly.truncate (List.prefix_append _ _))
      have nodup := orderly.distinct changes (List.prefix_append _ _)
      obtain ⟨other, outdated⟩ := change
      rw [insertedSince_concat, before]
      cases outdated with
      | false =>
          rw [live_concat_new, Multiset.count_cons]
          by_cases same : other = data
          · simp [same]
          · have different : ¬ data = other := fun equal => same equal.symm
            simp [same, different]
      | true =>
          rw [live_concat_outdated]
          by_cases same : other = data
          · subst same
            have once := Multiset.nodup_iff_count_le_one.mp nodup other
            simp only [if_true, Multiset.count_erase_self]
            omega
          · have different : ¬ data = other := fun equal => same equal.symm
            simp only [same, if_false, Multiset.count_erase_of_ne different]

end ChangeStream
