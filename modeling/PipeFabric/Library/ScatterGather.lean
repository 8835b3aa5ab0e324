import PipeFabric.Library.Transducer
import Mathlib.Data.List.Forall2
import Mathlib.Logic.Function.Basic

/-!
# Scattering and gathering

Entries with keys are worked on key by key.  `step` runs one copy of an operator for
every key, so that the entries of one key see only each other: whatever order the
entries of several keys arrive in, the operator emits for each key what it emits for the
entries of this key alone.  `scatter` is the opposite and spreads entries over a list of
parts.
-/

namespace ScatterGather

open Transducer (tryRun)

variable {Key State Input Output α : Type} [DecidableEq Key]

/-! ### The entries of a key -/

/-- What comes with the key, in order. -/
def select (key : Key) (entries : List (Key × α)) : List α :=
  entries.filterMap fun entry => if entry.1 = key then some entry.2 else none

@[simp] theorem select_nil (key : Key) : select key ([] : List (Key × α)) = [] := rfl

@[simp] theorem select_append (key : Key) (first second : List (Key × α)) :
    select key (first ++ second) = select key first ++ select key second :=
  List.filterMap_append

theorem select_cons_self (key : Key) (value : α) (entries : List (Key × α)) :
    select key ((key, value) :: entries) = value :: select key entries := by
  simp [select]

theorem select_cons_of_ne {key other : Key} (different : other ≠ key) (value : α)
    (entries : List (Key × α)) :
    select key ((other, value) :: entries) = select key entries := by
  simp [select, different]

@[simp] theorem select_map_self (key : Key) (values : List α) :
    select key (values.map (key, ·)) = values := by
  induction values with
  | nil => rfl
  | cons value values induction => rw [List.map_cons, select_cons_self, induction]

theorem select_map_of_ne {key other : Key} (different : other ≠ key) (values : List α) :
    select key (values.map (other, ·)) = [] := by
  induction values with
  | nil => rfl
  | cons value values induction =>
      rw [List.map_cons, select_cons_of_ne different, induction]

theorem mem_select {key : Key} {value : α} {entries : List (Key × α)} :
    value ∈ select key entries ↔ (key, value) ∈ entries := by
  simp only [select, List.mem_filterMap]
  constructor
  · rintro ⟨⟨other, found⟩, member, same⟩
    by_cases here : other = key
    · subst here
      simp only [if_true, Option.some.injEq] at same
      exact same ▸ member
    · simp [here] at same
  · intro member
    exact ⟨(key, value), member, by simp⟩

theorem perm_select (key : Key) {first second : List (Key × α)} (perm : first.Perm second) :
    (select key first).Perm (select key second) :=
  perm.filterMap _

/-- Entries are those of one key and the others. -/
theorem perm_select_append (key : Key) (entries : List (Key × α)) :
    entries.Perm ((select key entries).map (key, ·) ++
      entries.filter fun entry => entry.1 ≠ key) := by
  induction entries with
  | nil => exact .refl _
  | cons entry entries induction =>
      obtain ⟨other, value⟩ := entry
      by_cases here : other = key
      · subst here
        rw [select_cons_self, List.filter_cons_of_neg (by simp)]
        exact induction.cons _
      · rw [select_cons_of_ne here, List.filter_cons_of_pos (by simpa using here)]
        exact (induction.cons _).trans List.perm_middle.symm

theorem select_filter_ne {key other : Key} (different : key ≠ other)
    (entries : List (Key × α)) :
    select key (entries.filter fun entry => entry.1 ≠ other) = select key entries := by
  induction entries with
  | nil => rfl
  | cons entry entries induction =>
      obtain ⟨name, value⟩ := entry
      by_cases here : name = other
      · subst here
        rw [List.filter_cons_of_neg (by simp), induction,
          select_cons_of_ne (Ne.symm different)]
      · rw [List.filter_cons_of_pos (by simpa using here)]
        by_cases mine : name = key
        · subst mine
          rw [select_cons_self, select_cons_self, induction]
        · rw [select_cons_of_ne mine, select_cons_of_ne mine, induction]

/-- Entries are those of all their keys one after the other. -/
theorem perm_flatMap_select {keys : List Key} (distinct : keys.Nodup)
    (entries : List (Key × α)) (known : ∀ entry ∈ entries, entry.1 ∈ keys) :
    entries.Perm (keys.flatMap fun key => (select key entries).map (key, ·)) := by
  induction keys generalizing entries with
  | nil =>
      rw [List.eq_nil_iff_forall_not_mem.mpr fun entry member =>
        absurd (known entry member) List.not_mem_nil]
      exact .refl _
  | cons key keys induction =>
      obtain ⟨fresh, distinct⟩ := List.nodup_cons.mp distinct
      have others := induction distinct (entries.filter fun entry => entry.1 ≠ key) (by
        intro entry member
        obtain ⟨inside, different⟩ := List.mem_filter.mp member
        exact List.mem_of_ne_of_mem (by simpa using different) (known entry inside))
      have same : (keys.flatMap fun other => (select other
          (entries.filter fun entry => entry.1 ≠ key)).map (other, ·)) =
          keys.flatMap fun other => (select other entries).map (other, ·) := by
        apply List.flatMap_congr
        intro other member
        rw [select_filter_ne]
        rintro rfl
        exact fresh member
      rw [List.flatMap_cons, ← same]
      exact (perm_select_append key entries).trans (others.append_left _)

/-! ### One copy of an operator for every key -/

/-- A step of the copy of the key. -/
def step (attempt : State → Input → Option (State × List Output)) (states : Key → State)
    (entry : Key × Input) : Option ((Key → State) × List (Key × Output)) :=
  (attempt (states entry.1) entry.2).map fun next =>
    (Function.update states entry.1 next.1, next.2.map (entry.1, ·))

variable {attempt : State → Input → Option (State × List Output)}

/-- Each copy runs on the entries of its key alone. -/
theorem tryRun_select {states final : Key → State} {entries : List (Key × Input)}
    {emitted : List (Key × Output)}
    (ran : tryRun (step attempt) states entries = some (final, emitted)) (key : Key) :
    tryRun attempt (states key) (select key entries) =
      some (final key, select key emitted) := by
  induction entries generalizing states emitted with
  | nil =>
      cases ran
      rfl
  | cons entry entries induction =>
      obtain ⟨other, input⟩ := entry
      simp only [tryRun, Option.bind_eq_some_iff, Option.map_eq_some_iff, step] at ran
      obtain ⟨_, ⟨next, stepped, rfl⟩, rest, later, equal⟩ := ran
      cases equal
      have onward : tryRun attempt (Function.update states other next.1 key)
          (select key entries) = some (rest.1 key, select key rest.2) := induction later
      by_cases here : other = key
      · subst here
        rw [Function.update_self] at onward
        rw [select_cons_self, select_append, select_map_self]
        simp [tryRun, stepped, onward]
      · rw [Function.update_of_ne (Ne.symm here)] at onward
        rw [select_cons_of_ne here, select_append, select_map_of_ne here]
        exact onward

/-- The copies do not fail together when none of them fails alone. -/
theorem exists_tryRun {states : Key → State} {entries : List (Key × Input)}
    (alone : ∀ key, ∃ final, tryRun attempt (states key) (select key entries) = some final) :
    ∃ final, tryRun (step attempt) states entries = some final := by
  induction entries generalizing states with
  | nil => exact ⟨(states, []), rfl⟩
  | cons entry entries induction =>
      obtain ⟨key, input⟩ := entry
      obtain ⟨last, ran⟩ := alone key
      rw [select_cons_self] at ran
      simp only [tryRun, Option.bind_eq_some_iff, Option.map_eq_some_iff] at ran
      obtain ⟨next, stepped, rest, later, _⟩ := ran
      have onward : ∀ other, ∃ final, tryRun attempt
          (Function.update states key next.1 other) (select other entries) = some final := by
        intro other
        by_cases here : other = key
        · subst here
          rw [Function.update_self]
          exact ⟨rest, later⟩
        · rw [Function.update_of_ne here]
          rw [← select_cons_of_ne (Ne.symm here) input entries]
          exact alone other
      obtain ⟨final, finished⟩ := induction onward
      exact ⟨(final.1, next.2.map (key, ·) ++ final.2), by
        simp [tryRun, step, stepped, finished]⟩

/-! ### Groups that arrive in any order -/

/-- The entries of all groups. -/
def entriesOf (groups : List (Key × List α)) : List (Key × α) :=
  groups.flatMap fun group => group.2.map (group.1, ·)

theorem select_entriesOf_of_not_mem {groups : List (Key × List α)} {key : Key}
    (absent : key ∉ groups.map Prod.fst) : select key (entriesOf groups) = [] := by
  induction groups with
  | nil => rfl
  | cons group groups induction =>
      rw [List.map_cons, List.mem_cons, not_or] at absent
      rw [entriesOf, List.flatMap_cons, select_append, select_map_of_ne (Ne.symm absent.1)]
      exact induction absent.2

theorem select_entriesOf {groups : List (Key × List α)}
    (distinct : (groups.map Prod.fst).Nodup) {group : Key × List α}
    (member : group ∈ groups) : select group.1 (entriesOf groups) = group.2 := by
  induction groups with
  | nil => cases member
  | cons first groups induction =>
      obtain ⟨fresh, distinct⟩ := List.nodup_cons.mp distinct
      rw [entriesOf, List.flatMap_cons, select_append]
      rcases List.mem_cons.mp member with rfl | later
      · rw [select_map_self]
        exact (congrArg _ (select_entriesOf_of_not_mem fresh)).trans (List.append_nil _)
      · rw [select_map_of_ne]
        · exact induction distinct later
        · rintro same
          exact fresh (same ▸ List.mem_map_of_mem later)

/-- The entries of groups with different keys, in any order: the operator emits, in
some order, what its copies emit for each group alone. -/
theorem gather {groups : List (Key × List Input)} (distinct : (groups.map Prod.fst).Nodup)
    {entries : List (Key × Input)} (perm : entries.Perm (entriesOf groups)) {start : State}
    {final : Key → State} {emitted : List (Key × Output)}
    (ran : tryRun (step attempt) (fun _ => start) entries = some (final, emitted)) :
    ∃ answers : List (List Output),
      List.Forall₂ (fun group answer => ∃ inputs last, inputs.Perm group.2 ∧
        tryRun attempt start inputs = some (last, answer)) groups answers ∧
      (emitted.map Prod.snd).Perm answers.flatten := by
  have alone := tryRun_select ran
  have known : ∀ entry ∈ emitted, entry.1 ∈ groups.map Prod.fst := by
    rintro ⟨key, output⟩ member
    by_contra absent
    have nothing : select key entries = [] := by
      apply List.perm_nil.mp
      rw [← select_entriesOf_of_not_mem absent]
      exact perm_select key perm
    have silent := alone key
    rw [nothing] at silent
    obtain ⟨_, empty⟩ := Prod.mk.inj (Option.some.inj silent)
    have found := mem_select.mpr member
    rw [← empty] at found
    cases found
  refine ⟨groups.map fun group => select group.1 emitted, ?_, ?_⟩
  · rw [List.forall₂_map_right_iff, List.forall₂_same]
    intro group member
    refine ⟨select group.1 entries, final group.1, ?_, alone group.1⟩
    rw [← select_entriesOf distinct member]
    exact perm_select group.1 perm
  · have whole := (perm_flatMap_select distinct emitted known).map Prod.snd
    rw [List.map_flatMap, List.flatMap_map] at whole
    simpa [List.flatMap_def, Function.comp_def] using whole

/-- The operator does not fail when its copies fail on no order of a group. -/
theorem exists_gather {groups : List (Key × List Input)}
    (distinct : (groups.map Prod.fst).Nodup) {entries : List (Key × Input)}
    (perm : entries.Perm (entriesOf groups)) {start : State}
    (alone : ∀ group ∈ groups, ∀ inputs, inputs.Perm group.2 →
      ∃ final, tryRun attempt start inputs = some final) :
    ∃ final, tryRun (step attempt) (fun _ => start) entries = some final := by
  apply exists_tryRun
  intro key
  have mine := perm_select key perm
  by_cases known : key ∈ groups.map Prod.fst
  · obtain ⟨group, member, rfl⟩ := List.mem_map.mp known
    rw [select_entriesOf distinct member] at mine
    exact alone group member _ mine
  · rw [select_entriesOf_of_not_mem known] at mine
    rw [List.perm_nil.mp mine]
    exact ⟨(start, []), rfl⟩

/-! ### Spreading entries over parts -/

section

variable {Entry Part : Type} (target : Entry → Nat) (add : Entry → Part → Option Part)

/-- Every entry goes to the part with the number that the function tells. -/
def scatter : List Part → List Entry → Option (List Part)
  | parts, [] => some parts
  | parts, entry :: entries => do
      let part ← parts[target entry]?
      let extended ← add entry part
      scatter (parts.set (target entry) extended) entries

/-- One part with entries of its own. -/
def addAll (part : Part) (entries : List Entry) : Option Part :=
  entries.foldlM (fun part entry => add entry part) part

/-- The entries that go to a part. -/
def share (entries : List Entry) (number : Nat) : List Entry :=
  entries.filter fun entry => target entry = number

variable {target add}

theorem mem_share {entries : List Entry} {entry : Entry} {number : Nat} :
    entry ∈ share target entries number ↔ entry ∈ entries ∧ target entry = number := by
  simp [share]

theorem addAll_cons (part : Part) (entry : Entry) (entries : List Entry) :
    addAll add part (entry :: entries) =
      (add entry part).bind fun extended => addAll add extended entries := rfl

/-- The induction rule for the entries of a part. -/
theorem exists_addAll (holds : List Entry → Part → Prop) {entries : List Entry}
    (takes : ∀ seen part entry, entry ∈ entries → holds seen part →
      ∃ after, add entry part = some after ∧ holds (seen ++ [entry]) after)
    {seen : List Entry} {part : Part} (initially : holds seen part) :
    ∃ after, addAll add part entries = some after ∧ holds (seen ++ entries) after := by
  induction entries generalizing seen part with
  | nil => exact ⟨part, rfl, by rwa [List.append_nil]⟩
  | cons entry entries induction =>
      obtain ⟨next, added, kept⟩ := takes seen part entry List.mem_cons_self initially
      obtain ⟨after, folded, final⟩ := induction (fun seen part later member =>
        takes seen part later (List.mem_cons_of_mem _ member)) kept
      refine ⟨after, ?_, ?_⟩
      · rw [addAll_cons, added]
        exact folded
      · rwa [List.append_assoc, List.singleton_append] at final

/-- Every part gets its share, in order. -/
theorem scatter_share {parts after : List Part} {entries : List Entry}
    (scattered : scatter target add parts entries = some after) :
    after.length = parts.length ∧ ∀ number part, parts[number]? = some part →
      ∃ filled, after[number]? = some filled ∧
        addAll add part (share target entries number) = some filled := by
  induction entries generalizing parts with
  | nil =>
      cases scattered
      exact ⟨rfl, fun number part here => ⟨part, here, rfl⟩⟩
  | cons entry entries induction =>
      simp only [scatter, Option.bind_eq_bind, Option.bind_eq_some_iff] at scattered
      obtain ⟨old, found, extended, added, rest⟩ := scattered
      obtain ⟨length, filled⟩ := induction rest
      rw [List.length_set] at length
      refine ⟨length, ?_⟩
      intro number part here
      by_cases mine : target entry = number
      · subst mine
        obtain rfl := Option.some.inj (found.symm.trans here)
        have set : (parts.set (target entry) extended)[target entry]? = some extended := by
          rw [List.getElem?_set_self (List.getElem?_eq_some_iff.mp found).1]
        obtain ⟨last, there, folded⟩ := filled _ _ set
        refine ⟨last, there, ?_⟩
        rw [share, List.filter_cons_of_pos (by simp), addAll_cons, added]
        exact folded
      · have kept : (parts.set (target entry) extended)[number]? = some part := by
          rw [List.getElem?_set_ne mine, here]
        obtain ⟨last, there, folded⟩ := filled _ _ kept
        refine ⟨last, there, ?_⟩
        rw [share, List.filter_cons_of_neg (by simpa using mine)]
        exact folded

/-- Entries can be spread when every part can take its share. -/
theorem exists_scatter {parts : List Part} {entries : List Entry}
    (within : ∀ entry ∈ entries, target entry < parts.length)
    (takes : ∀ number part, parts[number]? = some part →
      ∃ filled, addAll add part (share target entries number) = some filled) :
    ∃ after, scatter target add parts entries = some after := by
  induction entries generalizing parts with
  | nil => exact ⟨parts, rfl⟩
  | cons entry entries induction =>
      obtain ⟨inside, later⟩ := List.forall_mem_cons.mp within
      have here := List.getElem?_eq_getElem inside
      obtain ⟨filled, folded⟩ := takes _ _ here
      rw [share, List.filter_cons_of_pos (by simp), addAll_cons,
        Option.bind_eq_some_iff] at folded
      obtain ⟨extended, added, rest⟩ := folded
      have further : ∀ number part, (parts.set (target entry) extended)[number]? = some part →
          ∃ filled, addAll add part (share target entries number) = some filled := by
        intro number part there
        by_cases mine : target entry = number
        · subst mine
          rw [List.getElem?_set_self inside] at there
          obtain rfl := Option.some.inj there
          exact ⟨filled, rest⟩
        · rw [List.getElem?_set_ne mine] at there
          obtain ⟨last, taken⟩ := takes number part there
          rw [share, List.filter_cons_of_neg (by simpa using mine)] at taken
          exact ⟨last, taken⟩
      obtain ⟨after, scattered⟩ := induction (by simpa using later) further
      exact ⟨after, by simp [scatter, here, added, scattered]⟩

end

end ScatterGather
