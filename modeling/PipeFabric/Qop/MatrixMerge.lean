import PipeFabric.Library.ListPairs
import PipeFabric.Qop.MatrixSlice
import Mathlib.Data.List.Perm.Basic
import Mathlib.Data.Option.Basic
import Mathlib.Data.Prod.Basic

/-!
# Runs of the two operators

`MatrixMerge` works on each identifier alone.  When the parts of every matrix carry an
identifier of their own, what it publishes are the parts of each matrix put together, in
whatever order they arrive.
-/

namespace PipeFabric

open ScatterGather (entriesOf select)
open Transducer (tryRun)

section

variable {M Identifier Cell : Type} [MatrixClass M Identifier Cell]

/-! ### What is published for a stream of matrices -/

variable {numParts : Nat} {sliceFun : Cell → Nat → Nat → Nat} {generated : Nat → Identifier}

/-- The parts of each matrix go together with the identifier generated for it. -/
theorem MatrixSlice.tryRun_groups {number final : Nat} {inputs parts : List (M × Bool)}
    (sliced : tryRun (MatrixSlice.step numParts sliceFun generated) number inputs =
      some (final, parts)) :
    ∃ groups : List (Identifier × List (M × Bool)),
      groups.map Prod.fst = (List.range' number inputs.length).map generated ∧
      List.Forall₂ (fun input group =>
        processDataElement numParts sliceFun group.1 input.1 = some group.2) inputs groups ∧
      parts = groups.flatMap Prod.snd := by
  induction inputs generalizing number parts with
  | nil =>
      cases sliced
      exact ⟨[], rfl, .nil, rfl⟩
  | cons input inputs induction =>
      simp only [tryRun, step, Option.bind_eq_some_iff, Option.map_eq_some_iff] at sliced
      obtain ⟨_, ⟨published, here, rfl⟩, rest, later, same⟩ := sliced
      cases same
      obtain ⟨groups, keys, pairs, all⟩ := induction later
      refine ⟨(generated number, published) :: groups, ?_, .cons here pairs, ?_⟩
      · rw [List.map_cons, keys, List.length_cons, List.range'_succ, List.map_cons]
      · rw [all, List.flatMap_cons]

/-- The stream can be sliced if every matrix can. -/
theorem MatrixSlice.exists_tryRun {number : Nat} {inputs : List (M × Bool)}
    (each : ∀ input ∈ inputs, ∃ partitions,
      MatrixClass.slice numParts sliceFun input.1 = some partitions) :
    ∃ final, tryRun (MatrixSlice.step numParts sliceFun generated) number inputs =
      some final := by
  induction inputs generalizing number with
  | nil => exact ⟨(number, []), rfl⟩
  | cons input inputs induction =>
      obtain ⟨⟨partitions, here⟩, later⟩ := List.forall_mem_cons.mp each
      obtain ⟨final, ran⟩ := @induction (number + 1) later
      refine ⟨(final.1, (partitions.map fun m =>
        (MatrixClass.move (MatrixClass.setID m (generated number)), false)) ++ final.2), ?_⟩
      simp [tryRun, step, processDataElement, here, ran]

/-! ### Putting parts together -/

/-- The parts are merged in the order in which they come. -/
def mergeAll (matrix : M) (parts : List M) : Option M :=
  parts.foldlM (fun matrix part => MatrixClass.merge_to part matrix) matrix

theorem mergeAll_cons (matrix part : M) (parts : List M) :
    mergeAll matrix (part :: parts) =
      (MatrixClass.merge_to part matrix).bind fun merged => mergeAll merged parts := rfl

theorem mergeAll_concat (matrix : M) (parts : List M) (last : M) :
    mergeAll matrix (parts ++ [last]) =
      (mergeAll matrix parts).bind fun merged => MatrixClass.merge_to last merged := by
  rw [mergeAll, List.foldlM_append]
  simp [mergeAll]

/-- `MatrixMerge` for one identifier. -/
def collect (numParts : Nat) (part : Partition M) (input : M × Bool) :
    Option (Partition M × List (M × Bool)) :=
  (MatrixClass.merge_to input.1 part.matrix).map fun matrix =>
    if part.countParts + 1 = numParts then
      (⟨0, MatrixClass.empty⟩, [(MatrixClass.move matrix, input.2)])
    else (⟨part.countParts + 1, matrix⟩, [])

/-- Nothing is published before the last part. -/
theorem tryRun_collect {part : Partition M} {inputs : List (M × Bool)}
    (fewer : part.countParts + inputs.length < numParts) :
    tryRun (collect numParts) part inputs =
      (mergeAll part.matrix (inputs.map Prod.fst)).map fun matrix =>
        (⟨part.countParts + inputs.length, matrix⟩, []) := by
  induction inputs generalizing part with
  | nil => rfl
  | cons input inputs induction =>
      rw [List.length_cons] at fewer
      rw [tryRun, collect, List.map_cons, mergeAll_cons]
      cases MatrixClass.merge_to input.1 part.matrix with
      | none => rfl
      | some matrix =>
          have waits : part.countParts + 1 ≠ numParts := by omega
          have onward := @induction ⟨part.countParts + 1, matrix⟩ (by dsimp only; omega)
          rw [Option.map_some, Option.bind_some, if_neg waits, onward]
          simp only [Option.map_map, Function.comp_def, List.nil_append, List.length_cons,
            Nat.add_assoc, Nat.add_comm 1]
          rfl

/-- All parts of a matrix give one matrix. -/
theorem tryRun_collect_all {inputs : List (M × Bool)} (all : inputs.length = numParts)
    (some : 0 < numParts) (recent : ∀ input ∈ inputs, input.2 = false) :
    tryRun (collect numParts) ⟨0, MatrixClass.empty⟩ inputs =
      (mergeAll MatrixClass.empty (inputs.map Prod.fst)).map fun matrix =>
        (⟨0, MatrixClass.empty⟩, [(MatrixClass.move matrix, false)]) := by
  rcases List.eq_nil_or_concat' inputs with rfl | ⟨earlier, last, rfl⟩
  · rw [List.length_nil] at all
    omega
  · rw [List.length_append, List.length_singleton] at all
    have before := @tryRun_collect M Identifier Cell _ numParts ⟨0, MatrixClass.empty⟩ earlier
      (by dsimp only; omega)
    have flag := recent last (List.mem_append_right _ List.mem_cons_self)
    rw [Transducer.tryRun_concat, before, List.map_append, List.map_singleton,
      mergeAll_concat]
    cases mergeAll (MatrixClass.empty : M) (earlier.map Prod.fst) with
    | none => rfl
    | some matrix =>
        have full : 0 + earlier.length + 1 = numParts := by omega
        simp only [Option.map_some, Option.bind_some, collect, full, if_true, flag]
        cases MatrixClass.merge_to last.1 matrix with
        | none => rfl
        | some merged => rfl

variable [DecidableEq Identifier]

/-- What is collected for the identifier. -/
def collected (partitions : Identifier → Option (Partition M)) (id : Identifier) :
    Partition M :=
  (partitions id).getD ⟨0, MatrixClass.empty⟩

theorem collected_update (partitions : Identifier → Option (Partition M)) (id : Identifier)
    (part : Option (Partition M)) :
    collected (Function.update partitions id part) =
      Function.update (collected partitions) id (part.getD ⟨0, MatrixClass.empty⟩) := by
  funext other
  by_cases here : other = id
  · subst here
    rw [collected, Function.update_self, Function.update_self]
  · rw [collected, Function.update_of_ne here, Function.update_of_ne here, collected]

/-- The entry of an arrival. -/
def Arrival.entry (arrival : Arrival M Identifier) : Identifier × (M × Bool) :=
  (arrival.getID, (arrival.tuple, arrival.outdated))

/-- `MatrixMerge` works on each identifier alone. -/
theorem MatrixMerge.tryRun_eq (arrivals : List (Arrival M Identifier)) :
    (tryRun (processDataElement numParts) (fun _ => none) arrivals).map
        (fun final => (collected final.1, final.2)) =
      (tryRun (ScatterGather.step (collect numParts)) (fun _ => ⟨0, MatrixClass.empty⟩)
        (arrivals.map Arrival.entry)).map fun final => (final.1, final.2.map Prod.snd) := by
  apply Transducer.tryRun_view
  intro partitions arrival
  simp only [processDataElement, ScatterGather.step, Arrival.entry, collect]
  change Option.map _ ((MatrixClass.merge_to arrival.tuple
    (collected partitions arrival.getID).matrix).bind _) = _
  cases MatrixClass.merge_to arrival.tuple (collected partitions arrival.getID).matrix with
  | none => rfl
  | some matrix =>
      rw [Option.bind_some, Option.map_some]
      by_cases full : (collected partitions arrival.getID).countParts + 1 = numParts
      · have here : ((partitions arrival.getID).getD
            ⟨0, MatrixClass.empty⟩).countParts + 1 = numParts := full
        simp [full, here, collected_update]
      · have here : ¬ ((partitions arrival.getID).getD
            ⟨0, MatrixClass.empty⟩).countParts + 1 = numParts := full
        simp [full, here, collected_update]
        rfl

/-- Parts that carry the identifier of their group. -/
structure Labelled (numParts : Nat) (group : Identifier × List (M × Bool)) : Prop where
  all : group.2.length = numParts
  recent : ∀ part ∈ group.2, part.2 = false
  kept : ∀ part ∈ group.2, MatrixClass.getID part.1 = some group.1

omit [DecidableEq Identifier] in
/-- The identifier of a part does not depend on what is in memory. -/
theorem entries_perm {groups : List (Identifier × List (M × Bool))}
    (labelled : ∀ group ∈ groups, Labelled numParts group)
    {arrivals : List (Arrival M Identifier)}
    (perm : (arrivals.map fun arrival => (arrival.tuple, arrival.outdated)).Perm
      (groups.flatMap Prod.snd)) :
    (arrivals.map Arrival.entry).Perm (entriesOf groups) := by
  have injective : Function.Injective
      (Prod.map some id : Identifier × M × Bool → Option Identifier × M × Bool) :=
    Function.Injective.prodMap (Option.some_injective _) Function.injective_id
  rw [← List.map_perm_map_iff injective]
  have left : (arrivals.map Arrival.entry).map (Prod.map some id) =
      (arrivals.map fun arrival => (arrival.tuple, arrival.outdated)).map fun part =>
        (MatrixClass.getID part.1, part) := by
    rw [List.map_map, List.map_map]
    apply List.map_congr_left
    intro arrival member
    have inside := perm.subset (List.mem_map_of_mem member)
    obtain ⟨group, among, part⟩ := List.mem_flatMap.mp inside
    have known : MatrixClass.getID arrival.tuple = some group.1 :=
      (labelled group among).kept _ part
    simp [Arrival.entry, Arrival.getID, known]
  have right : (entriesOf groups).map (Prod.map some id) =
      (groups.flatMap Prod.snd).map fun part => (MatrixClass.getID part.1, part) := by
    rw [entriesOf, List.map_flatMap, List.map_flatMap]
    apply List.flatMap_congr
    intro group among
    rw [List.map_map]
    apply List.map_congr_left
    intro part member
    simp [(labelled group among).kept part member]
  rw [left, right]
  exact perm.map _

omit [DecidableEq Identifier] in
/-- The parts of a group in any order. -/
theorem Labelled.tryRun_collect {group : Identifier × List (M × Bool)}
    (labelled : Labelled numParts group) (positive : 0 < numParts)
    {inputs : List (M × Bool)} (perm : inputs.Perm group.2) :
    tryRun (collect numParts) ⟨0, MatrixClass.empty⟩ inputs =
      (mergeAll MatrixClass.empty (inputs.map Prod.fst)).map fun matrix =>
        (⟨0, MatrixClass.empty⟩, [(MatrixClass.move matrix, false)]) := by
  apply tryRun_collect_all
  · rw [perm.length_eq, labelled.all]
  · exact positive
  · exact fun input member => labelled.recent input (perm.subset member)

section

variable {groups : List (Identifier × List (M × Bool))}
  (labelled : ∀ group ∈ groups, Labelled numParts group) (positive : 0 < numParts)
  (distinct : (groups.map Prod.fst).Nodup) {arrivals : List (Arrival M Identifier)}
  (perm : (arrivals.map fun arrival => (arrival.tuple, arrival.outdated)).Perm
    (groups.flatMap Prod.snd))

include labelled positive distinct perm

/-- One matrix is published for every group. -/
theorem MatrixMerge.published {partitions : Identifier → Option (Partition M)}
    {outputs : List (M × Bool)}
    (ran : tryRun (processDataElement numParts) (fun _ => none) arrivals =
      some (partitions, outputs)) :
    ∃ matrices : List M,
      List.Forall₂ (fun group matrix => ∃ parts, parts.Perm (group.2.map Prod.fst) ∧
        mergeAll MatrixClass.empty parts = some matrix) groups matrices ∧
      outputs.Perm (matrices.map fun matrix => (MatrixClass.move matrix, false)) := by
  have mirrored := @MatrixMerge.tryRun_eq M Identifier Cell _ numParts _ arrivals
  rw [ran, Option.map_some, eq_comm, Option.map_eq_some_iff] at mirrored
  obtain ⟨⟨final, emitted⟩, gathering, same⟩ := mirrored
  obtain ⟨_, rfl⟩ := Prod.mk.inj same
  obtain ⟨answers, pairs, all⟩ :=
    ScatterGather.gather distinct (entries_perm labelled perm) gathering
  obtain ⟨matrices, merged, rfl⟩ := ListPairs.exists_map_eq
    (fun group matrix => ∃ parts, parts.Perm (group.2.map Prod.fst) ∧
      mergeAll MatrixClass.empty parts = some matrix)
    (fun matrix => [(MatrixClass.move matrix, false)]) pairs (by
      rintro group member answer ⟨inputs, last, order, answered⟩
      rw [(labelled group member).tryRun_collect positive order,
        Option.map_eq_some_iff] at answered
      obtain ⟨matrix, merged, equal⟩ := answered
      exact ⟨matrix, ⟨inputs.map Prod.fst, order.map _, merged⟩, (Prod.mk.inj equal).2.symm⟩)
  refine ⟨matrices, merged, all.trans ?_⟩
  rw [← List.flatMap_def, List.map_eq_flatMap]

/-- The run does not fail when the parts of every group can be merged. -/
theorem MatrixMerge.exists_tryRun
    (merges : ∀ group ∈ groups, ∀ parts, parts.Perm (group.2.map Prod.fst) →
      ∃ matrix : M, mergeAll MatrixClass.empty parts = some matrix) :
    ∃ final, tryRun (processDataElement numParts) (fun _ => none) arrivals = some final := by
  have alone : ∀ group ∈ groups, ∀ inputs, inputs.Perm group.2 →
      ∃ final, tryRun (collect numParts) ⟨0, MatrixClass.empty⟩ inputs = some final := by
    intro group member inputs order
    obtain ⟨matrix, merged⟩ := merges group member _ (order.map Prod.fst)
    rw [(labelled group member).tryRun_collect positive order, merged]
    exact ⟨_, rfl⟩
  obtain ⟨final, gathering⟩ :=
    ScatterGather.exists_gather distinct (entries_perm labelled perm) alone
  have mirrored := @MatrixMerge.tryRun_eq M Identifier Cell _ numParts _ arrivals
  rw [gathering, Option.map_some, Option.map_eq_some_iff] at mirrored
  obtain ⟨reached, ran, _⟩ := mirrored
  exact ⟨reached, ran⟩

end

end

end PipeFabric
