import PipeFabric.Aggregates.NeverEmpty

/-!
# The histories of the two aggregations

The state of an aggregation has gone through the whole stream.  The state of a
group has gone through the changes of the group from its first insertion on, as
long as the counter of the group has not returned to zero.
-/

namespace PipeFabric

open ChangeStream Published

variable {α K S Out : Type}

namespace Aggregation

/-- The state after a stream is the one the function has after it. -/
theorem process_replay {aggregate : AggregateFunc α S Out}
    {stream : List (Change α)} {state : State S}
    {published : List (Published Out)}
    (processed : process (triggerAll aggregate) stream =
      some (state, published)) :
    aggregate.replay stream = some state.mAggrState := by
  induction stream using List.reverseRecOn generalizing state published with
  | nil =>
      cases processed
      rfl
  | append_singleton seen change induction =>
      obtain ⟨before, earlier, last, reached, stepped, rfl⟩ :=
        Transducer.tryRun_concat_eq_some processed
      rw [processDataElement_triggerAll, Option.bind_eq_some_iff] at stepped
      obtain ⟨mAggrState, iterated, valued⟩ := stepped
      obtain ⟨result, _, equal⟩ := Option.map_eq_some_iff.mp valued
      cases equal
      rw [AggregateFunc.replay_concat, induction reached, Option.bind_some]
      exact iterated

theorem published_continues (aggregate : AggregateFunc α S Out)
    (seen : List (Change α)) (change : Change α) (values : List (Change Out))
    (published : Aggregation.published S Out aggregate (seen ++ [change]) =
      some values) :
    ∃ earlier, Aggregation.published S Out aggregate seen = some earlier ∧
      earlier <+: values := by
  obtain ⟨final, processed, rfl⟩ := Option.map_eq_some_iff.mp published
  obtain ⟨before, reached, start⟩ :=
    Transducer.tryRun_truncate processed (List.prefix_append seen [change])
  refine ⟨changes before.2, ?_, changes_mono start⟩
  unfold Aggregation.published process
  rw [reached]
  rfl

theorem published_concat (aggregate : AggregateFunc α S Out)
    (seen : List (Change α)) (change : Change α) :
    Aggregation.published S Out aggregate (seen ++ [change]) =
      (Aggregation.published S Out aggregate seen).bind fun earlier =>
        answer aggregate (seen ++ [change]) change.outdated earlier := by
  unfold Aggregation.published
  cases processed : process (triggerAll aggregate) seen with
  | none =>
      unfold process at processed ⊢
      rw [Transducer.tryRun_concat, processed]
      rfl
  | some before =>
      obtain ⟨state, earlier⟩ := before
      have replayed := process_replay processed
      unfold process at processed ⊢
      rw [Transducer.tryRun_concat, processed, Option.bind_some, Option.map_some,
        Option.bind_some, answer_of_ne_nil _ (by simp),
        AggregateFunc.replay_concat, replayed, Option.bind_some,
        processDataElement_triggerAll]
      cases aggregate.iterate state.mAggrState change.data change.outdated with
      | none => rfl
      | some mAggrState =>
          simp only [Option.bind_some]
          cases aggregate.value mAggrState with
          | none => rfl
          | some result => simp

/-- An aggregation answers every element from the whole stream. -/
theorem evaluates :
    Evaluates Aggregation.published (fun _ : α => ())
      (fun _ seen => seen) where
  grow := {
    nil := fun _ => rfl
    other := fun _ _ _ different => absurd rfl different
    self := fun _ _ => Or.inl rfl }
  start := fun _ _ _ => rfl
  continues := fun _ _ aggregate seen change values published =>
    published_continues aggregate seen change values published
  step := fun seen change _ _ _ aggregate =>
    published_concat aggregate seen change

end Aggregation

namespace GroupedAggregation

variable [DecidableEq K] {mGroupByFunc : α → K}

/-- The changes of a group from its first insertion on. -/
def sinceFirst (mGroupByFunc : α → K) (grpKey : K)
    (stream : List (Change α)) : List (Change α) :=
  (stream.filter fun change => mGroupByFunc change.data = grpKey).dropWhile
    fun change => change.outdated

theorem dropWhile_concat (predicate : Change α → Bool) (seen : List (Change α))
    (change : Change α) :
    (seen ++ [change]).dropWhile predicate =
      if seen.dropWhile predicate = [] ∧ predicate change = true then []
      else seen.dropWhile predicate ++ [change] := by
  rw [List.dropWhile_append]
  by_cases silent : seen.dropWhile predicate = []
  · rw [silent, List.isEmpty_nil, if_pos rfl, List.dropWhile_cons]
    by_cases dropped : predicate change = true
    · rw [if_pos dropped, if_pos ⟨rfl, dropped⟩]
      rfl
    · rw [if_neg dropped, if_neg fun both => dropped both.2]
      rfl
  · rw [if_neg (by simpa using silent), if_neg fun both => silent both.1]

theorem sinceFirst_other {grpKey : K} (seen : List (Change α))
    {change : Change α} (other : mGroupByFunc change.data ≠ grpKey) :
    sinceFirst mGroupByFunc grpKey (seen ++ [change]) =
      sinceFirst mGroupByFunc grpKey seen := by
  unfold sinceFirst
  rw [List.filter_append, List.filter_singleton, decide_eq_false other,
    cond_false, List.append_nil]

theorem sinceFirst_self (seen : List (Change α)) (change : Change α) :
    sinceFirst mGroupByFunc (mGroupByFunc change.data) (seen ++ [change]) =
      if sinceFirst mGroupByFunc (mGroupByFunc change.data) seen = [] ∧
          change.outdated = true then []
      else sinceFirst mGroupByFunc (mGroupByFunc change.data) seen ++
        [change] := by
  unfold sinceFirst
  rw [List.filter_append, List.filter_singleton, decide_eq_true rfl, cond_true,
    dropWhile_concat]

theorem histories_sinceFirst (mGroupByFunc : α → K) :
    Histories mGroupByFunc (sinceFirst mGroupByFunc) where
  nil := fun _ => rfl
  other := fun _ seen _ different => sinceFirst_other seen different
  self := by
    intro seen change
    rw [sinceFirst_self]
    by_cases silent : sinceFirst mGroupByFunc (mGroupByFunc change.data) seen =
        [] ∧ change.outdated = true
    · rw [if_pos silent]
      exact Or.inr ⟨rfl, silent⟩
    · rw [if_neg silent]
      exact Or.inl rfl

/-- The entry of a group by its history. -/
def HistoryEntry (aggregate : AggregateFunc α S Out) (record : List (Change α))
    (entry : Option (AggregateState S)) : Prop :=
  (record = [] → entry = none) ∧
  (record ≠ [] → ∃ members, aggregate.replay record = some members ∧
    entry = some ⟨balance record, members⟩)

/-- A change that is not ignored extends the history of its group. -/
theorem updateTable_history {aggregate : AggregateFunc α S Out} {grpKey : K}
    {mAggregateTable : HashTable K S} {record : List (Change α)}
    (entry : HistoryEntry aggregate record (mAggregateTable.lookup grpKey))
    {change : Change α} (counted : ¬ (record = [] ∧ change.outdated = true)) :
    updateTable aggregate grpKey mAggregateTable change =
      (aggregate.replay (record ++ [change])).map fun members =>
        (if balance (record ++ [change]) = 0 then mAggregateTable.erase grpKey
          else mAggregateTable.insert grpKey
            ⟨balance (record ++ [change]), members⟩,
          some members) := by
  unfold updateTable
  by_cases started : record = []
  · have new : change.outdated = false := by
      cases outdated : change.outdated with
      | false => rfl
      | true => exact absurd ⟨started, outdated⟩ counted
    obtain ⟨data, outdated⟩ := change
    dsimp only at new
    subst started new
    have one : balance [(⟨data, false⟩ : Change α)] = 1 := sub_zero 1
    rw [entry.1 rfl]
    simp only [Bool.false_eq_true, if_false, processNewAggregationGroup,
      List.nil_append, one, AggregateFunc.replay, List.foldlM_cons,
      List.foldlM_nil, Option.map_map]
    cases aggregate.iterate aggregate.init data false <;> rfl
  · obtain ⟨members, replayed, found⟩ := entry.2 started
    rw [found]
    simp only [updateAggregationGroup, balance_concat,
      AggregateFunc.replay_concat, replayed, Option.bind_some]
    cases aggregate.iterate members change.data change.outdated <;> rfl

/-- A change that is ignored leaves the table as it is. -/
theorem updateTable_ignored {aggregate : AggregateFunc α S Out} {grpKey : K}
    {mAggregateTable : HashTable K S}
    (entry : HistoryEntry aggregate [] (mAggregateTable.lookup grpKey))
    {change : Change α} (outdated : change.outdated = true) :
    updateTable aggregate grpKey mAggregateTable change =
      some (mAggregateTable, none) := by
  unfold updateTable
  rw [entry.1 rfl]
  simp only [outdated, if_true]

/-- While all histories are held, every entry is the one of its history. -/
theorem process_entries {aggregate : AggregateFunc α S Out}
    {stream : List (Change α)}
    (held : AllHeld (sinceFirst mGroupByFunc) stream) {state : State K S}
    {published : List (Published Out)}
    (processed : process (triggerAll mGroupByFunc aggregate) stream =
      some (state, published)) (grpKey : K) :
    HistoryEntry aggregate (sinceFirst mGroupByFunc grpKey stream)
      (state.mAggregateTable.lookup grpKey) := by
  induction stream using List.reverseRecOn generalizing state published grpKey with
  | nil =>
      cases processed
      exact ⟨fun _ => rfl, fun started => absurd rfl started⟩
  | append_singleton seen change induction =>
      obtain ⟨before, earlier, last, reached, stepped, rfl⟩ :=
        Transducer.tryRun_concat_eq_some processed
      have entries := induction
        (held.truncate (List.prefix_append seen [change])) reached
      have updated := processDataElement_table stepped
      dsimp only [triggerAll] at updated
      obtain ⟨⟨table, members⟩, update, equal⟩ :=
        Option.map_eq_some_iff.mp updated
      dsimp only at equal
      subst equal
      by_cases silent : sinceFirst mGroupByFunc (mGroupByFunc change.data) seen =
          [] ∧ change.outdated = true
      · have unknown := entries (mGroupByFunc change.data)
        rw [silent.1] at unknown
        rw [updateTable_ignored unknown silent.2, Option.some_inj,
          Prod.mk.injEq] at update
        rw [← update.1]
        by_cases same : mGroupByFunc change.data = grpKey
        · subst same
          rw [sinceFirst_self, if_pos silent]
          exact unknown
        · rw [sinceFirst_other seen same]
          exact entries grpKey
      · rw [updateTable_history (entries (mGroupByFunc change.data)) silent,
          Option.map_eq_some_iff] at update
        obtain ⟨members, replayed, equal⟩ := update
        rw [Prod.mk.injEq] at equal
        rw [← equal.1]
        have live := held _ List.prefix_rfl (mGroupByFunc change.data)
        rw [sinceFirst_self, if_neg silent] at live
        have counter := (live (by simp)).balance_ne_zero
        rw [if_neg counter]
        by_cases same : mGroupByFunc change.data = grpKey
        · subst same
          rw [sinceFirst_self, if_neg silent, Finmap.lookup_insert]
          exact ⟨fun empty => absurd empty (by simp),
            fun _ => ⟨members, replayed, rfl⟩⟩
        · rw [sinceFirst_other seen same,
            Finmap.lookup_insert_of_ne _ (Ne.symm same)]
          exact entries grpKey

theorem published_continues (aggregate : AggregateFunc α S Out)
    (seen : List (Change α)) (change : Change α) (values : List (Change Out))
    (published : GroupedAggregation.published mGroupByFunc S Out aggregate
      (seen ++ [change]) = some values) :
    ∃ earlier,
      GroupedAggregation.published mGroupByFunc S Out aggregate seen =
        some earlier ∧ earlier <+: values := by
  obtain ⟨final, processed, rfl⟩ := Option.map_eq_some_iff.mp published
  obtain ⟨before, reached, start⟩ :=
    Transducer.tryRun_truncate processed (List.prefix_append seen [change])
  refine ⟨changes before.2, ?_, changes_mono start⟩
  unfold GroupedAggregation.published process
  rw [reached]
  rfl

theorem published_concat (aggregate : AggregateFunc α S Out)
    {seen : List (Change α)} (change : Change α)
    (held : AllHeld (sinceFirst mGroupByFunc) seen) :
    GroupedAggregation.published mGroupByFunc S Out aggregate
        (seen ++ [change]) =
      (GroupedAggregation.published mGroupByFunc S Out aggregate seen).bind
        fun earlier => answer aggregate
          (sinceFirst mGroupByFunc (mGroupByFunc change.data)
            (seen ++ [change])) change.outdated earlier := by
  unfold GroupedAggregation.published
  cases processed : process (triggerAll mGroupByFunc aggregate) seen with
  | none =>
      unfold process at processed ⊢
      rw [Transducer.tryRun_concat, processed]
      rfl
  | some before =>
      obtain ⟨state, earlier⟩ := before
      have entry := process_entries held processed (mGroupByFunc change.data)
      unfold process at processed ⊢
      rw [Transducer.tryRun_concat, processed, Option.bind_some, Option.map_some,
        Option.bind_some, processDataElement_triggerAll, sinceFirst_self]
      dsimp only
      by_cases silent : sinceFirst mGroupByFunc (mGroupByFunc change.data) seen =
          [] ∧ change.outdated = true
      · rw [silent.1] at entry
        rw [if_pos silent, updateTable_ignored entry silent.2]
        simp [answer]
      · rw [if_neg silent, answer_of_ne_nil _ (by simp),
          updateTable_history entry silent]
        cases aggregate.replay (sinceFirst mGroupByFunc
            (mGroupByFunc change.data) seen ++ [change]) with
        | none => rfl
        | some members =>
            simp only [Option.map_some, Option.bind_some]
            cases aggregate.value members with
            | none => rfl
            | some result => simp

/-- A grouped aggregation answers every element from the changes of its group since
the first insertion. -/
theorem evaluates (mGroupByFunc : α → K) :
    Evaluates (GroupedAggregation.published mGroupByFunc) mGroupByFunc
      (sinceFirst mGroupByFunc) where
  grow := histories_sinceFirst mGroupByFunc
  start := fun _ _ _ => rfl
  continues := fun _ _ aggregate seen change values published =>
    published_continues aggregate seen change values published
  step := fun _ change held _ _ aggregate =>
    published_concat aggregate change held

end GroupedAggregation

end PipeFabric
