import PipeFabric.Aggregates.GroupView

/-!
# What an aggregation publishes for an outdated tuple

With `TriggerAll` every tuple of a well formed stream is answered by one element.
It carries the flag of the tuple and the aggregate after it, so that an element
published as outdated is the updated aggregate and not an earlier result.
-/

namespace PipeFabric

open ChangeStream Published

variable {α S Out : Type} [DecidableEq α]

/-- The element number n of the output answers the tuple number n of the input: it
has its flag and is the aggregate over the tuples that `scope` selects from the
live ones. -/
structure Answers (spec : Multiset α → Out → Prop)
    (scope : α → Multiset α → Multiset α) (inputs : List (Change α))
    (published : List (Change Out)) : Prop where
  length : published.length = inputs.length
  answer : ∀ seen change, seen ++ [change] <+: inputs → ∃ result,
    published[seen.length]? = some ⟨result, change.outdated⟩ ∧
      spec (scope change.data (live (seen ++ [change]))) result

section

variable {spec : Multiset α → Out → Prop} {scope : α → Multiset α → Multiset α}
  {inputs : List (Change α)} {published : List (Change Out)}

theorem answers_nil : Answers spec scope [] [] := by
  constructor
  · rfl
  · intro seen change start
    exact absurd (List.prefix_nil.mp start) (by simp)

theorem Answers.concat (answers : Answers spec scope inputs published)
    (change : Change α) {result : Out}
    (current : spec (scope change.data (live (inputs ++ [change]))) result) :
    Answers spec scope (inputs ++ [change])
      (published ++ [⟨result, change.outdated⟩]) := by
  constructor
  · rw [List.length_append, List.length_append, answers.length]
    rfl
  · intro seen other start
    rcases List.prefix_concat_iff.mp start with whole | inside
    · obtain ⟨rfl, last⟩ := List.append_inj' whole rfl
      obtain rfl := List.singleton_inj.mp last
      refine ⟨result, ?_, current⟩
      rw [← answers.length, List.getElem?_append_right (le_refl _)]
      simp
    · obtain ⟨earlier, answered, right⟩ := answers.answer seen other inside
      refine ⟨earlier, ?_, right⟩
      obtain ⟨bound, _⟩ := List.getElem?_eq_some_iff.mp answered
      rw [List.getElem?_append_left bound]
      exact answered

end

/-! ### One state for all tuples -/

namespace Aggregation

variable {aggregate : AggregateFunc α S Out} {spec : Multiset α → Out → Prop}
  {holds : Multiset α → S → Prop} {inputs : List (Change α)}

/-- As far as the operator gets, its state stands for the live tuples, and every
tuple has been answered. -/
theorem process_answers (incremental : Incremental aggregate spec holds)
    (wellFormed : WellFormed inputs)
    (small : ∀ seen, seen <+: inputs → (live seen).card < 2 ^ 32)
    {state : State S} {published : List (Published Out)}
    (processed : process (triggerAll aggregate) inputs =
      some (state, published)) :
    holds (live inputs) state.mAggrState ∧
      Answers spec (fun _ held => held) inputs (changes published) := by
  induction inputs using List.reverseRecOn generalizing state published with
  | nil =>
      cases processed
      exact ⟨incremental.init, answers_nil⟩
  | append_singleton seen change induction =>
      obtain ⟨before, earlier, last, reached, stepped, rfl⟩ :=
        Transducer.tryRun_concat_eq_some processed
      obtain ⟨related, answers⟩ := induction
        (wellFormed.truncate (List.prefix_append _ _))
        (fun part start => small part (start.trans (List.prefix_append _ _)))
        reached
      obtain ⟨mAggrState, iterated, kept⟩ := incremental.iterate_live wellFormed
        (small seen (List.prefix_append _ _)) (small _ List.prefix_rfl) related
      rw [processDataElement_triggerAll, iterated, Option.bind_some,
        Option.map_eq_some_iff] at stepped
      obtain ⟨result, valued, equal⟩ := stepped
      cases equal
      refine ⟨kept, ?_⟩
      rw [changes_append]
      exact answers.concat change
        (incremental.sound (small _ List.prefix_rfl) kept valued)

/-- The operator gets through a stream that always leaves a live tuple. -/
theorem process_isSome (incremental : Incremental aggregate spec holds)
    (wellFormed : WellFormed inputs)
    (small : ∀ seen, seen <+: inputs → (live seen).card < 2 ^ 32)
    (remaining : ∀ seen change, seen ++ [change] <+: inputs →
      live (seen ++ [change]) ≠ 0) :
    (process (triggerAll aggregate) inputs).isSome := by
  induction inputs using List.reverseRecOn with
  | nil => rfl
  | append_singleton seen change induction =>
      have earlier := List.prefix_append seen [change]
      have before := induction (wellFormed.truncate earlier)
        (fun part start => small part (start.trans earlier))
        (fun part other start => remaining part other (start.trans earlier))
      obtain ⟨⟨state, published⟩, reached⟩ := Option.isSome_iff_exists.mp before
      obtain ⟨related, _⟩ := process_answers incremental
        (wellFormed.truncate earlier)
        (fun part start => small part (start.trans earlier)) reached
      obtain ⟨mAggrState, iterated, kept⟩ := incremental.iterate_live wellFormed
        (small seen earlier) (small _ List.prefix_rfl) related
      obtain ⟨result, valued⟩ := incremental.total
        (remaining seen change List.prefix_rfl) (small _ List.prefix_rfl) kept
      unfold process at reached ⊢
      rw [Transducer.tryRun_concat, reached, Option.bind_some,
        processDataElement_triggerAll, iterated, Option.bind_some, valued]
      rfl

end Aggregation

/-! ### One state for every group -/

namespace GroupedAggregation

variable {K : Type} [DecidableEq K] {mGroupByFunc : α → K}
  {aggregate : AggregateFunc α S Out} {spec : Multiset α → Out → Prop}
  {holds : Multiset α → S → Prop} {inputs : List (Change α)}

/-- One more change of a well formed stream updates the table and leads to a state
of its group. -/
theorem updateTable_live (incremental : Incremental aggregate spec holds)
    {seen : List (Change α)} {change : Change α}
    {mAggregateTable : HashTable K S} (wellFormed : WellFormed (seen ++ [change]))
    (before : ∀ grpKey, (groupOf mGroupByFunc grpKey (live seen)).card < 2 ^ 32)
    (after : ∀ grpKey,
      (groupOf mGroupByFunc grpKey (live (seen ++ [change]))).card < 2 ^ 32)
    (represents : Represents mGroupByFunc holds mAggregateTable (live seen)) :
    ∃ next members, updateTable aggregate (mGroupByFunc change.data)
        mAggregateTable change = some (next, some members) ∧
      Represents mGroupByFunc holds next (live (seen ++ [change])) ∧
      holds (groupOf mGroupByFunc (mGroupByFunc change.data)
        (live (seen ++ [change]))) members := by
  obtain ⟨data, outdated⟩ := change
  cases outdated with
  | false =>
      have fits := after (mGroupByFunc data)
      rw [live_concat_new] at fits ⊢
      exact represents.new incremental data fits
  | true =>
      have present := ((wellFormed_concat_outdated _ _).mp wellFormed).2
      have fits := before (mGroupByFunc data)
      rw [← Multiset.cons_erase present] at represents fits
      rw [live_concat_outdated]
      exact represents.outdated incremental data fits

theorem process_answers (incremental : Incremental aggregate spec holds)
    (wellFormed : WellFormed inputs)
    (small : ∀ seen, seen <+: inputs → ∀ grpKey,
      (groupOf mGroupByFunc grpKey (live seen)).card < 2 ^ 32)
    {state : State K S} {published : List (Published Out)}
    (processed : process (triggerAll mGroupByFunc aggregate) inputs =
      some (state, published)) :
    Represents mGroupByFunc holds state.mAggregateTable (live inputs) ∧
      Answers spec (fun data held => groupOf mGroupByFunc (mGroupByFunc data) held)
        inputs (changes published) := by
  induction inputs using List.reverseRecOn generalizing state published with
  | nil =>
      cases processed
      exact ⟨represents_empty mGroupByFunc holds, answers_nil⟩
  | append_singleton seen change induction =>
      obtain ⟨before, earlier, last, reached, stepped, rfl⟩ :=
        Transducer.tryRun_concat_eq_some processed
      obtain ⟨represents, answers⟩ := induction
        (wellFormed.truncate (List.prefix_append _ _))
        (fun part start => small part (start.trans (List.prefix_append _ _)))
        reached
      obtain ⟨mAggregateTable, members, updated, kept, related⟩ :=
        updateTable_live incremental wellFormed
          (small seen (List.prefix_append _ _)) (small _ List.prefix_rfl)
          represents
      rw [processDataElement_triggerAll, updated, Option.bind_some,
        Option.map_eq_some_iff] at stepped
      obtain ⟨result, valued, equal⟩ := stepped
      cases equal
      refine ⟨kept, ?_⟩
      rw [changes_append]
      exact answers.concat change
        (incremental.sound (small _ List.prefix_rfl _) related valued)

/-- The operator gets through a stream that always leaves a live tuple of the
group. -/
theorem process_isSome (incremental : Incremental aggregate spec holds)
    (wellFormed : WellFormed inputs)
    (small : ∀ seen, seen <+: inputs → ∀ grpKey,
      (groupOf mGroupByFunc grpKey (live seen)).card < 2 ^ 32)
    (remaining : ∀ seen change, seen ++ [change] <+: inputs →
      groupOf mGroupByFunc (mGroupByFunc change.data)
        (live (seen ++ [change])) ≠ 0) :
    (process (triggerAll mGroupByFunc aggregate) inputs).isSome := by
  induction inputs using List.reverseRecOn with
  | nil => rfl
  | append_singleton seen change induction =>
      have earlier := List.prefix_append seen [change]
      have before := induction (wellFormed.truncate earlier)
        (fun part start => small part (start.trans earlier))
        (fun part other start => remaining part other (start.trans earlier))
      obtain ⟨⟨state, published⟩, reached⟩ := Option.isSome_iff_exists.mp before
      obtain ⟨represents, _⟩ := process_answers incremental
        (wellFormed.truncate earlier)
        (fun part start => small part (start.trans earlier)) reached
      obtain ⟨mAggregateTable, members, updated, _, related⟩ :=
        updateTable_live incremental wellFormed (small seen earlier)
          (small _ List.prefix_rfl) represents
      obtain ⟨result, valued⟩ := incremental.total
        (remaining seen change List.prefix_rfl) (small _ List.prefix_rfl _)
        related
      unfold process at reached ⊢
      rw [Transducer.tryRun_concat, reached, Option.bind_some,
        processDataElement_triggerAll, updated, Option.bind_some]
      simp only [valued, Option.map_some, Option.isSome_some]

end GroupedAggregation

end PipeFabric
