import PipeFabric.Aggregates.Answers
import PipeFabric.Plans.DistinctViews

/-!
# Aggregates over a query

An aggregation that answers every element is put on top of a query.  Between two
arrivals its latest answer, or its latest one for a group, is the aggregate over what
the query stands for.
-/

namespace PipeFabric

open ChangeStream Published

variable {T K G S Out : Type} [DecidableEq T] [DecidableEq K] [DecidableEq G]

namespace GroupedAggregation

omit [DecidableEq K] in
/-- Changes of other groups leave a group alone. -/
theorem groupOf_live_append {mGroupByFunc : T → G} {grpKey : G} {later : List (Change T)}
    (others : ∀ change ∈ later, mGroupByFunc change.data ≠ grpKey)
    (changes : List (Change T)) :
    groupOf mGroupByFunc grpKey (live (changes ++ later)) =
      groupOf mGroupByFunc grpKey (live changes) := by
  induction later using List.reverseRecOn with
  | nil => rw [List.append_nil]
  | append_singleton later change induction =>
      obtain ⟨before, last⟩ := List.forall_mem_append.mp others
      have other := last change (List.mem_singleton_self change)
      rw [← List.append_assoc, ← induction before]
      obtain ⟨data, outdated⟩ := change
      cases outdated with
      | false =>
          rw [live_concat_new]
          exact groupOf_cons_other other
      | true =>
          rw [live_concat_outdated]
          by_cases present : data ∈ live (changes ++ later)
          · have restored := Multiset.cons_erase present
            conv_rhs => rw [← restored]
            exact (groupOf_cons_other other).symm
          · rw [Multiset.erase_of_notMem present]

end GroupedAggregation

namespace QueryTree

variable {aggregate : AggregateFunc T S Out} {spec : Multiset T → Out → Prop}

end QueryTree

end PipeFabric
