import PipeFabric.Dsl.Pipe

/-!
# Aggregation of a partitioned pipe with timestamps

Timestamps that are assigned to a pipe make its aggregations trigger by timestamp.  The
operators of the partitions are not given the extractor, so each of them fails at the
first new element that gets as far as the trigger.
-/

namespace PipeFabric

open ChangeStream Published

namespace Aggregation

variable {α S Out : Type}

/-- No new element reaches the trigger, unless it makes the aggregate functions fail, be
it in the call that produces the result. -/
def TriggersNothing (aggregate : AggregateFunc α S Out) (func : α → Int) (interval : Int) :
    S → List (Change α) → Prop
  | _, [] => True
  | mAggrState, input :: inputs =>
      ∀ updated, aggregate.iterate mAggrState input.data input.outdated = some updated →
        if input.outdated then
          ∀ result, aggregate.value updated = some result →
            TriggersNothing aggregate func interval updated inputs
        else aggregate.value updated = none ∧ interval ≤ func input.data

/-- What the operator of a partition and that of the whole pipe make of an outdated
element. -/
theorem processDataElement_retracts (op : Aggregation α S Out) (state : State S) (data : α) :
    processDataElement op state ⟨data, true⟩ =
      (op.mAggregate.iterate state.mAggrState data true).bind fun updated =>
        (op.mAggregate.value updated).map fun result =>
          ({ state with mAggrState := updated }, [.element ⟨result, true⟩]) := by
  unfold processDataElement
  simp only [Option.bind_eq_bind, Bool.not_true, Bool.false_eq_true, if_false]
  congr 1
  funext updated
  cases op.mAggregate.value updated <;> rfl

/-- In a partition a new element is never processed to its end. -/
theorem processDataElement_partition (aggregate : AggregateFunc α S Out)
    (tInterval : UInt32) (state : State S) (data : α) :
    processDataElement (.new aggregate .TriggerByTimestamp tInterval) state ⟨data, false⟩ =
      none := by
  unfold processDataElement Aggregation.new
  cases aggregate.iterate state.mAggrState data false <;> rfl

/-- On a pipe that is not partitioned it is, unless one of the functions fails. -/
theorem processDataElement_whole (aggregate : AggregateFunc α S Out) (func : α → Int)
    (interval : Int) (state : State S) (data : α) :
    processDataElement (.ofDuration aggregate func interval) state ⟨data, false⟩ = none ↔
      ∀ updated, aggregate.iterate state.mAggrState data false = some updated →
        aggregate.value updated = none ∧ interval ≤ func data - state.mLastTriggerTime := by
  unfold processDataElement ofDuration
  cases iterated : aggregate.iterate state.mAggrState data false with
  | none => simp
  | some updated =>
      by_cases elapsed : interval ≤ func data - state.mLastTriggerTime
      · cases produced : aggregate.value updated <;>
          simp [IntervalType.getTimestamp, elapsed, notificationCallback, produced]
      · simp [IntervalType.getTimestamp, elapsed]

/-- The induction is on the stream: both operators are in the same state until a new
element comes, and one of them fails there. -/
theorem emissions_eq_iff (aggregate : AggregateFunc α S Out) (func : α → Int)
    (tInterval : UInt32) (state : State S) (untriggered : state.mLastTriggerTime = 0)
    (inputs : List (Change α)) :
    Transducer.emissions (processDataElement (.new aggregate .TriggerByTimestamp tInterval))
        state inputs =
      Transducer.emissions (processDataElement (.ofSeconds aggregate func tInterval))
        state inputs ↔
    TriggersNothing aggregate func (tInterval * 1000 * 1000).toNat state.mAggrState
      inputs := by
  induction inputs generalizing state with
  | nil => exact iff_of_true rfl trivial
  | cons input inputs induction =>
      obtain ⟨data, outdated⟩ := input
      cases outdated with
      | true =>
          rw [Transducer.emissions_cons_eq_iff, processDataElement_retracts]
          · simp only [TriggersNothing, if_true, ofSeconds, ofDuration,
              Option.bind_eq_some_iff, Option.map_eq_some_iff]
            constructor
            · intro same updated iterated result produced
              exact (induction { state with mAggrState := updated } untriggered).mp
                (same _ ⟨updated, iterated, result, produced, rfl⟩)
            · intro nothing next processed
              obtain ⟨updated, iterated, result, produced, rfl⟩ := processed
              exact (induction { state with mAggrState := updated } untriggered).mpr
                (nothing updated iterated result produced)
          · rw [processDataElement_retracts, processDataElement_retracts]
            rfl
      | false =>
          rw [Transducer.emissions_cons_eq_iff_of_fails
            (processDataElement_partition aggregate tInterval state data), ofSeconds,
            processDataElement_whole, untriggered]
          simp [TriggersNothing]

end Aggregation

/-- The operator of a partition does what the operator of the unpartitioned pipe does just
when it never has to decide whether a new element triggers. -/
theorem partitioned_agrees_iff {α K S Out : Type} {pipe : Pipe α K} {func : α → Int}
    (assigned : pipe.timestampExtractor = some func)
    (partitioned : pipe.partitioningState ≠ .NoPartitioning)
    (aggregate : AggregateFunc α S Out) (tType : AggregationTriggerType) (tInterval : UInt32)
    {ops : List (Aggregation α S Out)} {op whole : Aggregation α S Out}
    (constructed : pipe.aggregate aggregate tType tInterval = some ops) (member : op ∈ ops)
    (alone : Pipe.aggregate { pipe with partitioningState := .NoPartitioning } aggregate tType
      tInterval = some [whole]) (inputs : List (Change α)) :
    Transducer.emissions op.processDataElement (.start op.mAggregate) inputs =
        Transducer.emissions whole.processDataElement (.start whole.mAggregate) inputs ↔
      Aggregation.TriggersNothing aggregate func (tInterval * 1000 * 1000).toNat
        aggregate.init inputs := by
  have extractor : Pipe.timestampExtractor
      { pipe with partitioningState := .NoPartitioning } = some func := assigned
  rw [Pipe.aggregate_unpartitioned aggregate tType tInterval extractor rfl] at alone
  obtain rfl := List.singleton_inj.mp (Option.some.inj alone)
  obtain rfl := Pipe.mem_aggregate assigned partitioned constructed member
  exact Aggregation.emissions_eq_iff aggregate func tInterval (.start aggregate) rfl inputs

theorem partitioned_agrees_retraction :
    Transducer.emissions
        (Aggregation.processDataElement (.new (AggrCount Int) .TriggerByTimestamp 1))
        (.start (AggrCount Int)) [⟨7, true⟩] =
      Transducer.emissions
        (Aggregation.processDataElement (.ofSeconds (AggrCount Int) id 1))
        (.start (AggrCount Int)) [⟨7, true⟩] ↔
    Aggregation.TriggersNothing (AggrCount Int) id ((1 * 1000 * 1000 : UInt32).toNat)
      (AggrCount Int).init [⟨7, true⟩] := by
  have constructed : Pipe.aggregate (⟨.FirstInPartitioning, some id, none, 1⟩ : Pipe Int Int)
      (AggrCount Int) .TriggerAll 1 = some [.new (AggrCount Int) .TriggerByTimestamp 1] := rfl
  exact partitioned_agrees_iff rfl (by decide) (AggrCount Int) .TriggerAll 1 constructed
    (List.mem_singleton.mpr rfl) rfl [⟨7, true⟩]

/-- With an interval of one second the first element of a partition fails. -/
theorem not_partitioned_agrees :
    ¬ ∀ (pipe : Pipe Int Int) (func : Int → Int),
      pipe.timestampExtractor = some func → pipe.partitioningState ≠ .NoPartitioning →
        ∀ (tType : AggregationTriggerType) (tInterval : UInt32) (ops : _)
          (op whole : Aggregation Int UInt32 UInt32),
          pipe.aggregate (AggrCount Int) tType tInterval = some ops → op ∈ ops →
            Pipe.aggregate { pipe with partitioningState := .NoPartitioning } (AggrCount Int)
              tType tInterval = some [whole] →
            ∀ inputs, Transducer.emissions op.processDataElement (.start op.mAggregate) inputs =
              Transducer.emissions whole.processDataElement (.start whole.mAggregate)
                inputs := by
  intro every
  have same := every ⟨.FirstInPartitioning, some id, none, 1⟩ id rfl (by decide) .TriggerAll 1
    _ _ _ rfl (List.mem_singleton.mpr rfl) rfl [⟨0, false⟩]
  revert same
  decide

end PipeFabric
