import PipeFabric.Qop.GroupedAggregation

/-!
# The operators a pipe constructs

`Pipe::aggregate` and `Pipe::groupBy` construct one operator on a pipe that is not
partitioned, and one for each partition otherwise.  What they construct depends on the
extractors that are assigned to the pipe.
-/

namespace PipeFabric

inductive PartitioningState where
  | NoPartitioning
  | FirstInPartitioning
  | NextInPartitioning
  deriving DecidableEq

/-- The members of `Pipe` that the two methods read.  An extractor is a `boost::any`; one
that is assigned has the type of the elements of the pipe. -/
structure Pipe (α K : Type) where
  partitioningState : PartitioningState
  timestampExtractor : Option (α → Int)
  keyExtractor : Option (α → K)
  numPartitions : Nat

/-- The constructor of `Aggregation` that takes a trigger type. -/
def Aggregation.new {α S Out : Type} (aggregate : AggregateFunc α S Out)
    (tType : AggregationTriggerType) (tInterval : UInt32) : Aggregation α S Out where
  mAggregate := aggregate
  mTimestampExtractor := none
  mTriggerType := tType
  mTriggerInterval := .count tInterval

/-- The constructors of `GroupedAggregation` without a timestamp extractor. -/
def GroupedAggregation.new {α K S Out : Type} (groupby_fun : α → K)
    (aggregate : AggregateFunc α S Out) (tType : AggregationTriggerType)
    (tInterval : UInt32) : GroupedAggregation α K S Out where
  mGroupByFunc := groupby_fun
  mAggregate := aggregate
  mTimestampExtractor := none
  mTriggerType := tType
  mTriggerInterval := .count tInterval

namespace Pipe

variable {α K S Out : Type}

/-- The operators that `Pipe::aggregate` adds to the dataflow, or `none` where the
`any_cast` of the extractor throws. -/
def aggregate (pipe : Pipe α K) (aggregate : AggregateFunc α S Out)
    (tType : AggregationTriggerType) (tInterval : UInt32) :
    Option (List (Aggregation α S Out)) :=
  let tType := if pipe.timestampExtractor.isSome then .TriggerByTimestamp else tType
  if pipe.partitioningState = .NoPartitioning then
    if tType = .TriggerByTimestamp then
      pipe.timestampExtractor.map fun fn => [.ofSeconds aggregate fn tInterval]
    else some [.new aggregate tType tInterval]
  else some (List.replicate pipe.numPartitions (.new aggregate tType tInterval))

/-- The operators that `Pipe::groupBy` adds to the dataflow, or `none` where it throws a
`TopologyException`. -/
def groupBy (pipe : Pipe α K) (aggregate : AggregateFunc α S Out)
    (tType : AggregationTriggerType) (tInterval : UInt32) :
    Option (List (GroupedAggregation α K S Out)) :=
  pipe.keyExtractor.map fun keyFunc =>
    if pipe.partitioningState = .NoPartitioning then
      [.new keyFunc aggregate tType tInterval]
    else List.replicate pipe.numPartitions (.new keyFunc aggregate tType tInterval)

/-- Every operator is constructed with the same arguments. -/
theorem mem_groupBy {pipe : Pipe α K} {aggregate : AggregateFunc α S Out}
    {tType : AggregationTriggerType} {tInterval : UInt32}
    {ops : List (GroupedAggregation α K S Out)} {op : GroupedAggregation α K S Out}
    (constructed : pipe.groupBy aggregate tType tInterval = some ops) (member : op ∈ ops) :
    ∃ keyFunc, pipe.keyExtractor = some keyFunc ∧
      op = .new keyFunc aggregate tType tInterval := by
  obtain ⟨keyFunc, assigned, rfl⟩ := Option.map_eq_some_iff.mp constructed
  refine ⟨keyFunc, assigned, ?_⟩
  split at member
  · exact List.mem_singleton.mp member
  · exact List.eq_of_mem_replicate member

/-- The operators of the partitions of a pipe with timestamps. -/
theorem mem_aggregate {pipe : Pipe α K} {func : α → Int}
    {aggregate : AggregateFunc α S Out} {tType : AggregationTriggerType}
    {tInterval : UInt32} {ops : List (Aggregation α S Out)} {op : Aggregation α S Out}
    (assigned : pipe.timestampExtractor = some func)
    (partitioned : pipe.partitioningState ≠ .NoPartitioning)
    (constructed : pipe.aggregate aggregate tType tInterval = some ops) (member : op ∈ ops) :
    op = .new aggregate .TriggerByTimestamp tInterval := by
  simp only [Pipe.aggregate, assigned, Option.isSome_some, if_true, if_neg partitioned,
    Option.some_inj] at constructed
  subst constructed
  exact List.eq_of_mem_replicate member

/-- The operator of the pipe before it is partitioned. -/
theorem aggregate_unpartitioned {pipe : Pipe α K} {func : α → Int}
    (aggregate : AggregateFunc α S Out) (tType : AggregationTriggerType) (tInterval : UInt32)
    (assigned : pipe.timestampExtractor = some func)
    (unpartitioned : pipe.partitioningState = .NoPartitioning) :
    pipe.aggregate aggregate tType tInterval =
      some [.ofSeconds aggregate func tInterval] := by
  simp [Pipe.aggregate, assigned, unpartitioned]

end Pipe

end PipeFabric
