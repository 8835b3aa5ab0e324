import PipeFabric.Dsl.Pipe
import PipeFabric.Library.TransitionSystem

/-!
# Building a dataflow

All pipes of a topology put their operators at the end of one list.  A pipe keeps an
iterator to the first of the operators it added last, and tells where they end by
counting or by the end of the list.  An operator is told by its position in the list.
The links between operators are left out except for those that `merge` makes.
-/

namespace PipeFabric

/-- What `castOperator` sees of an operator: the type of the tuples it publishes, and
whether it is a `PartitionBy`. -/
structure BaseOp (Ty : Type) where
  output : Ty
  isPartitionBy : Bool
  deriving DecidableEq

/-- An iterator of a `std::list`, which stays at its element when others are added. -/
inductive OpIterator where
  | element (position : Nat)
  | publisherEnd
  deriving DecidableEq

structure Dataflow (Ty : Type) where
  publishers : List (BaseOp Ty)
  deriving DecidableEq

namespace Dataflow

variable {Ty : Type}

/-- `Dataflow::addPublisher`. -/
def addPublisher (dataflow : Dataflow Ty) (op : BaseOp Ty) : Dataflow Ty × OpIterator :=
  (⟨dataflow.publishers ++ [op]⟩, .element dataflow.publishers.length)

/-- `Dataflow::addPublisherList`. -/
def addPublisherList (dataflow : Dataflow Ty) (lst : List (BaseOp Ty)) :
    Dataflow Ty × OpIterator :=
  (⟨dataflow.publishers ++ lst⟩,
    if lst.isEmpty then .publisherEnd else .element dataflow.publishers.length)

/-- `Dataflow::size`. -/
def size (dataflow : Dataflow Ty) : Nat := dataflow.publishers.length

/-- A pipe with its place in the dataflow.  `own` are the positions of the operators that
were added by the call that returned the pipe; the program does not keep them, and a
`PartitionBy` is not one of them. -/
structure Pipe (Ty : Type) where
  tuple : Ty
  partitioningState : PartitioningState
  numPartitions : Nat
  tailIter : OpIterator
  own : List Nat
  deriving DecidableEq

variable [DecidableEq Ty]

namespace Pipe

/-- `Pipe::getPublisher`, with its assertion. -/
def getPublisher (dataflow : Dataflow Ty) (pipe : Pipe Ty) : Option (BaseOp Ty) :=
  match pipe.tailIter with
  | .element position => dataflow.publishers[position]?
  | .publisherEnd => none

/-- The operators from the iterator to the end of the list. -/
def getPublishers (dataflow : Dataflow Ty) (pipe : Pipe Ty) : List (BaseOp Ty) :=
  match pipe.tailIter with
  | .element position => dataflow.publishers.drop position
  | .publisherEnd => []

/-- `Pipe::addPublisher`, for an operator whose source publishes elements of this type. -/
def addPublisher (dataflow : Dataflow Ty) (pipe : Pipe Ty) (element : Ty) (op : BaseOp Ty) :
    Option (Dataflow Ty × OpIterator) := do
  let pOp ← getPublisher dataflow pipe
  if pOp.output = element then some (dataflow.addPublisher op) else none

/-- `Pipe::addPartitionedPublisher`.  It changes the pipe it is called on. -/
def addPartitionedPublisher (dataflow : Dataflow Ty) (pipe : Pipe Ty) (element : Ty)
    (opList : List (BaseOp Ty)) : Option (Pipe Ty × Dataflow Ty × OpIterator) :=
  match pipe.partitioningState with
  | .NoPartitioning => none
  | .FirstInPartitioning => do
      let pOp ← getPublisher dataflow pipe
      if pOp.isPartitionBy ∧ pOp.output = element then
        some ({ pipe with partitioningState := .NextInPartitioning },
          dataflow.addPublisherList opList)
      else none
  | .NextInPartitioning =>
      if ∀ pOp ∈ (getPublishers dataflow pipe).take opList.length, pOp.output = element then
        some (pipe, dataflow.addPublisherList opList)
      else none

end Pipe

/-! ## The methods of a pipe -/

/-- What a call of `merge` on a partitioned pipe connected, or `none` where it threw. -/
structure Merging where
  own : List Nat
  connected : Option (List Nat)
  deriving DecidableEq

/-- The pipes that exist, in the order of their construction, and a record of the calls of
`merge` that is no part of the program. -/
structure State (Ty : Type) where
  dataflow : Dataflow Ty
  pipes : List (Pipe Ty)
  merges : List Merging
  deriving DecidableEq

def State.empty : State Ty := ⟨⟨[]⟩, [], []⟩

/-- The state after a method of a pipe that returned another one. -/
def State.returned (state : State Ty) (dataflow : Dataflow Ty) (pipe : Pipe Ty) : State Ty :=
  { state with dataflow := dataflow, pipes := state.pipes ++ [pipe] }

/-- The positions of the operators that are added next. -/
def next (dataflow : Dataflow Ty) (number : Nat) : List Nat :=
  List.range' dataflow.size number

/-- `Topology::newStreamFromFile` and its like. -/
def newStream (state : State Ty) (output : Ty) : State Ty :=
  let (dataflow, iter) := state.dataflow.addPublisher ⟨output, false⟩
  state.returned dataflow
    { tuple := output
      partitioningState := .NoPartitioning
      numPartitions := 0
      tailIter := iter
      own := state.dataflow.next 1 }

/-- A method that adds no operator to the list, like `Pipe::keyBy` and `Pipe::print`. -/
def assign (state : State Ty) (pipe : Pipe Ty) : State Ty :=
  state.returned state.dataflow pipe

/-- A method that adds one operator to a pipe without partitions and one for each
partition otherwise, like `Pipe::map`. -/
def append (state : State Ty) (number : Nat) (pipe : Pipe Ty) (element output : Ty) :
    Option (State Ty) :=
  if pipe.partitioningState = .NoPartitioning then do
    let (dataflow, iter) ← Pipe.addPublisher state.dataflow pipe element ⟨output, false⟩
    some (state.returned dataflow
      { pipe with tuple := output, tailIter := iter, own := state.dataflow.next 1 })
  else do
    let ops := List.replicate pipe.numPartitions ⟨output, false⟩
    let (this, dataflow, iter) ←
      Pipe.addPartitionedPublisher state.dataflow pipe element ops
    some ({ state with pipes := state.pipes.set number this }.returned dataflow
      { this with
        tuple := output
        tailIter := iter
        own := state.dataflow.next pipe.numPartitions })

/-- A method that adds one operator in any case, like `Pipe::matrix_slice`. -/
def appendOne (state : State Ty) (pipe : Pipe Ty) (element output : Ty) :
    Option (State Ty) := do
  let (dataflow, iter) ← Pipe.addPublisher state.dataflow pipe element ⟨output, false⟩
  some (state.returned dataflow
    { pipe with tuple := output, tailIter := iter, own := state.dataflow.next 1 })

/-- `Pipe::partitionBy`. -/
def partitionBy (state : State Ty) (pipe : Pipe Ty) (nPartitions : Nat) :
    Option (State Ty) := do
  if pipe.partitioningState = .NoPartitioning then
    let (dataflow, iter) ←
      Pipe.addPublisher state.dataflow pipe pipe.tuple ⟨pipe.tuple, true⟩
    some (state.returned dataflow
      { tuple := pipe.tuple
        partitioningState := .FirstInPartitioning
        numPartitions := nPartitions
        tailIter := iter
        own := [] })
  else none

/-- `Pipe::join` as far as it adds operators.  What the joins are connected to, and
whether the casts succeed, is left out. -/
def join (state : State Ty) (number : Nat) (pipe : Pipe Ty) (output : Ty) : State Ty :=
  let ops := if pipe.partitioningState = .NoPartitioning then 1 else pipe.numPartitions
  let this := if pipe.partitioningState = .FirstInPartitioning then
    { pipe with partitioningState := .NextInPartitioning } else pipe
  let (dataflow, iter) := state.dataflow.addPublisherList (List.replicate ops ⟨output, false⟩)
  { state with pipes := state.pipes.set number this }.returned dataflow
    { this with tuple := output, tailIter := iter, own := state.dataflow.next ops }

/-- `Pipe::scaleJoin` as far as it adds operators. -/
def scaleJoin (state : State Ty) (pipe : Pipe Ty) (threadnum : Nat) (output : Ty) :
    State Ty :=
  let (queues, _) :=
    state.dataflow.addPublisherList (List.replicate threadnum ⟨pipe.tuple, false⟩)
  let (joins, _) := queues.addPublisherList (List.replicate threadnum ⟨output, false⟩)
  let (dataflow, iter) := joins.addPublisher ⟨output, false⟩
  state.returned dataflow
    { pipe with tuple := output, tailIter := iter, own := joins.next 1 }

/-- The operators that `Pipe::merge` connects to the `Merge` operator, unless one of them
publishes tuples of another type. -/
def connected (dataflow : Dataflow Ty) (pipe : Pipe Ty) : Option (List Nat) :=
  match pipe.tailIter with
  | .publisherEnd => some []
  | .element position =>
      if ∀ pOp ∈ dataflow.publishers.drop position, pOp.output = pipe.tuple then
        some (List.range' position (dataflow.size - position))
      else none

/-- `Pipe::merge`.  On a pipe that is not partitioned it throws, by intention; every other
call is recorded, and where it throws nothing is added. -/
def merge (state : State Ty) (pipe : Pipe Ty) : Option (State Ty) :=
  if pipe.partitioningState = .NextInPartitioning then
    let merging : Merging := ⟨pipe.own, connected state.dataflow pipe⟩
    let state := { state with merges := state.merges ++ [merging] }
    match merging.connected with
    | none => some state
    | some _ =>
        let (merged, _) := state.dataflow.addPublisher ⟨pipe.tuple, false⟩
        let (dataflow, iter2) := merged.addPublisher ⟨pipe.tuple, false⟩
        some (state.returned dataflow
          { tuple := pipe.tuple
            partitioningState := .NoPartitioning
            numPartitions := 0
            tailIter := iter2
            own := merged.next 1 })
  else none

/-- The calls a program makes, each on one of its pipes. -/
inductive Action (Ty : Type) where
  | newStream (output : Ty)
  | assign (pipe : Nat)
  | append (pipe : Nat) (element output : Ty)
  | appendOne (pipe : Nat) (element output : Ty)
  | partitionBy (pipe nPartitions : Nat)
  | join (pipe : Nat) (output : Ty)
  | scaleJoin (pipe threadnum : Nat) (output : Ty)
  | merge (pipe : Nat)
  deriving DecidableEq

/-- The next call, or `none` where it throws an exception. -/
def step (state : State Ty) : Action Ty → Option (State Ty)
  | .newStream output => some (newStream state output)
  | .assign number => state.pipes[number]?.map (assign state)
  | .append number element output =>
      state.pipes[number]?.bind fun pipe => append state number pipe element output
  | .appendOne number element output =>
      state.pipes[number]?.bind fun pipe => appendOne state pipe element output
  | .partitionBy number nPartitions =>
      state.pipes[number]?.bind fun pipe => partitionBy state pipe nPartitions
  | .join number output => state.pipes[number]?.map fun pipe => join state number pipe output
  | .scaleJoin number threadnum output =>
      state.pipes[number]?.map fun pipe => scaleJoin state pipe threadnum output
  | .merge number => state.pipes[number]?.bind (merge state)

end Dataflow

end PipeFabric
