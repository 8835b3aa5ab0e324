import PipeFabric.Library.Transducer
import PipeFabric.Qop.AggregateFunctions
import PipeFabric.Qop.Channels

/-!
# Aggregation of a whole stream

Every element updates the one aggregate state.  When its value is published is
decided by the trigger; an outdated element always publishes it.  A result `none`
stands for an exception or a failure of the aggregate function.  The notifier
thread of `TriggerByTime` works on real time and is left out.
-/

namespace PipeFabric

open ChangeStream Published

inductive AggregationTriggerType where
  | TriggerAll
  | TriggerByCount
  | TriggerByTime
  | TriggerByTimestamp
  deriving DecidableEq

/-- `boost::variant<Timestamp, unsigned int>`. -/
inductive IntervalType where
  | timestamp (interval : Int)
  | count (interval : UInt32)
  deriving DecidableEq

/-- `boost::get<Timestamp>`, which throws on the other alternative. -/
def IntervalType.getTimestamp : IntervalType → Option Int
  | .timestamp interval => some interval
  | .count _ => none

/-- `boost::get<unsigned int>`. -/
def IntervalType.getCount : IntervalType → Option UInt32
  | .timestamp _ => none
  | .count interval => some interval

/-- What the constructors store.  `mAggregate` is the aggregate state before the
first element with `mIterateFunc` and `mFinalFunc`. -/
structure Aggregation (α S Out : Type) where
  mAggregate : AggregateFunc α S Out
  mTimestampExtractor : Option (α → Int)
  mTriggerType : AggregationTriggerType
  mTriggerInterval : IntervalType

namespace Aggregation

variable {α S Out : Type}

/-- The constructor without a timestamp extractor and with its default trigger. -/
def triggerAll (aggregate : AggregateFunc α S Out) : Aggregation α S Out where
  mAggregate := aggregate
  mTimestampExtractor := none
  mTriggerType := .TriggerAll
  mTriggerInterval := .count 0

/-- The constructor with a timestamp extractor and a duration. -/
def ofDuration (aggregate : AggregateFunc α S Out) (func : α → Int) (tInterval : Int) :
    Aggregation α S Out where
  mAggregate := aggregate
  mTimestampExtractor := some func
  mTriggerType := .TriggerByTimestamp
  mTriggerInterval := .timestamp tInterval

/-- The constructor with a timestamp extractor and seconds, which are multiplied in
32 bits. -/
def ofSeconds (aggregate : AggregateFunc α S Out) (func : α → Int) (tInterval : UInt32) :
    Aggregation α S Out :=
  ofDuration aggregate func (tInterval * 1000 * 1000).toNat

structure State (S : Type) where
  mAggrState : S
  mLastTriggerTime : Int
  mCounter : UInt32
  deriving DecidableEq

def State.start (aggregate : AggregateFunc α S Out) : State S where
  mAggrState := aggregate.init
  mLastTriggerTime := 0
  mCounter := 0

/-- `Aggregation::notificationCallback`, which calls `produceAggregates`. -/
def notificationCallback (op : Aggregation α S Out) (state : State S) :
    Option (List (Published Out)) :=
  (op.mAggregate.value state.mAggrState).map fun aggregationResult =>
    [.element ⟨aggregationResult, false⟩, .punctuation .SlideExpired]

/-- `Aggregation::processDataElement`. -/
def processDataElement (op : Aggregation α S Out) (state : State S)
    (input : Change α) : Option (State S × List (Published Out)) := do
  let mAggrState ← op.mAggregate.iterate state.mAggrState input.data input.outdated
  let state := { state with mAggrState := mAggrState }
  if !input.outdated then
    match op.mTriggerType with
    | .TriggerAll =>
        let tn ← op.mAggregate.value mAggrState
        some (state, [.element ⟨tn, input.outdated⟩])
    | .TriggerByCount =>
        let state := { state with mCounter := state.mCounter + 1 }
        let interval ← op.mTriggerInterval.getCount
        if state.mCounter = interval then
          let published ← op.notificationCallback state
          some ({ state with mCounter := 0 }, published)
        else some (state, [])
    | .TriggerByTimestamp =>
        let extractor ← op.mTimestampExtractor
        let ts := extractor input.data
        let interval ← op.mTriggerInterval.getTimestamp
        if ts - state.mLastTriggerTime ≥ interval then
          let published ← op.notificationCallback state
          some ({ state with mLastTriggerTime := ts }, published)
        else some (state, [])
    | .TriggerByTime => some (state, [])
  else
    let aggregationResult ← op.mAggregate.value mAggrState
    some (state, [.element ⟨aggregationResult, true⟩])

/-- The operator after a stream, with everything it has published. -/
def process (op : Aggregation α S Out) (inputs : List (Change α)) :
    Option (State S × List (Published Out)) :=
  Transducer.tryRun (processDataElement op) (.start op.mAggregate) inputs

/-- With `TriggerAll` every element publishes the aggregate it leads to. -/
theorem processDataElement_triggerAll (aggregate : AggregateFunc α S Out)
    (state : State S) (input : Change α) :
    processDataElement (triggerAll aggregate) state input =
      (aggregate.iterate state.mAggrState input.data input.outdated).bind
        fun mAggrState => (aggregate.value mAggrState).map fun tn =>
          ({ state with mAggrState := mAggrState },
            [.element ⟨tn, input.outdated⟩]) := by
  obtain ⟨data, outdated⟩ := input
  unfold processDataElement triggerAll
  simp only [Option.bind_eq_bind]
  congr 1
  funext mAggrState
  cases outdated <;> cases aggregate.value mAggrState <;> rfl

end Aggregation

end PipeFabric
