import PipeFabric.Qop.Aggregation

/-!
# Aggregation by groups

The operator keeps an aggregate state for every group key, with a counter that
decides when the group vanishes.  An outdated element of a group that is not in
the table is ignored.
-/

namespace PipeFabric

open ChangeStream Published

/-- `AggregateStateBase` with the members of the derived class.  The timestamp,
which only a user-defined function reads, is left out. -/
structure AggregateState (S : Type) where
  mCounter : UInt32
  members : S
  deriving DecidableEq

/-- What the constructors store.  `mAggregate` is a new aggregate state with
`mIterateFunc` and `mFinalFunc`. -/
structure GroupedAggregation (α K S Out : Type) where
  mGroupByFunc : α → K
  mAggregate : AggregateFunc α S Out
  mTimestampExtractor : Option (α → Int)
  mTriggerType : AggregationTriggerType
  mTriggerInterval : IntervalType

namespace GroupedAggregation

variable {α K S Out : Type}

/-- The first constructor with its default trigger. -/
def triggerAll (mGroupByFunc : α → K) (aggregate : AggregateFunc α S Out) :
    GroupedAggregation α K S Out where
  mGroupByFunc := mGroupByFunc
  mAggregate := aggregate
  mTimestampExtractor := none
  mTriggerType := .TriggerAll
  mTriggerInterval := .count 0

/-- `boost::unordered_map<KeyType, AggregateStatePtr>`. -/
abbrev HashTable (K S : Type) : Type := Finmap fun _ : K => AggregateState S

structure State (K S : Type) where
  mAggregateTable : HashTable K S
  mLastTriggerTime : Int
  mCounter : UInt32

def State.start : State K S where
  mAggregateTable := ∅
  mLastTriggerTime := 0
  mCounter := 0

variable [DecidableEq K]

/-- `GroupedAggregation::processNewAggregationGroup` up to the publishing, with
the new aggregate state. -/
def processNewAggregationGroup (aggregate : AggregateFunc α S Out) (grpKey : K)
    (mAggregateTable : HashTable K S) (data : α) : Option (HashTable K S × S) :=
  (aggregate.iterate aggregate.init data false).map fun members =>
    (mAggregateTable.insert grpKey { mCounter := 1, members := members },
      members)

/-- `GroupedAggregation::updateAggregationGroup` before and after the publishing,
with the updated aggregate state. -/
def updateAggregationGroup (aggregate : AggregateFunc α S Out) (grpKey : K)
    (mAggregateTable : HashTable K S) (aggrState : AggregateState S) (data : α)
    (outdated : Bool) : Option (HashTable K S × S) :=
  let mCounter := aggrState.mCounter + if outdated then -1 else 1
  let outdatedAggregate := mCounter = 0
  (aggregate.iterate aggrState.members data outdated).map fun members =>
    (if outdatedAggregate then mAggregateTable.erase grpKey
      else mAggregateTable.insert grpKey
        { mCounter := mCounter, members := members },
      members)

/-- What `processDataElement` does to the aggregate table, with the updated state
of the group unless the element is ignored. -/
def updateTable (aggregate : AggregateFunc α S Out) (grpKey : K)
    (mAggregateTable : HashTable K S) (input : Change α) :
    Option (HashTable K S × Option S) :=
  match mAggregateTable.lookup grpKey with
  | none =>
      if input.outdated then some (mAggregateTable, none)
      else
        (processNewAggregationGroup aggregate grpKey mAggregateTable
          input.data).map fun new => (new.1, some new.2)
  | some aggrState =>
      (updateAggregationGroup aggregate grpKey mAggregateTable aggrState
        input.data input.outdated).map fun updated => (updated.1, some updated.2)

/-- `GroupedAggregation::produceAggregate`, as `processNewAggregationGroup` and
`updateAggregationGroup` call it. -/
def produceAggregate (op : GroupedAggregation α K S Out) (updated : Option S)
    (outdated : Bool) : Option (List (Published Out)) :=
  match op.mTriggerType, updated with
  | .TriggerAll, some members =>
      (op.mAggregate.value members).map fun tn => [.element ⟨tn, outdated⟩]
  | _, _ => some []

/-- `GroupedAggregation::notificationCallback`.  The calling `processDataElement`
holds the mutex it locks, so the call never returns. -/
def notificationCallback : Option (List (Published Out)) := none

/-- `GroupedAggregation::processDataElement`. -/
def processDataElement (op : GroupedAggregation α K S Out) (state : State K S)
    (input : Change α) : Option (State K S × List (Published Out)) := do
  let grpKey := op.mGroupByFunc input.data
  let (mAggregateTable, updated) ←
    updateTable op.mAggregate grpKey state.mAggregateTable input
  let published ← op.produceAggregate updated input.outdated
  let state := { state with mAggregateTable := mAggregateTable }
  match op.mTriggerType with
  | .TriggerByCount =>
      let state := { state with mCounter := state.mCounter + 1 }
      let interval ← op.mTriggerInterval.getCount
      if state.mCounter = interval then
        let notified ← notificationCallback
        some ({ state with mCounter := 0 }, published ++ notified)
      else some (state, published)
  | .TriggerByTimestamp =>
      let extractor ← op.mTimestampExtractor
      let ts := extractor input.data
      let interval ← op.mTriggerInterval.getTimestamp
      if ts - state.mLastTriggerTime ≥ interval then
        let notified ← notificationCallback
        some ({ state with mLastTriggerTime := ts }, published ++ notified)
      else some (state, published)
  | _ => some (state, published)

/-- The operator after a stream, with everything it has published. -/
def process (op : GroupedAggregation α K S Out) (inputs : List (Change α)) :
    Option (State K S × List (Published Out)) :=
  Transducer.tryRun (processDataElement op) .start inputs

/-- The aggregate table after a stream, whatever is published on the way. -/
def tableAfter (mGroupByFunc : α → K) (aggregate : AggregateFunc α S Out)
    (inputs : List (Change α)) : Option (HashTable K S) :=
  inputs.foldlM (fun mAggregateTable input =>
    (updateTable aggregate (mGroupByFunc input.data) mAggregateTable
      input).map Prod.fst) ∅

theorem tableAfter_concat (mGroupByFunc : α → K)
    (aggregate : AggregateFunc α S Out) (seen : List (Change α))
    (input : Change α) :
    tableAfter mGroupByFunc aggregate (seen ++ [input]) =
      (tableAfter mGroupByFunc aggregate seen).bind fun mAggregateTable =>
        (updateTable aggregate (mGroupByFunc input.data) mAggregateTable
          input).map Prod.fst := by
  unfold tableAfter
  rw [List.foldlM_append]
  simp

/-- Publishing and triggers do not touch the table. -/
theorem processDataElement_table {op : GroupedAggregation α K S Out}
    {state next : State K S} {input : Change α}
    {published : List (Published Out)}
    (processed : processDataElement op state input = some (next, published)) :
    (updateTable op.mAggregate (op.mGroupByFunc input.data)
      state.mAggregateTable input).map Prod.fst = some next.mAggregateTable := by
  unfold processDataElement at processed
  simp only [Option.bind_eq_bind, Option.bind_eq_some_iff] at processed
  obtain ⟨⟨mAggregateTable, updated⟩, update, produced, _, rest⟩ := processed
  rw [update, Option.map_some, Option.some_inj]
  dsimp only at rest ⊢
  split at rest
  · simp only [Option.bind_eq_some_iff] at rest
    obtain ⟨interval, _, rest⟩ := rest
    split at rest
    · simp [notificationCallback] at rest
    · cases rest
      rfl
  · simp only [Option.bind_eq_some_iff] at rest
    obtain ⟨extractor, _, interval, _, rest⟩ := rest
    split at rest
    · simp [notificationCallback] at rest
    · cases rest
      rfl
  · cases rest
    rfl

/-- The table of the operator is `tableAfter`, for every trigger. -/
theorem process_table {op : GroupedAggregation α K S Out}
    {inputs : List (Change α)} {state : State K S}
    {published : List (Published Out)}
    (processed : process op inputs = some (state, published)) :
    tableAfter op.mGroupByFunc op.mAggregate inputs =
      some state.mAggregateTable := by
  induction inputs using List.reverseRecOn generalizing state published with
  | nil =>
      cases processed
      rfl
  | append_singleton seen input induction =>
      obtain ⟨before, earlier, later, reached, stepped, rfl⟩ :=
        Transducer.tryRun_concat_eq_some processed
      rw [tableAfter_concat, induction reached]
      exact processDataElement_table stepped

/-- With `TriggerAll` an element that is not ignored publishes the aggregate of
its group. -/
theorem processDataElement_triggerAll (mGroupByFunc : α → K)
    (aggregate : AggregateFunc α S Out) (state : State K S) (input : Change α) :
    processDataElement (triggerAll mGroupByFunc aggregate) state input =
      (updateTable aggregate (mGroupByFunc input.data) state.mAggregateTable
        input).bind fun update =>
        match update.2 with
        | none => some ({ state with mAggregateTable := update.1 }, [])
        | some members => (aggregate.value members).map fun tn =>
            ({ state with mAggregateTable := update.1 },
              [.element ⟨tn, input.outdated⟩]) := by
  unfold processDataElement triggerAll
  simp only [Option.bind_eq_bind]
  congr 1
  funext ⟨mAggregateTable, updated⟩
  cases updated with
  | none => rfl
  | some members =>
      simp only [produceAggregate]
      cases aggregate.value members <;> rfl

end GroupedAggregation

end PipeFabric
