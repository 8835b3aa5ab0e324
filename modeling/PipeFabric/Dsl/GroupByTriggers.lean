import PipeFabric.Dsl.Pipe

/-!
# Triggers of grouped aggregations

`processDataElement` holds the mutex of the operator when it calls
`notificationCallback`, which locks it again.  A pipe gives the operators it constructs
an interval in elements and no timestamp extractor, so the trigger by timestamp finds
neither of what it reads.
-/

namespace PipeFabric.GroupedAggregation

open ChangeStream Published

variable {α K S Out : Type}

/-- What can go wrong when a trigger is processed. -/
inductive Fault where
  /-- The non-recursive mutex is locked by the thread that holds it. -/
  | relocked
  /-- `boost::get` on the other alternative of the interval. -/
  | intervalNotSet
  /-- A call of an empty `std::function`. -/
  | extractorNotSet
  deriving DecidableEq

/-- The `switch` of `processDataElement`, which runs with the mutex locked, with the
reason why it does not return. -/
def trigger (op : GroupedAggregation α K S Out) (state : State K S) (data : α) :
    Except Fault (State K S) :=
  match op.mTriggerType with
  | .TriggerByCount =>
      let state := { state with mCounter := state.mCounter + 1 }
      match op.mTriggerInterval.getCount with
      | none => .error .intervalNotSet
      | some interval => if state.mCounter = interval then .error .relocked else .ok state
  | .TriggerByTimestamp =>
      match op.mTimestampExtractor with
      | none => .error .extractorNotSet
      | some extractor =>
          match op.mTriggerInterval.getTimestamp with
          | none => .error .intervalNotSet
          | some interval =>
              if extractor data - state.mLastTriggerTime ≥ interval then .error .relocked
              else .ok state
  | _ => .ok state

theorem trigger_count (groupby_fun : α → K) (aggregate : AggregateFunc α S Out)
    (tInterval : UInt32) (state : State K S) (data : α) :
    (GroupedAggregation.new groupby_fun aggregate .TriggerByCount tInterval).trigger state
        data =
      if state.mCounter + 1 = tInterval then .error .relocked
      else .ok { state with mCounter := state.mCounter + 1 } := rfl

variable [DecidableEq K]

/-- `processDataElement` returns when the aggregate functions and the trigger do. -/
theorem processDataElement_eq_trigger (op : GroupedAggregation α K S Out) (state : State K S)
    (input : Change α) :
    processDataElement op state input =
      (updateTable op.mAggregate (op.mGroupByFunc input.data) state.mAggregateTable
        input).bind fun update =>
        (op.produceAggregate update.2 input.outdated).bind fun published =>
          (op.trigger { state with mAggregateTable := update.1 } input.data).toOption.map
            fun next => (next, published) := by
  unfold processDataElement trigger
  simp only [Option.bind_eq_bind]
  congr 1
  funext update
  congr 1
  funext published
  cases op.mTriggerType with
  | TriggerAll => rfl
  | TriggerByTime => rfl
  | TriggerByCount =>
      cases op.mTriggerInterval.getCount with
      | none => rfl
      | some interval =>
          by_cases reached : state.mCounter + 1 = interval
          · simp [reached, notificationCallback, Except.toOption]
          · simp [reached, Except.toOption]
  | TriggerByTimestamp =>
      cases op.mTimestampExtractor with
      | none => rfl
      | some extractor =>
          cases op.mTriggerInterval.getTimestamp with
          | none => rfl
          | some interval =>
              by_cases reached : extractor input.data - state.mLastTriggerTime ≥ interval
              · simp [reached, notificationCallback, Except.toOption]
              · simp [reached, Except.toOption]

/-- No element runs into a fault of the trigger. -/
def TriggersSafely (op : GroupedAggregation α K S Out) (inputs : List (Change α)) : Prop :=
  ∀ seen input, seen ++ [input] <+: inputs → ∀ before, process op seen = some before →
    ∀ update, updateTable op.mAggregate (op.mGroupByFunc input.data)
      before.1.mAggregateTable input = some update →
        ∀ fault, op.trigger { before.1 with mAggregateTable := update.1 } input.data ≠
          .error fault

/-- The call for every n-th element publishes the aggregates of all groups. -/
def PublishesEvery (op : GroupedAggregation α K S Out) (n : Nat) (inputs : List (Change α)) :
    Prop :=
  ∀ seen input, seen ++ [input] <+: inputs → n ∣ (seen ++ [input]).length →
    ∀ before, process op seen = some before →
      ∀ next, processDataElement op before.1 input = some next →
        ∀ key group, next.1.mAggregateTable.lookup key = some group →
          ∃ result, op.mAggregate.value group.members = some result ∧
            .element ⟨result, false⟩ ∈ next.2

/-- What is wanted of the triggers of an operator. -/
structure TriggersCorrectly (op : GroupedAggregation α K S Out) (inputs : List (Change α)) :
    Prop where
  safe : TriggersSafely op inputs
  published : op.mTriggerType = .TriggerByCount →
    ∀ n, op.mTriggerInterval.getCount = some n → PublishesEvery op n.toNat inputs

/-- The number of elements after which the counter has the value of the interval. -/
def period (tInterval : UInt32) : Nat :=
  if tInterval = 0 then UInt32.size else tInterval.toNat

/-- How far a stream may go: as long as the aggregate functions return, no trigger by
timestamp is reached, and a trigger by count does not fire. -/
def NeverFires (groupby_fun : α → K) (aggregate : AggregateFunc α S Out)
    (tType : AggregationTriggerType) (tInterval : UInt32) (inputs : List (Change α)) : Prop :=
  ∀ seen, seen <+: inputs → (tableAfter groupby_fun aggregate seen).isSome →
    match tType with
    | .TriggerByCount => seen.length < period tInterval
    | .TriggerByTimestamp => seen = []
    | _ => True

/-! ## The counter -/

theorem period_pos (tInterval : UInt32) : 0 < period tInterval := by
  unfold period
  split
  · decide
  · case isFalse counted =>
      apply Nat.pos_of_ne_zero
      intro zero
      exact counted (UInt32.toNat_inj.mp zero)

/-- The counter first meets the interval after a whole period. -/
theorem ofNat_eq_iff {tInterval : UInt32} {number : Nat} (positive : 0 < number)
    (within : number ≤ period tInterval) :
    UInt32.ofNat number = tInterval ↔ number = period tInterval := by
  have bounded := tInterval.toNat_lt_size
  rw [← UInt32.toNat_inj, UInt32.toNat_ofNat']
  unfold period at within ⊢
  split at within
  · case isTrue zero =>
      rw [if_pos zero, zero, UInt32.toNat_zero]
      simp only [UInt32.size] at within ⊢
      omega
  · case isFalse counted =>
      rw [if_neg counted, Nat.mod_eq_of_lt]
      exact Nat.lt_of_le_of_lt within bounded

section

variable {groupby_fun : α → K} {aggregate : AggregateFunc α S Out} {tInterval : UInt32}
  {inputs : List (Change α)}

/-- Whether the aggregate functions return for the next element. -/
theorem tableAfter_isSome_iff {tType : AggregationTriggerType} {seen : List (Change α)}
    {before : State K S × List (Published Out)} (input : Change α)
    (processed : process (.new groupby_fun aggregate tType tInterval) seen = some before) :
    (tableAfter groupby_fun aggregate (seen ++ [input])).isSome ↔
      ∃ update, updateTable aggregate (groupby_fun input.data) before.1.mAggregateTable
        input = some update := by
  obtain ⟨state, published⟩ := before
  have table : tableAfter groupby_fun aggregate seen = some state.mAggregateTable :=
    process_table processed
  rw [tableAfter_concat, table, Option.bind_some, Option.isSome_map, Option.isSome_iff_exists]

/-- The aggregate functions return on a part of a stream when they do on all of it. -/
theorem tableAfter_mono {seen later : List (Change α)} (earlier : seen <+: later)
    (returned : (tableAfter groupby_fun aggregate later).isSome) :
    (tableAfter groupby_fun aggregate seen).isSome := by
  obtain ⟨rest, rfl⟩ := earlier
  obtain ⟨last, after⟩ := Option.isSome_iff_exists.mp returned
  rw [tableAfter, List.foldlM_append] at after
  obtain ⟨table, reached, _⟩ := Option.bind_eq_some_iff.mp after
  rw [tableAfter, reached]
  rfl

theorem process_mCounter {seen : List (Change α)} {state : State K S}
    {published : List (Published Out)}
    (processed : process (.new groupby_fun aggregate .TriggerByCount tInterval) seen =
      some (state, published)) :
    state.mCounter = UInt32.ofNat seen.length := by
  induction seen using List.reverseRecOn generalizing state published with
  | nil =>
      cases processed
      rfl
  | append_singleton seen input induction =>
      obtain ⟨before, earlier, later, reached, stepped, rfl⟩ :=
        Transducer.tryRun_concat_eq_some processed
      rw [processDataElement_eq_trigger] at stepped
      simp only [Option.bind_eq_some_iff, Option.map_eq_some_iff] at stepped
      obtain ⟨update, _, produced, _, next, triggered, same⟩ := stepped
      obtain ⟨rfl, rfl⟩ := Prod.mk.inj same
      rw [trigger_count, induction reached] at triggered
      split at triggered
      · cases triggered
      · obtain rfl := Option.some.inj triggered
        rw [List.length_append, List.length_singleton, UInt32.ofNat_add]
        rfl

/-- What the counter is before the next element. -/
theorem mCounter_add_one_eq_iff {seen : List (Change α)}
    {before : State K S × List (Published Out)}
    (processed : process (.new groupby_fun aggregate .TriggerByCount tInterval) seen =
      some before) (within : seen.length + 1 ≤ period tInterval) :
    before.1.mCounter + 1 = tInterval ↔ seen.length + 1 = period tInterval := by
  obtain ⟨state, published⟩ := before
  rw [process_mCounter processed]
  have reached := ofNat_eq_iff (Nat.succ_pos seen.length) within
  rw [Nat.succ_eq_add_one, UInt32.ofNat_add] at reached
  exact reached

/-- With too few elements the counter does not fire. -/
theorem countProcess_isSome {seen : List (Change α)}
    (returned : (tableAfter groupby_fun aggregate seen).isSome)
    (few : seen.length < period tInterval) :
    (process (.new groupby_fun aggregate .TriggerByCount tInterval) seen).isSome := by
  induction seen using List.reverseRecOn with
  | nil => rfl
  | append_singleton seen input induction =>
      rw [List.length_append, List.length_singleton] at few
      obtain ⟨before, processed⟩ := Option.isSome_iff_exists.mp
        (induction (tableAfter_mono (List.prefix_append _ _) returned) (by omega))
      obtain ⟨update, updated⟩ := (tableAfter_isSome_iff input processed).mp returned
      have silent : ¬ before.1.mCounter + 1 = tInterval := by
        rw [mCounter_add_one_eq_iff processed few.le]
        omega
      have next : processDataElement
          (.new groupby_fun aggregate .TriggerByCount tInterval) before.1 input =
            some ({ before.1 with
              mAggregateTable := update.1
              mCounter := before.1.mCounter + 1 }, []) := by
        rw [processDataElement_eq_trigger]
        simp [GroupedAggregation.new, updated, produceAggregate, trigger,
          IntervalType.getCount, silent, Except.toOption]
      rw [process, Transducer.tryRun_concat, ← process, processed, Option.bind_some, next]
      rfl

/-! ## The triggers of the operators of a pipe -/

/-- When the counter does not fire nothing goes wrong, and no n-th element is reached. -/
theorem triggersCorrectly_of_few
    (few : NeverFires groupby_fun aggregate .TriggerByCount tInterval inputs) :
    TriggersCorrectly (.new groupby_fun aggregate .TriggerByCount tInterval) inputs := by
  have within {seen : List (Change α)} {input : Change α} (arrives : seen ++ [input] <+: inputs)
      {before : State K S × List (Published Out)}
      (processed : process (.new groupby_fun aggregate .TriggerByCount tInterval) seen =
        some before) {update : HashTable K S × Option S}
      (updated : updateTable aggregate (groupby_fun input.data) before.1.mAggregateTable
        input = some update) : seen.length + 1 < period tInterval := by
    have short := few (seen ++ [input]) arrives
      ((tableAfter_isSome_iff input processed).mpr ⟨update, updated⟩)
    simpa using short
  constructor
  · intro seen input arrives before processed update updated fault
    have short := within arrives processed updated
    have silent := mCounter_add_one_eq_iff processed short.le
    rw [trigger_count, if_neg (by rw [silent]; omega)]
    simp
  · intro _ n count seen input arrives every before processed next stepped
    obtain rfl := Option.some.inj count
    obtain ⟨update, updated, _⟩ := Option.bind_eq_some_iff.mp stepped
    have short := within arrives processed updated
    rw [List.length_append, List.length_singleton] at every
    have least := Nat.le_of_dvd (Nat.succ_pos seen.length) every
    unfold period at short
    split at short
    · case isTrue zero =>
        rw [zero, UInt32.toNat_zero, Nat.zero_dvd] at every
        omega
    · omega

/-- The element that completes a period makes the callback lock the mutex again. -/
theorem neverFires_of_safe
    (safe : TriggersSafely (.new groupby_fun aggregate .TriggerByCount tInterval) inputs) :
    NeverFires groupby_fun aggregate .TriggerByCount tInterval inputs := by
  intro seen part returned
  by_contra many
  rw [not_lt] at many
  obtain ⟨number, succ⟩ := Nat.exists_eq_succ_of_ne_zero (period_pos tInterval).ne'
  rw [succ] at many
  -- The stream up to the element that completes the first period.
  obtain ⟨input, here⟩ : ∃ input, seen[number]? = some input :=
    ⟨seen[number], List.getElem?_eq_getElem many⟩
  have split : seen.take number ++ [input] <+: seen := by
    have front := List.take_prefix (number + 1) seen
    rw [List.take_add_one, here] at front
    exact front
  have returned := tableAfter_mono split returned
  have length : (seen.take number).length = number := by
    rw [List.length_take]
    omega
  have few : (seen.take number).length < period tInterval := by omega
  obtain ⟨before, processed⟩ := Option.isSome_iff_exists.mp
    (countProcess_isSome (tableAfter_mono (List.prefix_append _ _) returned) few)
  obtain ⟨update, updated⟩ := (tableAfter_isSome_iff input processed).mp returned
  apply safe (seen.take number) input (split.trans part) before processed update updated
    .relocked
  have fires := mCounter_add_one_eq_iff processed (by omega)
  rw [trigger_count, if_pos]
  rw [fires]
  omega

/-- With the trigger by timestamp the first element calls the empty extractor. -/
theorem triggersSafely_timestamp_iff :
    TriggersSafely (.new groupby_fun aggregate .TriggerByTimestamp tInterval) inputs ↔
      NeverFires groupby_fun aggregate .TriggerByTimestamp tInterval inputs := by
  constructor
  · intro safe seen part returned
    cases seen with
    | nil => rfl
    | cons input later =>
        have front : [input] <+: input :: later :=
          List.cons_prefix_cons.mpr ⟨rfl, List.nil_prefix⟩
        have first : [] ++ [input] <+: inputs := front.trans part
        have returned := tableAfter_mono front returned
        have start : process (.new groupby_fun aggregate .TriggerByTimestamp tInterval) [] =
            some (.start, []) := rfl
        obtain ⟨update, updated⟩ := (tableAfter_isSome_iff input start).mp returned
        exact absurd rfl (safe [] input first _ start update updated .extractorNotSet)
  · intro unreached seen input arrives before processed update updated
    have nothing := unreached (seen ++ [input]) arrives
      ((tableAfter_isSome_iff input processed).mpr ⟨update, updated⟩)
    simp at nothing

end

/-- The operators that a pipe constructs for `groupBy` trigger correctly just when their
triggers are never reached. -/
theorem groupBy_triggersCorrectly_iff {pipe : Pipe α K} {aggregate : AggregateFunc α S Out}
    {tType : AggregationTriggerType} {tInterval : UInt32}
    {ops : List (GroupedAggregation α K S Out)} {op : GroupedAggregation α K S Out}
    (constructed : pipe.groupBy aggregate tType tInterval = some ops) (member : op ∈ ops)
    (inputs : List (Change α)) :
    TriggersCorrectly op inputs ↔
      NeverFires op.mGroupByFunc aggregate tType tInterval inputs := by
  obtain ⟨keyFunc, _, rfl⟩ := Pipe.mem_groupBy constructed member
  cases tType with
  | TriggerAll =>
      apply iff_of_true
      · constructor
        · intro seen input _ before _ update _ fault
          simp [trigger, GroupedAggregation.new]
        · intro other
          cases other
      · intro seen _ _
        trivial
  | TriggerByTime =>
      apply iff_of_true
      · constructor
        · intro seen input _ before _ update _ fault
          simp [trigger, GroupedAggregation.new]
        · intro other
          cases other
      · intro seen _ _
        trivial
  | TriggerByCount =>
      constructor
      · intro correct
        exact neverFires_of_safe correct.safe
      · exact triggersCorrectly_of_few
  | TriggerByTimestamp =>
      constructor
      · intro correct
        exact triggersSafely_timestamp_iff.mp correct.safe
      · intro unreached
        constructor
        · exact triggersSafely_timestamp_iff.mpr unreached
        · intro other
          cases other

theorem groupBy_triggersCorrectly_pairs :
    TriggersCorrectly
        (.new id (AggrCount Int) .TriggerByCount 2 : GroupedAggregation Int Int UInt32 UInt32)
        [⟨1, false⟩] ↔
      NeverFires id (AggrCount Int) .TriggerByCount 2 [⟨1, false⟩] := by
  have constructed : Pipe.groupBy (⟨.NoPartitioning, none, some id, 0⟩ : Pipe Int Int)
      (AggrCount Int) .TriggerByCount 2 =
        some [.new id (AggrCount Int) .TriggerByCount 2] := rfl
  exact groupBy_triggersCorrectly_iff constructed (List.mem_singleton.mpr rfl) [⟨1, false⟩]

/-- With an interval of one the first element makes the callback lock the mutex that its
caller holds. -/
theorem not_groupBy_triggersCorrectly :
    ¬ ∀ (pipe : Pipe Int Int) (tType : AggregationTriggerType) (tInterval : UInt32)
      (ops : List (GroupedAggregation Int Int UInt32 UInt32)) (op : _),
      tType ≠ .TriggerByTime → pipe.groupBy (AggrCount Int) tType tInterval = some ops →
        op ∈ ops → ∀ inputs, TriggersCorrectly op inputs := by
  intro every
  have correct := every ⟨.NoPartitioning, none, some id, 0⟩ .TriggerByCount 1 _ _ (by decide)
    rfl (List.mem_singleton.mpr rfl) [⟨1, false⟩]
  exact correct.safe [] ⟨1, false⟩ List.prefix_rfl _ rfl _ rfl .relocked rfl

end PipeFabric.GroupedAggregation
