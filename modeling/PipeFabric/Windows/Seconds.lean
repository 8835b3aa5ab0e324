import PipeFabric.Qop.Aggregation
import PipeFabric.Qop.SlidingWindow

/-!
# Sizes in seconds

The constructors of the windows and of the aggregation that take an `unsigned int`
number of seconds multiply it in 32 bits and compare timestamps with the product.
Nothing is evicted and nothing triggers too early just when the product fits.
-/

namespace PipeFabric

open ChangeStream Published

/-- Seconds in microseconds, over the integers. -/
def microseconds (sz : UInt32) : Int := sz.toNat * 1000000

/-- The product in 32 bits. -/
def converted (sz : UInt32) : Int := (sz * 1000 * 1000).toNat

theorem converted_eq (sz : UInt32) : converted sz = sz.toNat * 1000000 % 2 ^ 32 := by
  unfold converted
  rw [UInt32.toNat_mul, UInt32.toNat_mul]
  have thousand : (1000 : UInt32).toNat = 1000 := rfl
  rw [thousand]
  omega

theorem converted_eq_iff (sz : UInt32) :
    converted sz = microseconds sz ↔ sz.toNat * 1000000 < 2 ^ 32 := by
  rw [converted_eq]
  unfold microseconds
  omega

theorem converted_nonneg (sz : UInt32) : 0 ≤ converted sz := by
  rw [converted_eq]
  omega

/-- A product that does not fit is too small. -/
theorem converted_lt {sz : UInt32} (large : ¬ sz.toNat * 1000000 < 2 ^ 32) :
    converted sz < microseconds sz := by
  rw [converted_eq]
  unfold microseconds
  omega

/-! ### Windows -/

namespace SlidingWindow

variable {α : Type}

/-- What an arriving tuple evicts is older than the tuple by the interval or more. -/
def EvictsOnTime (window : Window α) (interval : Int) (inputs : List (Change α)) : Prop :=
  ∀ seen data, seen ++ [⟨data, false⟩] <+: inputs →
    ∀ tup ∈ retractions (changes
        (processDataElement window (process window seen).1 ⟨data, false⟩).2),
      interval ≤ window.mTimestampExtractor data - window.mTimestampExtractor tup

/-- What an arrival retracts is what the eviction function pops. -/
theorem retractions_new (window : Window α) (state : Window.State α) (data : α) :
    retractions (changes (processDataElement window state ⟨data, false⟩).2) =
      (mEvictFun window (state.push_back data)).2 := by
  rw [processDataElement_new]
  simp

theorem popWhile_expired (expired : α → Bool) (buffer : List α) (mCurrSize : UInt32) :
    ∀ tup ∈ (Window.popWhile (fun tup _ => expired tup) buffer mCurrSize).2,
      expired tup = true := by
  induction buffer generalizing mCurrSize with
  | nil => exact fun _ member => absurd member List.not_mem_nil
  | cons first rest induction =>
      unfold Window.popWhile
      split
      · intro tup member
        rcases List.mem_cons.mp member with here | later
        · rw [here]
          assumption
        · exact induction _ tup later
      · exact fun _ member => absurd member List.not_mem_nil

/-- A range window evicts nothing that is newer than its size. -/
theorem evictsOnTime_of_range {window : Window α} {size : Int}
    (range : window.mWinSize = .RangeWindow size) (inputs : List (Change α)) :
    EvictsOnTime window size inputs := by
  intro seen data _ tup member
  rw [retractions_new] at member
  have newest : ((process window seen).1.push_back data).mTupleBuf.getLast? = some data :=
    List.getLast?_concat
  simp only [mEvictFun, range, evictByTime, newest] at member
  split at member
  · have late := popWhile_expired
      (fun tup => decide (window.mTimestampExtractor tup ≤
        window.mTimestampExtractor data - size)) _ _ tup member
    have accepted := of_decide_eq_true late
    omega
  · exact absurd member List.not_mem_nil

/-- A tuple with timestamp zero leaves a range window as soon as a tuple arrives that is
older by the size of the window. -/
theorem not_evictsOnTime {size interval : Int} (positive : 0 ≤ size)
    (early : size < interval) :
    ¬ EvictsOnTime (Window.range (id : Int → Int) size none) interval
      [⟨0, false⟩, ⟨size, false⟩] := by
  intro punctual
  by_cases empty : size = 0
  · subst empty
    have zero : (0 : Int) ∈ retractions (changes (processDataElement
        (Window.range (id : Int → Int) 0 none)
        (process (Window.range (id : Int → Int) 0 none) []).1 ⟨0, false⟩).2) := by decide
    have newest := punctual [] 0 (List.prefix_append _ _) 0 zero
    simp only [Window.range, id_eq, sub_self] at newest
    omega
  · have starts : ¬ (0 : Int) ≥ size := by omega
    have first : (process (Window.range (id : Int → Int) size none) [⟨0, false⟩]).1 =
        Window.State.empty.push_back 0 := by
      simp [process, Transducer.run, processDataElement, mEvictFun, evictByTime,
        Window.range, Window.State.push_back, Window.State.empty, starts]
    have oldest : (0 : Int) ∈ retractions (changes (processDataElement
        (Window.range (id : Int → Int) size none)
        (process (Window.range (id : Int → Int) size none) [⟨0, false⟩]).1
        ⟨size, false⟩).2) := by
      rw [retractions_new, first]
      simp [mEvictFun, evictByTime, Window.range, Window.State.push_back,
        Window.State.empty, Window.popWhile]
    have gap := punctual [⟨0, false⟩] size List.prefix_rfl 0 oldest
    simp only [Window.range, id_eq, sub_zero] at gap
    omega

/-- The sliding windows of this many seconds evict on time. -/
def NeverEarly (sz : UInt32) : Prop :=
  ∀ (α : Type) (func : α → Int) (winOpFunc : Option (List α → α → α))
    (inputs : List (Change α)),
    EvictsOnTime (.rangeSeconds func sz winOpFunc) (microseconds sz) inputs

theorem neverEarly_iff (sz : UInt32) : NeverEarly sz ↔ sz.toNat * 1000000 < 2 ^ 32 := by
  constructor
  · intro punctual
    by_contra large
    exact not_evictsOnTime (converted_nonneg sz) (converted_lt large)
      (punctual Int id none [⟨0, false⟩, ⟨converted sz, false⟩])
  · intro fits α func winOpFunc inputs
    rw [← (converted_eq_iff sz).mpr fits]
    exact evictsOnTime_of_range rfl inputs

end SlidingWindow

/-! ### Aggregations -/

namespace Aggregation

variable {α S Out : Type}

/-- The timestamps of the new elements at which something is published. -/
def triggerTimes (func : α → Int)
    (history : List (Transducer.Call (State S) (Change α) (Published Out))) : List Int :=
  history.filterMap fun call =>
    if call.input.outdated || call.emitted.isEmpty then none else some (func call.input.data)

/-- From the start on, one interval or more lies between two triggers. -/
def TriggersOnTime (op : Aggregation α S Out) (func : α → Int) (interval : Int)
    (inputs : List (Change α)) : Prop :=
  List.IsChain (fun last ts => interval ≤ ts - last)
    (0 :: triggerTimes func
      (Transducer.calls op.processDataElement (.start op.mAggregate) inputs))

/-- A new element triggers when the interval has gone by, and is what the next interval
is counted from. -/
theorem processDataElement_ofDuration {aggregate : AggregateFunc α S Out}
    {func : α → Int} {interval : Int} {state : State S} {data : α}
    {next : State S × List (Published Out)}
    (stepped : processDataElement (ofDuration aggregate func interval) state ⟨data, false⟩ =
      some next) :
    (interval ≤ func data - state.mLastTriggerTime ∧ next.2 ≠ [] ∧
        next.1.mLastTriggerTime = func data) ∨
      (func data - state.mLastTriggerTime < interval ∧ next.2 = [] ∧
        next.1.mLastTriggerTime = state.mLastTriggerTime) := by
  obtain ⟨mAggrState, iterated, rest⟩ := Option.bind_eq_some_iff.mp stepped
  simp only [Bool.not_false, if_true, ofDuration, IntervalType.getTimestamp,
    Option.bind_eq_bind, Option.bind_some, ge_iff_le] at rest
  by_cases elapsed : interval ≤ func data - state.mLastTriggerTime
  · rw [if_pos elapsed] at rest
    obtain ⟨published, produced, result⟩ := Option.bind_eq_some_iff.mp rest
    obtain ⟨value, _, shown⟩ := Option.map_eq_some_iff.mp produced
    obtain rfl := Option.some.inj result
    exact Or.inl ⟨elapsed, by simp [← shown], rfl⟩
  · rw [if_neg elapsed] at rest
    obtain rfl := Option.some.inj rest
    exact Or.inr ⟨not_le.mp elapsed, rfl, rfl⟩

/-- An outdated element does not count as a trigger. -/
theorem processDataElement_outdated {op : Aggregation α S Out} {state : State S}
    {data : α} {next : State S × List (Published Out)}
    (stepped : processDataElement op state ⟨data, true⟩ = some next) :
    next.1.mLastTriggerTime = state.mLastTriggerTime := by
  obtain ⟨mAggrState, iterated, rest⟩ := Option.bind_eq_some_iff.mp stepped
  simp only [Bool.not_true, Bool.false_eq_true, if_false] at rest
  obtain ⟨value, _, result⟩ := Option.bind_eq_some_iff.mp rest
  obtain rfl := Option.some.inj result
  rfl

/-- The induction is on the stream, with the last trigger in the state. -/
theorem isChain_triggerTimes (aggregate : AggregateFunc α S Out) (func : α → Int)
    (interval : Int) (state : State S) (inputs : List (Change α)) :
    List.IsChain (fun last ts => interval ≤ ts - last)
      (state.mLastTriggerTime :: triggerTimes func
        (Transducer.calls (ofDuration aggregate func interval).processDataElement state
          inputs)) := by
  induction inputs generalizing state with
  | nil => exact List.IsChain.singleton _
  | cons input inputs induction =>
      cases stepped : (ofDuration aggregate func interval).processDataElement state input with
      | none =>
          simp only [Transducer.calls, stepped]
          exact List.IsChain.singleton _
      | some next =>
          rw [Transducer.calls_cons stepped]
          have later := induction next.1
          obtain ⟨data, outdated⟩ := input
          cases outdated with
          | true =>
              rw [processDataElement_outdated stepped] at later
              simpa [triggerTimes] using later
          | false =>
              rcases processDataElement_ofDuration stepped with triggered | silent
              · obtain ⟨elapsed, published, last⟩ := triggered
                rw [last] at later
                simpa [triggerTimes, published, elapsed] using later
              · obtain ⟨_, published, last⟩ := silent
                rw [last] at later
                simpa [triggerTimes, published] using later

theorem triggersOnTime_of_duration (aggregate : AggregateFunc α S Out) (func : α → Int)
    (interval : Int) (inputs : List (Change α)) :
    TriggersOnTime (ofDuration aggregate func interval) func interval inputs :=
  isChain_triggerTimes aggregate func interval (.start aggregate) inputs

/-- The first element triggers as soon as its timestamp is the interval of the operator. -/
theorem not_triggersOnTime {size interval : Int} (early : size < interval) :
    ¬ TriggersOnTime (ofDuration (AggrCount Int) id size) id interval [⟨size, false⟩] := by
  intro punctual
  have first : triggerTimes id (Transducer.calls
      (ofDuration (AggrCount Int) id size).processDataElement
      (.start (ofDuration (AggrCount Int) id size).mAggregate) [⟨size, false⟩]) = [size] := by
    simp [triggerTimes, Transducer.calls, processDataElement, ofDuration, AggrCount,
      IntervalType.getTimestamp, State.start, notificationCallback]
  unfold TriggersOnTime at punctual
  rw [first, List.isChain_pair] at punctual
  omega

/-- The aggregations with this many seconds trigger on time. -/
def NeverEarly (tInterval : UInt32) : Prop :=
  ∀ (α S Out : Type) (aggregate : AggregateFunc α S Out) (func : α → Int)
    (inputs : List (Change α)),
    TriggersOnTime (ofSeconds aggregate func tInterval) func (microseconds tInterval) inputs

theorem neverEarly_iff (tInterval : UInt32) :
    NeverEarly tInterval ↔ tInterval.toNat * 1000000 < 2 ^ 32 := by
  constructor
  · intro punctual
    by_contra large
    exact not_triggersOnTime (converted_lt large)
      (punctual Int UInt32 UInt32 (AggrCount Int) id [⟨converted tInterval, false⟩])
  · intro fits α S Out aggregate func inputs
    rw [← (converted_eq_iff tInterval).mpr fits]
    exact triggersOnTime_of_duration aggregate func _ inputs

end Aggregation

/-- Neither operator acts too early, and the 32 bits hold the product. -/
structure ConvertsSeconds (sz : UInt32) : Prop where
  windows : SlidingWindow.NeverEarly sz
  aggregations : Aggregation.NeverEarly sz
  product : converted sz = microseconds sz

/-- The seconds are converted as they should just when their product fits into 32 bits,
and so does each operator alone. -/
theorem seconds_converted_iff (sz : UInt32) :
    (ConvertsSeconds sz ↔ sz.toNat * 1000000 < 2 ^ 32) ∧
      (SlidingWindow.NeverEarly sz ↔ sz.toNat * 1000000 < 2 ^ 32) ∧
        (Aggregation.NeverEarly sz ↔ sz.toNat * 1000000 < 2 ^ 32) := by
  have windows := SlidingWindow.neverEarly_iff sz
  have aggregations := Aggregation.neverEarly_iff sz
  have product := converted_eq_iff sz
  refine ⟨⟨?_, ?_⟩, windows, aggregations⟩
  · intro correct
    exact product.mp correct.product
  · intro fits
    exact ⟨windows.mpr fits, aggregations.mpr fits, product.mpr fits⟩

/-- A window of 4295 seconds evicts a tuple that is 33 milliseconds old. -/
theorem not_seconds_converted : ¬ ∀ sz, ConvertsSeconds sz := by
  intro every
  have early : (32704 : Int) < microseconds 4295 := by decide
  exact SlidingWindow.not_evictsOnTime (by decide) early
    ((every 4295).windows Int id none [⟨0, false⟩, ⟨32704, false⟩])

end PipeFabric
