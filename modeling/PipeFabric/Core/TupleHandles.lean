import PipeFabric.Core.Tuple
import PipeFabric.Library.Lockstep

/-!
# Handles on a tuple

A `Tuple` counts the intrusive pointers to it in an atomic `short`, and the release of the
last one deletes it.  The deserialization constructor does not say where the counter begins.
-/

namespace PipeFabric

/-- `TupleParser::parseTupleImpl`, with the parser that is selected for an attribute.  There
is no string behind the last one. -/
def parseTupleImpl (parseAttribute : ∀ {β : Type}, SerialType β → List UInt8 → Option β)
    {α : Type} : TupleElements α → List (List UInt8) → Option α
  | .last element, data => data.head?.bind (parseAttribute element)
  | .more element others, data =>
      (parseTupleImpl parseAttribute others data.tail).bind fun later =>
        (data.head?.bind (parseAttribute element)).map fun here => (here, later)

/-- `TupleParser::parseTuple` for a `StringTuple`. -/
def parseTuple (parseAttribute : ∀ {β : Type}, SerialType β → List UInt8 → Option β)
    {α : Type} (Base : TupleElements α) (data : List (List UInt8)) : Option α :=
  if data.length = Base.count then parseTupleImpl parseAttribute Base data else none

/-- A `Tuple` with its reference counter. -/
structure CountedTuple {α : Type} (Base : TupleElements α) where
  value : Tuple Base
  mRefCnt : Int16

namespace CountedTuple

variable {α : Type} {Base : TupleElements α}

/-- A call of a constructor. -/
inductive Construction (Base : TupleElements α) where
  | copy (tup : CountedTuple Base)
  | data (tup : α)
  | values (args : α)
  | strings (sdata : List (List UInt8))
  | stringRefs (sdata : List (List UInt8))
  | stream (byteStream : StreamType)

/-- The constructors.  The last one leaves the counter as it finds it. -/
def construct (parseAttribute : ∀ {β : Type}, SerialType β → List UInt8 → Option β)
    (found : Int16) : Construction Base → Option (CountedTuple Base)
  | .copy tup => some ⟨tup.value.copy, 0⟩
  | .data tup => some ⟨.ofData tup, 0⟩
  | .values args => some ⟨.ofData args, 0⟩
  | .strings sdata => (parseTuple parseAttribute Base sdata).map fun data => ⟨.ofData data, 0⟩
  | .stringRefs sdata =>
      (parseTupleImpl parseAttribute Base sdata).map fun data => ⟨.ofData data, 0⟩
  | .stream byteStream =>
      (Tuple.deserializeFromStream Base byteStream).map fun value => ⟨value, found⟩

/-- `intrusive_ptr_add_ref`. -/
def intrusive_ptr_add_ref (tuple : CountedTuple Base) : CountedTuple Base :=
  { tuple with mRefCnt := tuple.mRefCnt + 1 }

/-- `intrusive_ptr_release`, and whether the tuple is deleted. -/
def intrusive_ptr_release (tuple : CountedTuple Base) : CountedTuple Base × Bool :=
  ({ tuple with mRefCnt := tuple.mRefCnt - 1 }, decide (tuple.mRefCnt = 1))

/-- The memory of the tuple. -/
structure Storage (Base : TupleElements α) where
  tuple : CountedTuple Base
  deleted : Bool

/-- A handle is made, from the tuple or from another handle, or it is released. -/
inductive Action where
  | acquire
  | release
  deriving DecidableEq

/-- Nothing can be done with a tuple that was deleted. -/
def step (storage : Storage Base) (action : Action) : Option (Storage Base × Unit) :=
  if storage.deleted then none
  else
    match action with
    | .acquire => some (⟨storage.tuple.intrusive_ptr_add_ref, false⟩, ())
    | .release =>
        let released := storage.tuple.intrusive_ptr_release
        some (⟨released.1, released.2⟩, ())

/-! ### Handles -/

/-- The number of live handles, and whether the last one was released. -/
structure Handles where
  live : Nat
  ended : Bool

/-- A handle is released once, and none is made of a tuple without handles that had some. -/
def Handles.step (handles : Handles) : Action → Option (Handles × Unit)
  | .acquire => if handles.ended then none else some (⟨handles.live + 1, false⟩, ())
  | .release =>
      if handles.live = 0 then none
      else some (⟨handles.live - 1, decide (handles.live = 1)⟩, ())

/-- The counter is the number of live handles, and the tuple is deleted when the last one
was released. -/
def Exact (storage : Storage Base) (handles : Handles) : Prop :=
  storage.tuple.mRefCnt.toInt = handles.live ∧ storage.deleted = handles.ended

/-- The counter is exact from the beginning and after every action. -/
def CountsHandles (tuple : CountedTuple Base) (actions : List Action) : Prop :=
  Exact ⟨tuple, false⟩ ⟨0, false⟩ ∧
    Lockstep.Agree step Handles.step (fun next after => Exact next.1 after.1)
      ⟨tuple, false⟩ ⟨0, false⟩ actions

/-- There is room for one more handle. -/
def Room (handles : Handles) (action : Action) : Prop :=
  action = .acquire → handles.live < 32767

/-! ### Counting -/

/-- Adding a handle counts it if and only if the next number is a `short`. -/
theorem toInt_add_one_iff {count : Int16} {live : Nat} (same : count.toInt = live) :
    (count + 1).toInt = (live + 1 : Nat) ↔ live < 32767 := by
  have bound := (count + 1).toInt_lt
  have one : (1 : Int16).toInt = 1 := rfl
  constructor
  · intro counted
    omega
  · intro room
    rw [Int16.toInt_add, same, one, Int.bmod_eq_of_le (by omega) (by omega)]
    rfl

theorem toInt_sub_one {count : Int16} {live : Nat} (same : count.toInt = live)
    (positive : live ≠ 0) : (count - 1).toInt = (live - 1 : Nat) := by
  have bound := count.toInt_lt
  have one : (1 : Int16).toInt = 1 := rfl
  rw [Int16.toInt_sub, same, one, Int.bmod_eq_of_le (by omega) (by omega)]
  omega

/-- The counter is one for the last handle. -/
theorem eq_one_iff {count : Int16} {live : Nat} (same : count.toInt = live) :
    count = 1 ↔ live = 1 := by
  rw [← Int16.toInt_inj, same]
  change (live : Int) = 1 ↔ live = 1
  omega

/-- The counter is exact, and a tuple that had handles and has none is gone. -/
structure Related (storage : Storage Base) (handles : Handles) : Prop where
  counted : Exact storage handles
  ended : handles.ended = true → handles.live = 0

section

variable {storage : Storage Base} {handles after : Handles}

theorem Related.acquire (related : Related storage handles)
    (legal : handles.step .acquire = some (after, ())) :
    ∃ next, step storage .acquire = some (next, ()) ∧ after = ⟨handles.live + 1, false⟩ ∧
      next.deleted = false ∧ next.tuple.mRefCnt = storage.tuple.mRefCnt + 1 := by
  rw [Handles.step] at legal
  split at legal
  · cases legal
  · rename_i going
    cases legal
    refine ⟨⟨storage.tuple.intrusive_ptr_add_ref, false⟩, ?_, rfl, rfl, rfl⟩
    rw [step, related.counted.2, if_neg going]

/-- A release leaves the counter exact. -/
theorem Related.release (related : Related storage handles)
    (legal : handles.step .release = some (after, ())) :
    ∃ next, step storage .release = some (next, ()) ∧ Related next after := by
  rw [Handles.step] at legal
  split at legal
  · cases legal
  · rename_i positive
    cases legal
    have going : ¬storage.deleted = true := by
      rw [related.counted.2]
      exact fun gone => positive (related.ended gone)
    refine ⟨⟨storage.tuple.intrusive_ptr_release.1, storage.tuple.intrusive_ptr_release.2⟩,
      ?_, ⟨?_, ?_⟩, ?_⟩
    · rw [step, if_neg going]
    · exact toInt_sub_one related.counted.1 positive
    · exact decide_eq_decide.mpr (eq_one_iff related.counted.1)
    · intro last
      rw [of_decide_eq_true last]

/-- From an exact counter, the actions leave it exact if and only if there is always room. -/
theorem agree_iff_room (related : Related storage handles) (actions : List Action) :
    Lockstep.Agree step Handles.step (fun next after => Exact next.1 after.1)
        storage handles actions ↔
      Lockstep.Along Handles.step Room handles actions := by
  apply Lockstep.agree_iff Related
  · rintro storage handles action ⟨after, _⟩ related legal room
    cases action with
    | acquire =>
        obtain ⟨next, stepped, rfl, kept, count⟩ := related.acquire legal
        have counted : Exact next ⟨handles.live + 1, false⟩ := by
          refine ⟨?_, kept⟩
          rw [count]
          exact (toInt_add_one_iff related.counted.1).mpr (room rfl)
        refine ⟨(next, ()), stepped, counted, counted, ?_⟩
        intro gone
        cases gone
    | release =>
        obtain ⟨next, stepped, still⟩ := related.release legal
        exact ⟨(next, ()), stepped, still.counted, still⟩
  · rintro storage handles action ⟨after, _⟩ ⟨next, _⟩ related legal stepped counted rfl
    obtain ⟨other, again, rfl, _, count⟩ := related.acquire legal
    rw [stepped] at again
    cases again
    have same := counted.1
    rw [count] at same
    exact (toInt_add_one_iff related.counted.1).mp same
  · exact related

end

/-- The counter begins with zero, unless the deserialization constructor finds another
value. -/
theorem construct_zero_iff
    {parseAttribute : ∀ {β : Type}, SerialType β → List UInt8 → Option β} {found : Int16}
    {construction : Construction Base} {tuple : CountedTuple Base}
    (constructed : construct parseAttribute found construction = some tuple) :
    tuple.mRefCnt = 0 ↔ ∀ byteStream, construction = .stream byteStream → found = 0 := by
  cases construction with
  | stream byteStream =>
      obtain ⟨value, _, rfl⟩ := Option.map_eq_some_iff.mp constructed
      constructor
      · intro zero _ _
        exact zero
      · intro zero
        exact zero byteStream rfl
  | copy tup =>
      obtain rfl := Option.some.inj constructed
      exact iff_of_true rfl fun _ other => by cases other
  | data tup =>
      obtain rfl := Option.some.inj constructed
      exact iff_of_true rfl fun _ other => by cases other
  | values args =>
      obtain rfl := Option.some.inj constructed
      exact iff_of_true rfl fun _ other => by cases other
  | strings sdata =>
      obtain ⟨data, _, rfl⟩ := Option.map_eq_some_iff.mp constructed
      exact iff_of_true rfl fun _ other => by cases other
  | stringRefs sdata =>
      obtain ⟨data, _, rfl⟩ := Option.map_eq_some_iff.mp constructed
      exact iff_of_true rfl fun _ other => by cases other

/-- For every constructor, every value that the counter is found with and every sequence of
actions, the counter is exact and the tuple deleted with its last handle if and only if a
deserialized tuple finds a zero and there is always room for the handles. -/
theorem refCount_exact_iff
    (parseAttribute : ∀ {β : Type}, SerialType β → List UInt8 → Option β) (found : Int16)
    (construction : Construction Base) {tuple : CountedTuple Base}
    (constructed : construct parseAttribute found construction = some tuple)
    (actions : List Action) :
    CountsHandles tuple actions ↔
      (∀ byteStream, construction = .stream byteStream → found = 0) ∧
        Lockstep.Along Handles.step Room ⟨0, false⟩ actions := by
  have initially : Exact ⟨tuple, false⟩ ⟨0, false⟩ ↔ tuple.mRefCnt = 0 := by
    rw [Exact, and_iff_left rfl, ← Int16.toInt_inj]
    rfl
  rw [CountsHandles, ← construct_zero_iff constructed, ← initially, and_congr_right_iff]
  intro counted
  refine agree_iff_room ⟨counted, ?_⟩ actions
  intro gone
  cases gone

/-- A tuple with two handles, which are released. -/
theorem refCount_exact_two :
    CountsHandles (⟨.ofData 5, 0⟩ : CountedTuple (.last (.pod Pod.byte)))
        [.acquire, .acquire, .release, .release] ↔
      (∀ byteStream, (.values 5 : Construction (.last (.pod Pod.byte))) = .stream byteStream →
          (7 : Int16) = 0) ∧
        Lockstep.Along Handles.step Room ⟨0, false⟩
          [.acquire, .acquire, .release, .release] :=
  refCount_exact_iff (fun _ _ => none) 7 (.values 5) rfl _

/-- A deserialized tuple finds a one, and its first handle counts for two. -/
theorem not_refCount_exact :
    ¬∀ (parseAttribute : ∀ {β : Type}, SerialType β → List UInt8 → Option β) (found : Int16)
      (construction : Construction (.last (.pod Pod.byte)))
      (tuple : CountedTuple (.last (.pod Pod.byte))) (actions : List Action),
      construct parseAttribute found construction = some tuple →
      CountsHandles tuple actions := by
  intro always
  have counts := always (fun _ _ => none) 1
    (.stream (Tuple.ofData 5 : Tuple (.last (.pod Pod.byte))).bytes) ⟨.ofData 5, 1⟩ [.acquire]
    (by rw [construct, Tuple.deserializeFromStream_bytes_nil]; rfl)
  obtain ⟨next, stepped, counted, _⟩ := counts.2 _ rfl
  cases stepped
  have two : (2 : Int) = 1 := counted.1
  cases two

end CountedTuple

end PipeFabric
