import PipeFabric.Library.Transducer
import PipeFabric.Qop.Channels

/-!
# Batches of tuples

`Batcher` writes tuples into a container and publishes it when it is full; with the
default batch size it publishes it when a punctuation arrives.  `UnBatcher` publishes
what a batch contains.  A result `none` stands for an exception or for a write behind
the end of the container.
-/

namespace PipeFabric

open Published

def SIZE_MAX : Nat := 0xFFFFFFFFFFFFFFFF

/-- What is known of `max_size()` of a vector, whatever its elements are. -/
structure VectorLimit where
  max_size : Nat
  below : max_size < SIZE_MAX

/-- `std::vector::resize`, which throws beyond the limit. -/
def resize {Entry : Type} [Inhabited Entry] (limit : VectorLimit) (entries : List Entry)
    (size : Nat) : Option (List Entry) :=
  if size ≤ limit.max_size then
    some (entries.take size ++ List.replicate (size - entries.length) default)
  else none

/-- `std::vector<std::pair<InputStreamElement, bool>>`. -/
abbrev Batch (α : Type) : Type := List (α × Bool)

namespace Batcher

variable {α : Type} [Inhabited α]

structure State (α : Type) where
  mBatchSize : Nat
  mPos : Nat
  mBuf : Batch α

/-- The constructor. -/
def new (limit : VectorLimit) (batchSize : Nat) : Option (State α) :=
  (resize limit [] (if batchSize ≠ SIZE_MAX then batchSize else 0)).map fun mBuf =>
    { mBatchSize := batchSize, mPos := 0, mBuf := mBuf }

/-- `Batcher::publishBatch`.  The container is empty after its contents were moved to
the tuple. -/
def publishBatch (limit : VectorLimit) (state : State α) :
    Option (State α × List (Published (Batch α))) :=
  (resize limit [] state.mBatchSize).map fun mBuf =>
    ({ state with mPos := 0, mBuf := mBuf }, [.element ⟨state.mBuf, false⟩])

/-- `Batcher::processPunctuation`. -/
def processPunctuation (limit : VectorLimit) (state : State α) (ptype : PType) :
    Option (State α × List (Published (Batch α))) :=
  if state.mBatchSize = SIZE_MAX then
    (publishBatch limit state).map fun next => (next.1, next.2 ++ [.punctuation ptype])
  else some (state, [.punctuation ptype])

/-- The container with room for one more tuple. -/
def ensureCapacity (limit : VectorLimit) (state : State α) : Option (Batch α) :=
  if state.mBatchSize = SIZE_MAX then resize limit state.mBuf (state.mPos + 1)
  else some state.mBuf

/-- `Batcher::processDataElement`. -/
def processDataElement (limit : VectorLimit) (state : State α) (input : Change α) :
    Option (State α × List (Published (Batch α))) := do
  let mBuf ← ensureCapacity limit state
  if state.mPos < mBuf.length then
    let state := { state with
      mPos := state.mPos + 1
      mBuf := mBuf.set state.mPos (input.data, input.outdated) }
    if state.mPos = state.mBatchSize then publishBatch limit state else some (state, [])
  else none

def step (limit : VectorLimit) (state : State α) :
    Published α → Option (State α × List (Published (Batch α)))
  | .element input => processDataElement limit state input
  | .punctuation ptype => processPunctuation limit state ptype

end Batcher

namespace UnBatcher

variable {α : Type}

/-- `UnBatcher::processDataElement`. -/
def processDataElement (input : Change (Batch α)) : List (Published α) :=
  input.data.map fun elem => .element ⟨elem.1, elem.2⟩

/-- An arriving element or punctuation; the latter is forwarded. -/
def step : Published (Batch α) → List (Published α)
  | .element input => processDataElement input
  | .punctuation ptype => [.punctuation ptype]

end UnBatcher

variable {α : Type}

/-- What `UnBatcher` publishes when it subscribes to `Batcher`. -/
def unbatched [Inhabited α] (limit : VectorLimit) (batcher : Batcher.State α)
    (inputs : List (Published α)) : Option (List (Published α)) :=
  (Transducer.tryRun (Batcher.step limit) batcher inputs).map fun result =>
    result.2.flatMap UnBatcher.step

/-- Before every punctuation the number of tuples is a multiple of the batch size. -/
def FillsBatches (batchSize : Nat) (inputs : List (Published α)) : Prop :=
  ∀ seen ptype later, inputs = seen ++ .punctuation ptype :: later →
    batchSize ∣ (changes seen).length

/-! ### The container -/

namespace Batcher

variable [Inhabited α]

/-- The tuples that were put into the container since the last batch. -/
structure Filled (batchSize : Nat) (tuples : Batch α) (state : State α) : Prop where
  size : state.mBatchSize = batchSize
  position : state.mPos = tuples.length
  contents : ∃ untouched, state.mBuf = tuples ++ untouched
  capacity : state.mBuf.length = batchSize
  room : tuples.length < batchSize

theorem resize_empty {limit : VectorLimit} {batchSize : Nat}
    (fits : batchSize ≤ limit.max_size) :
    resize limit ([] : Batch α) batchSize = some (List.replicate batchSize default) := by
  simp [resize, fits]

theorem filled_new {limit : VectorLimit} {batchSize : Nat} {batcher : State α}
    (positive : 1 ≤ batchSize) (bounded : batchSize ≠ SIZE_MAX)
    (accepted : new limit batchSize = some batcher) :
    batchSize ≤ limit.max_size ∧ Filled batchSize [] batcher := by
  obtain ⟨mBuf, resized, rfl⟩ := Option.map_eq_some_iff.mp accepted
  rw [if_pos bounded, resize, Option.ite_none_right_eq_some] at resized
  obtain ⟨fits, created⟩ := resized
  obtain rfl := Option.some.inj created
  refine ⟨fits, ?_⟩
  constructor
  · rfl
  · rfl
  · exact ⟨_, rfl⟩
  · simp
  · exact positive

/-- A tuple goes behind the others, and the last one to fit publishes them all. -/
theorem processDataElement_filled {limit : VectorLimit} {batchSize : Nat} {tuples : Batch α}
    {state : State α} (fits : batchSize ≤ limit.max_size)
    (filled : Filled batchSize tuples state) (input : Change α) :
    (tuples.length + 1 = batchSize ∧ ∃ next, Filled batchSize [] next ∧
      processDataElement limit state input =
        some (next, [.element ⟨tuples ++ [(input.data, input.outdated)], false⟩])) ∨
    (tuples.length + 1 ≠ batchSize ∧ ∃ next,
      Filled batchSize (tuples ++ [(input.data, input.outdated)]) next ∧
        processDataElement limit state input = some (next, [])) := by
  obtain ⟨mBatchSize, mPos, mBuf⟩ := state
  obtain ⟨size, position, ⟨untouched, contents⟩, capacity, room⟩ := filled
  dsimp only at size position contents capacity
  subst size position contents
  have bounded : mBatchSize ≠ SIZE_MAX := by
    have below := limit.below
    omega
  obtain ⟨blank, untouched, rfl⟩ : ∃ blank rest, untouched = blank :: rest := by
    apply List.exists_cons_of_ne_nil
    intro nothing
    simp [nothing] at capacity
    omega
  have length : tuples.length + 1 + untouched.length = mBatchSize := by
    rw [← capacity, List.length_append, List.length_cons]
    omega
  have written : (tuples ++ blank :: untouched).set tuples.length (input.data, input.outdated) =
      tuples ++ [(input.data, input.outdated)] ++ untouched := by simp
  by_cases full : tuples.length + 1 = mBatchSize
  · left
    have nothing : untouched = [] := List.length_eq_zero_iff.mp (by omega)
    refine ⟨full, ⟨mBatchSize, 0, List.replicate mBatchSize default⟩, ?_, ?_⟩
    · constructor
      · rfl
      · rfl
      · exact ⟨_, rfl⟩
      · exact List.length_replicate
      · exact Nat.zero_lt_of_lt room
    · simp [processDataElement, ensureCapacity, bounded, full, publishBatch, nothing,
        resize_empty fits, room]
  · right
    refine ⟨full, ⟨mBatchSize, tuples.length + 1, _⟩, ?_,
      by simp [processDataElement, ensureCapacity, bounded, full, written]; rfl⟩
    constructor
    · rfl
    · simp
    · exact ⟨untouched, by simp⟩
    · simpa using capacity
    · simp
      omega

end Batcher

/-! ### A stream through both operators -/

/-- Before every punctuation and at the end the number of tuples, with those already in
the container, is a multiple of the batch size. -/
def Aligned (batchSize : Nat) : Nat → List (Published α) → Prop
  | waiting, [] => batchSize ∣ waiting
  | waiting, .element _ :: inputs => Aligned batchSize (waiting + 1) inputs
  | waiting, .punctuation _ :: inputs =>
      batchSize ∣ waiting ∧ Aligned batchSize waiting inputs

/-- A full batch makes no difference. -/
theorem aligned_add_self {batchSize waiting : Nat} (inputs : List (Published α)) :
    Aligned batchSize (waiting + batchSize) inputs ↔ Aligned batchSize waiting inputs := by
  induction inputs generalizing waiting with
  | nil => exact Nat.dvd_add_self_right
  | cons input inputs induction =>
      cases input with
      | element input =>
          simp only [Aligned]
          rw [Nat.add_right_comm]
          exact induction
      | punctuation ptype =>
          simp only [Aligned]
          rw [induction, Nat.dvd_add_self_right]

theorem aligned_endOfStream_iff {batchSize waiting : Nat} (stream : List (Published α)) :
    Aligned batchSize waiting (stream ++ [.punctuation .EndOfStream]) ↔
      ∀ seen ptype later,
        stream ++ [.punctuation .EndOfStream] = seen ++ .punctuation ptype :: later →
          batchSize ∣ waiting + (changes seen).length := by
  induction stream generalizing waiting with
  | nil =>
      constructor
      · intro aligned seen ptype later split
        have nothing : seen = [] := by
          cases seen with
          | nil => rfl
          | cons input seen => simp at split
        rw [nothing]
        exact aligned.1
      · intro fills
        have multiple : batchSize ∣ waiting := fills [] .EndOfStream [] rfl
        exact ⟨multiple, multiple⟩
  | cons input stream induction =>
      cases input with
      | element input =>
          simp only [List.cons_append, Aligned]
          rw [induction]
          constructor
          · intro fills seen ptype later split
            cases seen with
            | nil => simp at split
            | cons first seen =>
                obtain ⟨rfl, rest⟩ := List.cons.inj split
                simpa [Nat.add_assoc, Nat.add_comm 1] using fills seen ptype later rest
          · intro fills seen ptype later split
            have multiple := fills (.element input :: seen) ptype later (by rw [split]; rfl)
            simpa [Nat.add_assoc, Nat.add_comm 1] using multiple
      | punctuation first =>
          simp only [List.cons_append, Aligned]
          rw [induction]
          constructor
          · intro fills seen ptype later split
            cases seen with
            | nil => exact fills.1
            | cons other seen =>
                obtain ⟨rfl, rest⟩ := List.cons.inj split
                exact fills.2 seen ptype later rest
          · intro fills
            refine ⟨fills [] first _ rfl, ?_⟩
            intro seen ptype later split
            exact fills (.punctuation first :: seen) ptype later (by rw [split]; rfl)

namespace Batcher

variable [Inhabited α]

/-- The tuples in the container are missing from what is published, and everything else
comes in its order just when the rest of the stream is aligned.  The induction is on the
stream; a batch that is published empties the container. -/
theorem unbatched_eq_iff {limit : VectorLimit} {batchSize : Nat}
    (fits : batchSize ≤ limit.max_size) {tuples : Batch α} {state : State α}
    (filled : Filled batchSize tuples state) (inputs : List (Published α)) :
    unbatched limit state inputs =
        some (UnBatcher.processDataElement ⟨tuples, false⟩ ++ inputs) ↔
      Aligned batchSize tuples.length inputs := by
  induction inputs generalizing tuples state with
  | nil =>
      have nothing : batchSize ∣ tuples.length ↔ tuples = [] := by
        rw [Nat.dvd_iff_mod_eq_zero, Nat.mod_eq_of_lt filled.room, List.length_eq_zero_iff]
      rw [Aligned, nothing]
      simp [unbatched, UnBatcher.processDataElement]
  | cons input inputs induction =>
      cases input with
      | element input =>
          have moved : UnBatcher.processDataElement ⟨tuples, false⟩ ++
              .element input :: inputs = UnBatcher.processDataElement
                ⟨tuples ++ [(input.data, input.outdated)], false⟩ ++ inputs := by
            simp [UnBatcher.processDataElement]
          rcases processDataElement_filled fits filled input with full | waits
          · obtain ⟨full, next, empty, processed⟩ := full
            have rest := induction empty
            have aligned : Aligned batchSize tuples.length (.element input :: inputs) ↔
                Aligned batchSize 0 inputs := by
              have whole := @aligned_add_self α batchSize 0 inputs
              rw [Nat.zero_add] at whole
              rw [Aligned, full]
              exact whole
            rw [aligned, ← List.length_nil, ← rest, moved]
            simp [unbatched, Transducer.tryRun, step, processed, UnBatcher.step,
              UnBatcher.processDataElement]
          · obtain ⟨_, next, longer, processed⟩ := waits
            have rest := induction longer
            rw [List.length_append, List.length_singleton] at rest
            rw [Aligned, ← rest, moved]
            simp [unbatched, Transducer.tryRun, step, processed]
      | punctuation ptype =>
          have bounded : state.mBatchSize ≠ SIZE_MAX := by
            have below := limit.below
            rw [filled.size]
            omega
          have forwarded : step limit state (.punctuation ptype) =
              some (state, [.punctuation ptype]) := if_neg bounded
          have nothing : batchSize ∣ tuples.length ↔ tuples = [] := by
            rw [Nat.dvd_iff_mod_eq_zero, Nat.mod_eq_of_lt filled.room, List.length_eq_zero_iff]
          rw [Aligned, nothing]
          constructor
          · intro same
            cases tuples with
            | nil =>
                refine ⟨rfl, (induction filled).mp ?_⟩
                simpa [unbatched, Transducer.tryRun, forwarded, UnBatcher.step,
                  UnBatcher.processDataElement] using same
            | cons tuple tuples =>
                simp [unbatched, Transducer.tryRun, forwarded, UnBatcher.step,
                  UnBatcher.processDataElement] at same
          · intro aligned
            obtain ⟨rfl, aligned⟩ := aligned
            have same := (induction filled).mpr aligned
            simpa [unbatched, Transducer.tryRun, forwarded, UnBatcher.step,
              UnBatcher.processDataElement] using same

theorem publishBatch_mBatchSize {limit : VectorLimit} {state : State α}
    {next : State α × List (Published (Batch α))}
    (published : publishBatch limit state = some next) :
    next.1.mBatchSize = state.mBatchSize := by
  obtain ⟨mBuf, _, rfl⟩ := Option.map_eq_some_iff.mp published
  rfl

theorem step_mBatchSize {limit : VectorLimit} {state : State α} {input : Published α}
    {next : State α × List (Published (Batch α))}
    (stepped : step limit state input = some next) :
    next.1.mBatchSize = state.mBatchSize := by
  cases input with
  | element input =>
      obtain ⟨mBuf, _, written⟩ := Option.bind_eq_some_iff.mp stepped
      split at written
      · dsimp only at written
        split at written
        · have kept := publishBatch_mBatchSize written
          exact kept
        · obtain rfl := Option.some.inj written
          rfl
      · cases written
  | punctuation ptype =>
      simp only [step, processPunctuation] at stepped
      split at stepped
      · obtain ⟨before, published, rfl⟩ := Option.map_eq_some_iff.mp stepped
        have kept := publishBatch_mBatchSize published
        exact kept
      · obtain rfl := Option.some.inj stepped
        rfl

/-- Without a batch size the container is to grow beyond every limit at the first
punctuation. -/
theorem unbatched_unbounded {limit : VectorLimit} {state : State α}
    (unbounded : state.mBatchSize = SIZE_MAX) (stream : List (Published α)) (ptype : PType) :
    unbatched limit state (stream ++ [.punctuation ptype]) = none := by
  induction stream generalizing state with
  | nil =>
      have above : ¬ SIZE_MAX ≤ limit.max_size := not_le.mpr limit.below
      simp [unbatched, Transducer.tryRun, step, processPunctuation, unbounded, publishBatch,
        resize, above]
  | cons input stream induction =>
      rw [List.cons_append, unbatched, Transducer.tryRun]
      cases stepped : step limit state input with
      | none => rfl
      | some next =>
          have rest := induction ((step_mBatchSize stepped).trans unbounded)
          rw [unbatched, Option.map_eq_none_iff] at rest
          rw [Option.bind_some, rest]
          rfl

end Batcher

/-- `UnBatcher` undoes `Batcher` just when there is a batch size and full batches precede
every punctuation. -/
theorem unBatcher_undoes_batcher_iff [Inhabited α] (limit : VectorLimit) {batchSize : Nat}
    {batcher : Batcher.State α} (positive : 1 ≤ batchSize)
    (accepted : Batcher.new limit batchSize = some batcher) (stream : List (Published α)) :
    unbatched limit batcher (stream ++ [.punctuation .EndOfStream]) =
        some (stream ++ [.punctuation .EndOfStream]) ↔
      batchSize ≠ SIZE_MAX ∧ FillsBatches batchSize (stream ++ [.punctuation .EndOfStream]) := by
  by_cases bounded : batchSize = SIZE_MAX
  · have unbounded : batcher.mBatchSize = SIZE_MAX := by
      obtain ⟨mBuf, _, rfl⟩ := Option.map_eq_some_iff.mp accepted
      exact bounded
    simp [Batcher.unbatched_unbounded unbounded, bounded]
  · obtain ⟨fits, empty⟩ := Batcher.filled_new positive bounded accepted
    have same := Batcher.unbatched_eq_iff fits empty (stream ++ [.punctuation .EndOfStream])
    rw [List.length_nil, aligned_endOfStream_iff] at same
    simpa [UnBatcher.processDataElement, FillsBatches, bounded] using same

theorem unBatcher_undoes_batcher_pairs :
    unbatched ⟨8, by decide⟩ ⟨2, 0, [(0, false), (0, false)]⟩
        [.element ⟨5, false⟩, .element ⟨6, false⟩, .punctuation .EndOfStream] =
      some [.element ⟨5, false⟩, .element ⟨6, false⟩, .punctuation .EndOfStream] ↔
    2 ≠ SIZE_MAX ∧ FillsBatches 2
      [.element ⟨5, false⟩, .element ⟨6, false⟩, .punctuation .EndOfStream] :=
  unBatcher_undoes_batcher_iff ⟨8, by decide⟩ (by decide) rfl
    [.element ⟨5, false⟩, .element ⟨6, false⟩]

/-- A last batch of one tuple stays in the container. -/
theorem not_unBatcher_undoes_batcher :
    ¬ ∀ (limit : VectorLimit) (batchSize : Nat) (batcher : Batcher.State Nat)
      (stream : List (Published Nat)), 1 ≤ batchSize →
        Batcher.new limit batchSize = some batcher →
          (∀ change ∈ changes stream, change.outdated = false) →
            unbatched limit batcher (stream ++ [.punctuation .EndOfStream]) =
              some (stream ++ [.punctuation .EndOfStream]) := by
  intro every
  have lost := every ⟨8, by decide⟩ 2 ⟨2, 0, [(0, false), (0, false)]⟩
    [.element ⟨5, false⟩] (by decide) rfl (by decide)
  revert lost
  decide

end PipeFabric
