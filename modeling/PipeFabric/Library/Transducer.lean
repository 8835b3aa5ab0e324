import Mathlib.Data.List.Induction

/-!
# Operators on streams

An operator takes one input at a time; every step changes its state and emits a
list of outputs.  `run` feeds a finite stream to an operator and collects all
outputs in the order in which they are emitted.  `tryRun` does so for an operator
whose steps can fail, and fails with the first of them.
-/

namespace Transducer

variable {State Input Output : Type}

/-- The state after the inputs and everything emitted for them. -/
def run (step : State → Input → State × List Output) (state : State) :
    List Input → State × List Output
  | [] => (state, [])
  | input :: inputs =>
      let next := step state input
      let rest := run step next.1 inputs
      (rest.1, next.2 ++ rest.2)

variable {step : State → Input → State × List Output} {start : State}

@[simp] theorem run_nil : run step start [] = (start, []) := rfl

theorem run_append (first second : List Input) :
    run step start (first ++ second) =
      ((run step (run step start first).1 second).1,
        (run step start first).2 ++
          (run step (run step start first).1 second).2) := by
  induction first generalizing start with
  | nil => rfl
  | cons input first induction =>
      simp only [List.cons_append, run, induction, List.append_assoc]

/-- One more input is one more step of the operator. -/
theorem run_concat (seen : List Input) (input : Input) :
    run step start (seen ++ [input]) =
      ((step (run step start seen).1 input).1,
        (run step start seen).2 ++ (step (run step start seen).1 input).2) := by
  rw [run_append]
  simp only [run, List.append_nil]

/-- What has a number in a stream with one more arrival. -/
theorem getElem?_concat_iff {inputs : List Input} {last input : Input} {number : Nat} :
    (inputs ++ [last])[number]? = some input ↔
      inputs[number]? = some input ∨ (number = inputs.length ∧ last = input) := by
  rcases Nat.lt_trichotomy number inputs.length with before | rfl | beyond
  · rw [List.getElem?_append_left before, or_iff_left]
    intro both
    exact absurd both.1 (Nat.ne_of_lt before)
  · rw [List.getElem?_concat_length, List.getElem?_eq_none (Nat.le_refl _), or_iff_right]
    · simp
    · simp
  · rw [List.getElem?_eq_none, List.getElem?_eq_none (Nat.le_of_lt beyond)]
    · simp only [reduceCtorEq, false_or, false_iff]
      intro both
      exact absurd both.1 (Nat.ne_of_gt beyond)
    · rw [List.length_append, List.length_singleton]
      exact beyond

theorem forall_arrivals_nil (condition : List Input → Input → Prop) :
    ∀ seen input, seen ++ [input] <+: [] → condition seen input := by
  intro seen input start
  have nothing := List.prefix_nil.mp start
  simp at nothing

/-- What holds of all arrivals, by the first one. -/
theorem forall_arrivals_cons {condition : List Input → Input → Prop} {first : Input}
    {inputs : List Input} :
    (∀ seen input, seen ++ [input] <+: first :: inputs → condition seen input) ↔
      condition [] first ∧
        ∀ seen input, seen ++ [input] <+: inputs → condition (first :: seen) input := by
  constructor
  · intro every
    constructor
    · exact every [] first (List.cons_prefix_cons.mpr ⟨rfl, List.nil_prefix⟩)
    · intro seen input inside
      exact every (first :: seen) input (List.cons_prefix_cons.mpr ⟨rfl, inside⟩)
  · intro both seen input inside
    cases seen with
    | nil =>
        obtain ⟨rfl, _⟩ := List.cons_prefix_cons.mp inside
        exact both.1
    | cons earliest seen =>
        obtain ⟨rfl, rest⟩ := List.cons_prefix_cons.mp inside
        exact both.2 seen input rest

/-- What every arrival has to satisfy for a property to survive the stream. -/
theorem forall_arrivals_iff (holds : List Input → Prop)
    {condition : List Input → Input → Prop} (inputs : List Input)
    (initially : holds [])
    (arrival : ∀ seen input, seen ++ [input] <+: inputs →
      (holds (seen ++ [input]) ↔ holds seen ∧ condition seen input)) :
    holds inputs ↔
      ∀ seen input, seen ++ [input] <+: inputs → condition seen input := by
  induction inputs using List.reverseRecOn with
  | nil =>
      constructor
      · intro _
        exact forall_arrivals_nil condition
      · intro _
        exact initially
  | append_singleton inputs last induction =>
      have before := induction fun seen input start =>
        arrival seen input (start.trans (List.prefix_append _ _))
      rw [arrival inputs last List.prefix_rfl, before]
      constructor
      · intro every seen input start
        obtain ⟨earlier, newest⟩ := every
        rcases List.prefix_concat_iff.mp start with whole | inside
        · obtain ⟨rfl, same⟩ := List.append_inj' whole rfl
          obtain rfl := List.singleton_inj.mp same
          exact newest
        · exact earlier seen input inside
      · intro every
        constructor
        · intro seen input start
          exact every seen input (start.trans (List.prefix_append _ _))
        · exact every inputs last List.prefix_rfl

/-- What every arrival has to satisfy for what is promised of each to be kept.  As long as
all is well an invariant holds. -/
theorem forall_promises_iff {holds : List Input → Prop}
    {promise condition : List Input → Input → Prop} {inputs : List Input}
    (initially : holds [])
    (arrival : ∀ seen input, seen ++ [input] <+: inputs → holds seen →
      (promise seen input ↔ condition seen input) ∧
        (condition seen input → holds (seen ++ [input]))) :
    (∀ seen input, seen ++ [input] <+: inputs → promise seen input) ↔
      ∀ seen input, seen ++ [input] <+: inputs → condition seen input := by
  have along {kept : List Input → Input → Prop}
      (all : ∀ seen input, seen ++ [input] <+: inputs → kept seen input)
      (enough : ∀ seen input, seen ++ [input] <+: inputs → holds seen → kept seen input →
        condition seen input) (seen : List Input) (start : seen <+: inputs) : holds seen := by
    induction seen using List.reverseRecOn with
    | nil => exact initially
    | append_singleton seen last induction =>
        have before := induction ((List.prefix_append _ _).trans start)
        exact (arrival seen last start before).2
          (enough seen last start before (all seen last start))
  constructor
  · intro every seen input start
    have before := along every (fun seen input start before promised =>
      (arrival seen input start before).1.mp promised) seen
      ((List.prefix_append _ _).trans start)
    exact (arrival seen input start before).1.mp (every seen input start)
  · intro every seen input start
    have before := along every (fun _ _ _ _ permitted => permitted) seen
      ((List.prefix_append _ _).trans start)
    exact (arrival seen input start before).1.mpr (every seen input start)

/-- What every arrival has to satisfy for a property to hold all along the stream. -/
theorem forall_seen_iff {holds : List Input → Prop}
    {condition : List Input → Input → Prop} {inputs : List Input} (initially : holds [])
    (arrival : ∀ seen input, seen ++ [input] <+: inputs → holds seen →
      (holds (seen ++ [input]) ↔ condition seen input)) :
    (∀ seen, seen <+: inputs → holds seen) ↔
      ∀ seen input, seen ++ [input] <+: inputs → condition seen input := by
  apply forall_arrivals_iff fun inputs => ∀ seen, seen <+: inputs → holds seen
  · intro seen start
    rw [List.prefix_nil.mp start]
    exact initially
  · intro seen input within
    constructor
    · intro every
      refine ⟨fun earlier start => every earlier (start.trans (List.prefix_append _ _)), ?_⟩
      exact (arrival seen input within (every seen (List.prefix_append _ _))).mp
        (every _ List.prefix_rfl)
    · intro both earlier start
      obtain ⟨every, permitted⟩ := both
      rcases List.prefix_concat_iff.mp start with rfl | before
      · exact (arrival seen input within (every seen List.prefix_rfl)).mpr permitted
      · exact every earlier before

/-- What was emitted for a prefix of the stream stays emitted. -/
theorem run_mono {seen inputs : List Input} (earlier : seen <+: inputs) :
    (run step start seen).2 <+: (run step start inputs).2 := by
  obtain ⟨later, rfl⟩ := earlier
  rw [run_append]
  exact List.prefix_append _ _

/-! ### Operators that can fail -/

/-- The state and the outputs, unless one of the steps fails. -/
def tryRun (step : State → Input → Option (State × List Output))
    (state : State) : List Input → Option (State × List Output)
  | [] => some (state, [])
  | input :: inputs =>
      (step state input).bind fun next =>
        (tryRun step next.1 inputs).map fun rest => (rest.1, next.2 ++ rest.2)

variable {attempt : State → Input → Option (State × List Output)}

@[simp] theorem tryRun_nil : tryRun attempt start [] = some (start, []) := rfl

theorem tryRun_append (first second : List Input) :
    tryRun attempt start (first ++ second) =
      (tryRun attempt start first).bind fun before =>
        (tryRun attempt before.1 second).map fun rest =>
          (rest.1, before.2 ++ rest.2) := by
  induction first generalizing start with
  | nil =>
      simp only [List.nil_append, tryRun_nil, Option.bind_some]
      cases tryRun attempt start second <;> rfl
  | cons input first induction =>
      simp only [List.cons_append, tryRun]
      cases attempt start input with
      | none => rfl
      | some next =>
          simp only [Option.bind_some, induction]
          cases tryRun attempt next.1 first with
          | none => rfl
          | some before =>
              simp only [Option.bind_some, Option.map_some, Option.map_map]
              congr 1
              funext rest
              simp only [Function.comp_apply, List.append_assoc]

theorem tryRun_concat (seen : List Input) (input : Input) :
    tryRun attempt start (seen ++ [input]) =
      (tryRun attempt start seen).bind fun before =>
        (attempt before.1 input).map fun next =>
          (next.1, before.2 ++ next.2) := by
  rw [tryRun_append]
  congr 1
  funext before
  simp only [tryRun]
  cases attempt before.1 input with
  | none => rfl
  | some next => simp

/-- The last step of a run that does not fail. -/
theorem tryRun_concat_eq_some {seen : List Input} {input : Input} {state : State}
    {emitted : List Output}
    (ran : tryRun attempt start (seen ++ [input]) = some (state, emitted)) :
    ∃ before earlier last, tryRun attempt start seen = some (before, earlier) ∧
      attempt before input = some (state, last) ∧ emitted = earlier ++ last := by
  rw [tryRun_concat, Option.bind_eq_some_iff] at ran
  obtain ⟨⟨before, earlier⟩, reached, rest⟩ := ran
  obtain ⟨⟨next, last⟩, stepped, equal⟩ := Option.map_eq_some_iff.mp rest
  cases equal
  exact ⟨before, earlier, last, reached, stepped, rfl⟩

/-- A run that does not fail has not failed before. -/
theorem tryRun_truncate {seen inputs : List Input} {final : State × List Output}
    (ran : tryRun attempt start inputs = some final) (earlier : seen <+: inputs) :
    ∃ before, tryRun attempt start seen = some before ∧ before.2 <+: final.2 := by
  obtain ⟨later, rfl⟩ := earlier
  rw [tryRun_append, Option.bind_eq_some_iff] at ran
  obtain ⟨before, reached, rest⟩ := ran
  obtain ⟨after, _, rfl⟩ := Option.map_eq_some_iff.mp rest
  exact ⟨before, reached, List.prefix_append _ _⟩

/-- A run that an operator without failures simulates step by step does not fail,
and emits what that operator emits. -/
theorem tryRun_simulated {Model Observed : Type}
    {model : Model → Input → Model × List Observed} {observe : Output → Observed}
    {related : State → Model → Prop}
    (simulated : ∀ state before input, related state before →
      ∃ next, attempt state input = some next ∧
        related next.1 (model before input).1 ∧
        next.2.map observe = (model before input).2)
    {before : Model} (initially : related start before) (inputs : List Input) :
    ∃ final, tryRun attempt start inputs = some final ∧
      related final.1 (run model before inputs).1 ∧
      final.2.map observe = (run model before inputs).2 := by
  induction inputs generalizing start before with
  | nil => exact ⟨(start, []), rfl, initially, rfl⟩
  | cons input inputs induction =>
      obtain ⟨next, stepped, alike, emitted⟩ := simulated start before input initially
      obtain ⟨final, ran, kept, later⟩ := induction alike
      refine ⟨(final.1, next.2 ++ final.2), ?_, kept, ?_⟩
      · simp [tryRun, stepped, ran]
      · simp [run, emitted, later]

/-- An operator that another one mirrors step by step: the view of its state is the
state of the other one, and its outputs are read off the other one's. -/
theorem tryRun_view {Model Entry Observed : Type}
    {model : Model → Entry → Option (Model × List Observed)} {view : State → Model}
    {entry : Input → Entry} {observe : Observed → Output}
    (mirrored : ∀ state input,
      (attempt state input).map (fun next => (view next.1, next.2)) =
        (model (view state) (entry input)).map fun next => (next.1, next.2.map observe))
    (state : State) (inputs : List Input) :
    (tryRun attempt state inputs).map (fun final => (view final.1, final.2)) =
      (tryRun model (view state) (inputs.map entry)).map fun final =>
        (final.1, final.2.map observe) := by
  induction inputs generalizing state with
  | nil => rfl
  | cons input inputs induction =>
      have here := mirrored state input
      simp only [List.map_cons, tryRun]
      cases stepped : attempt state input with
      | none =>
          rw [stepped] at here
          have other := Option.map_eq_none_iff.mp here.symm
          rw [other]
          rfl
      | some next =>
          rw [stepped, Option.map_some, eq_comm, Option.map_eq_some_iff] at here
          obtain ⟨after, other, same⟩ := here
          obtain ⟨states, outputs⟩ := Prod.mk.inj same
          have later := induction next.1
          rw [← states] at later
          rw [other, Option.bind_some, Option.bind_some, Option.map_map, Option.map_map]
          simp only [← outputs]
          cases ran : tryRun attempt next.1 inputs with
          | none =>
              rw [ran] at later
              rw [Option.map_eq_none_iff.mp later.symm]
              rfl
          | some final =>
              rw [ran, Option.map_some, eq_comm, Option.map_eq_some_iff] at later
              obtain ⟨last, reached, equal⟩ := later
              obtain ⟨finals, emitted⟩ := Prod.mk.inj equal
              rw [reached]
              simp [finals, ← emitted]

/-! ### The calls of a run -/

/-- One step of an operator, with the states before and after it. -/
structure Call (State Input Output : Type) where
  before : State
  input : Input
  after : State
  emitted : List Output

/-- The steps of a run in their order, up to the first that fails. -/
def calls (step : State → Input → Option (State × List Output)) (state : State) :
    List Input → List (Call State Input Output)
  | [] => []
  | input :: inputs =>
      match step state input with
      | none => []
      | some next =>
          ⟨state, input, next.1, next.2⟩ :: calls step next.1 inputs

/-- What can be seen of a run: the outputs of each step, and the step that fails. -/
def emissions (step : State → Input → Option (State × List Output)) (state : State) :
    List Input → List (Option (List Output))
  | [] => []
  | input :: inputs =>
      match step state input with
      | none => [none]
      | some next => some next.2 :: emissions step next.1 inputs

/-- Where both operators do the same, the rest of the stream decides. -/
theorem emissions_cons_eq_iff {first second : State → Input → Option (State × List Output)}
    {state : State} {input : Input} (same : first state input = second state input)
    (inputs : List Input) :
    emissions first state (input :: inputs) = emissions second state (input :: inputs) ↔
      ∀ next, second state input = some next →
        emissions first next.1 inputs = emissions second next.1 inputs := by
  simp only [emissions, same]
  cases second state input with
  | none => simp
  | some next => simp

/-- Where one operator fails the other has to fail. -/
theorem emissions_cons_eq_iff_of_fails
    {first second : State → Input → Option (State × List Output)} {state : State}
    {input : Input} (fails : first state input = none) (inputs : List Input) :
    emissions first state (input :: inputs) = emissions second state (input :: inputs) ↔
      second state input = none := by
  simp only [emissions, fails]
  cases second state input with
  | none => simp
  | some next => simp

/-- A promise about every call of a run and the calls before it. -/
def Throughout (promise : List (Call State Input Output) → Call State Input Output → Prop)
    (history : List (Call State Input Output)) : Prop :=
  ∀ earlier call, earlier ++ [call] <+: history → promise earlier call

theorem throughout_nil
    (promise : List (Call State Input Output) → Call State Input Output → Prop) :
    Throughout promise [] :=
  forall_arrivals_nil promise

theorem throughout_cons
    {promise : List (Call State Input Output) → Call State Input Output → Prop}
    {call : Call State Input Output} {later : List (Call State Input Output)} :
    Throughout promise (call :: later) ↔
      promise [] call ∧ Throughout (fun earlier => promise (call :: earlier)) later :=
  forall_arrivals_cons

theorem calls_cons {state : State} {input : Input} {next : State × List Output}
    (stepped : attempt state input = some next) (inputs : List Input) :
    calls attempt state (input :: inputs) =
      ⟨state, input, next.1, next.2⟩ :: calls attempt next.1 inputs := by
  simp only [calls, stepped]

/-- What is promised of the call with this number. -/
theorem Throughout.get
    {promise : List (Call State Input Output) → Call State Input Output → Prop}
    {history : List (Call State Input Output)} (every : Throughout promise history)
    (number : Nat) {call : Call State Input Output} (here : history[number]? = some call) :
    promise (history.take number) call := by
  apply every
  have start := List.take_prefix (number + 1) history
  rw [List.take_add_one, here] at start
  exact start

/-- The induction rule for promises.  As long as the promise is kept an invariant
holds, and under the invariant the promise is a condition on the state and the
input. -/
theorem throughout_iff
    (invariant : List (Call State Input Output) → State → Prop)
    {promise : List (Call State Input Output) → Call State Input Output → Prop}
    {condition : State → Input → Prop}
    (exact : ∀ earlier state input next, invariant earlier state →
      attempt state input = some next →
      (promise earlier ⟨state, input, next.1, next.2⟩ ↔ condition state input))
    (kept : ∀ earlier state input next, invariant earlier state →
      attempt state input = some next →
      promise earlier ⟨state, input, next.1, next.2⟩ →
      invariant (earlier ++ [⟨state, input, next.1, next.2⟩]) next.1)
    (initially : invariant [] start) (inputs : List Input) :
    Throughout promise (calls attempt start inputs) ↔
      ∀ call ∈ calls attempt start inputs, condition call.before call.input := by
  suffices general : ∀ earlier, invariant earlier start →
      (Throughout (fun recent => promise (earlier ++ recent)) (calls attempt start inputs) ↔
        ∀ call ∈ calls attempt start inputs, condition call.before call.input) by
    exact general [] initially
  clear initially
  induction inputs generalizing start with
  | nil =>
      intro earlier _
      exact iff_of_true (throughout_nil _) (fun _ member => absurd member List.not_mem_nil)
  | cons input inputs induction =>
      intro earlier holds
      cases stepped : attempt start input with
      | none =>
          simp only [calls, stepped]
          exact iff_of_true (throughout_nil _) (fun _ member => absurd member List.not_mem_nil)
      | some next =>
          rw [calls_cons stepped, throughout_cons, List.forall_mem_cons, List.append_nil]
          have first := exact earlier start input next holds stepped
          constructor
          · intro both
            have after := kept earlier start input next holds stepped both.1
            refine ⟨first.mp both.1, (induction _ after).mp ?_⟩
            simpa only [List.append_assoc, List.singleton_append] using both.2
          · intro both
            have promised := first.mpr both.1
            have after := kept earlier start input next holds stepped promised
            refine ⟨promised, ?_⟩
            have rest := (induction _ after).mpr both.2
            simpa only [List.append_assoc, List.singleton_append] using rest

/-- The rule for a condition that is only enough for the promise. -/
theorem throughout_of
    (invariant : List (Call State Input Output) → State → Prop)
    (promise : List (Call State Input Output) → Call State Input Output → Prop)
    (condition : State → Input → Prop)
    (kept : ∀ earlier state input next, invariant earlier state →
      attempt state input = some next → condition state input →
      promise earlier ⟨state, input, next.1, next.2⟩ ∧
        invariant (earlier ++ [⟨state, input, next.1, next.2⟩]) next.1)
    (initially : invariant [] start) (inputs : List Input)
    (conditions : ∀ call ∈ calls attempt start inputs, condition call.before call.input) :
    Throughout promise (calls attempt start inputs) := by
  suffices general : ∀ earlier, invariant earlier start →
      Throughout (fun recent => promise (earlier ++ recent)) (calls attempt start inputs) by
    exact general [] initially
  clear initially
  induction inputs generalizing start with
  | nil => exact fun _ _ => throughout_nil _
  | cons input inputs induction =>
      intro earlier holds
      cases stepped : attempt start input with
      | none =>
          simp only [calls, stepped]
          exact throughout_nil _
      | some next =>
          rw [calls_cons stepped] at conditions ⊢
          obtain ⟨first, rest⟩ := List.forall_mem_cons.mp conditions
          obtain ⟨promised, after⟩ := kept earlier start input next holds stepped first
          rw [throughout_cons, List.append_nil]
          refine ⟨promised, ?_⟩
          have later := induction rest _ after
          simpa only [List.append_assoc, List.singleton_append] using later

/-- Every step returns when an invariant of the operator keeps it from failing. -/
theorem length_calls (invariant : State → Prop)
    (returns : ∀ state input, invariant state →
      ∃ next, attempt state input = some next ∧ invariant next.1)
    (initially : invariant start) (inputs : List Input) :
    (calls attempt start inputs).length = inputs.length := by
  induction inputs generalizing start with
  | nil => rfl
  | cons input inputs induction =>
      obtain ⟨next, stepped, kept⟩ := returns start input initially
      rw [calls_cons stepped, List.length_cons, List.length_cons, induction kept]

/-! ### Operators put together -/

variable {Middle Other First Second : Type}

/-- An operator whose outputs are each replaced by what a function makes of them. -/
def through (step : State → Input → State × List Middle) (replace : Middle → List Output)
    (state : State) (input : Input) : State × List Output :=
  ((step state input).1, (step state input).2.flatMap replace)

/-- Two operators one after the other: the second one takes what the first one emits,
at once and in its order. -/
def cascade (first : State → Input → State × List Middle)
    (second : Other → Middle → Other × List Output) (states : State × Other)
    (input : Input) : (State × Other) × List Output :=
  let produced := first states.1 input
  let consumed := run second states.2 produced.2
  ((produced.1, consumed.1), consumed.2)

/-- Two operators beside each other: both take every input, one after the other. -/
def parallel (left : State → Input → State × List First)
    (right : Other → Input → Other × List Second) (onLeft : First → Output)
    (onRight : Second → Output) (states : State × Other) (input : Input) :
    (State × Other) × List Output :=
  let lefts := left states.1 input
  let rights := right states.2 input
  ((lefts.1, rights.1), lefts.2.map onLeft ++ rights.2.map onRight)

theorem run_through (operator : State → Input → State × List Middle)
    (replace : Middle → List Output) (state : State) (inputs : List Input) :
    run (through operator replace) state inputs =
      ((run operator state inputs).1, (run operator state inputs).2.flatMap replace) := by
  induction inputs generalizing state with
  | nil => rfl
  | cons input inputs induction =>
      simp only [run, induction, through, List.flatMap_append]

theorem run_cascade (first : State → Input → State × List Middle)
    (second : Other → Middle → Other × List Output) (states : State × Other)
    (inputs : List Input) :
    run (cascade first second) states inputs =
      (((run first states.1 inputs).1,
          (run second states.2 (run first states.1 inputs).2).1),
        (run second states.2 (run first states.1 inputs).2).2) := by
  induction inputs generalizing states with
  | nil => rfl
  | cons input inputs induction =>
      simp only [run, induction, cascade, run_append]

theorem run_parallel (left : State → Input → State × List First)
    (right : Other → Input → Other × List Second) (onLeft : First → Output)
    (onRight : Second → Output) (states : State × Other) (inputs : List Input) :
    (run (parallel left right onLeft onRight) states inputs).1 =
      ((run left states.1 inputs).1, (run right states.2 inputs).1) := by
  induction inputs generalizing states with
  | nil => rfl
  | cons input inputs induction => simp only [run, induction, parallel]

/-- The outputs of the left operator, chosen from those of both. -/
theorem filterMap_parallel_left {left : State → Input → State × List First}
    {right : Other → Input → Other × List Second} {onLeft : First → Output}
    {onRight : Second → Output} {choose : Output → Option First}
    (own : ∀ output, choose (onLeft output) = some output)
    (others : ∀ output, choose (onRight output) = none) (states : State × Other)
    (inputs : List Input) :
    (run (parallel left right onLeft onRight) states inputs).2.filterMap choose =
      (run left states.1 inputs).2 := by
  induction inputs generalizing states with
  | nil => rfl
  | cons input inputs induction =>
      have nothing : (right states.2 input).2.filterMap (fun output =>
          choose (onRight output)) = [] := by
        rw [List.filterMap_eq_nil_iff]
        exact fun output _ => others output
      simp only [run, parallel, List.filterMap_append, List.filterMap_map,
        Function.comp_def, own, nothing, List.filterMap_some, List.append_nil]
      exact congrArg _ (induction _)

/-- The outputs of the right operator, chosen from those of both. -/
theorem filterMap_parallel_right {left : State → Input → State × List First}
    {right : Other → Input → Other × List Second} {onLeft : First → Output}
    {onRight : Second → Output} {choose : Output → Option Second}
    (others : ∀ output, choose (onLeft output) = none)
    (own : ∀ output, choose (onRight output) = some output) (states : State × Other)
    (inputs : List Input) :
    (run (parallel left right onLeft onRight) states inputs).2.filterMap choose =
      (run right states.2 inputs).2 := by
  induction inputs generalizing states with
  | nil => rfl
  | cons input inputs induction =>
      have nothing : (left states.1 input).2.filterMap (fun output =>
          choose (onLeft output)) = [] := by
        rw [List.filterMap_eq_nil_iff]
        exact fun output _ => others output
      simp only [run, parallel, List.filterMap_append, List.filterMap_map,
        Function.comp_def, own, nothing, List.filterMap_some, List.nil_append]
      exact congrArg _ (induction _)

end Transducer
