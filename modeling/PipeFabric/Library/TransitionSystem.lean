import Mathlib.Logic.Function.Basic
import Mathlib.Logic.Relation

/-!
# Labelled transition systems

A system is a partial step function: `step state action` is the next state, or
`none` where the action is not enabled.  `run` executes a list of actions and
is what concrete traces evaluate; `Execution` is the corresponding relation,
with a side condition on every step that is taken.
-/

namespace TransitionSystem

variable {State Action : Type}

/-- Executes the actions from left to right. -/
def run (step : State → Action → Option State) :
    State → List Action → Option State
  | state, [] => some state
  | state, action :: actions =>
      (step state action).bind fun next => run step next actions

/-- The states reached from `start` by steps that all satisfy `allowed` in the
state they are taken from. -/
inductive Execution (step : State → Action → Option State)
    (allowed : State → Action → Prop) (start : State) : State → Prop where
  | refl : Execution step allowed start start
  | tail {state next : State} {action : Action} :
      Execution step allowed start state →
      allowed state action →
      step state action = some next →
      Execution step allowed start next

/-- Executions without a side condition. -/
abbrev Reachable (step : State → Action → Option State) : State → State → Prop :=
  Execution step fun _ _ => True

namespace Execution

variable {step : State → Action → Option State}
  {allowed : State → Action → Prop} {start middle final : State}

/-- The induction rule: what holds at the start and is kept by every allowed
step holds at the end. -/
theorem invariant {holds : State → Prop}
    (execution : Execution step allowed start final)
    (initially : holds start)
    (preserved : ∀ state action next, holds state → allowed state action →
      step state action = some next → holds next) :
    holds final := by
  induction execution with
  | refl => exact initially
  | tail _ permitted stepped induction =>
      exact preserved _ _ _ induction permitted stepped

theorem trans (first : Execution step allowed start middle)
    (second : Execution step allowed middle final) :
    Execution step allowed start final := by
  induction second with
  | refl => exact first
  | tail _ permitted stepped induction =>
      exact .tail induction permitted stepped

theorem single {action : Action} (permitted : allowed start action)
    (stepped : step start action = some final) :
    Execution step allowed start final :=
  .tail .refl permitted stepped

end Execution

theorem run_append (step : State → Action → Option State)
    (state : State) (first second : List Action) :
    run step state (first ++ second) =
      (run step state first).bind fun next => run step next second := by
  induction first generalizing state with
  | nil => rfl
  | cons action first induction =>
      simp only [List.cons_append, run]
      cases step state action with
      | none => rfl
      | some next => exact induction next

/-- A successful run is an execution. -/
theorem Execution.of_run {step : State → Action → Option State}
    {start final : State} {actions : List Action}
    (ran : run step start actions = some final) :
    Reachable step start final := by
  induction actions generalizing start with
  | nil =>
      simp only [run, Option.some.injEq] at ran
      subst ran
      exact .refl
  | cons action actions induction =>
      simp only [run, Option.bind_eq_some_iff] at ran
      obtain ⟨next, stepped, rest⟩ := ran
      exact (Execution.single trivial stepped).trans (induction rest)

/-- The system that stops where the side condition fails. -/
def guarded (step : State → Action → Option State)
    (allowed : State → Action → Prop)
    [∀ state action, Decidable (allowed state action)] :
    State → Action → Option State :=
  fun state action => if allowed state action then step state action else none

/-- A successful run of the guarded system is an execution of the system. -/
theorem Execution.of_guarded_run {step : State → Action → Option State}
    {allowed : State → Action → Prop}
    [∀ state action, Decidable (allowed state action)]
    {start final : State} {actions : List Action}
    (ran : run (guarded step allowed) start actions = some final) :
    Execution step allowed start final := by
  induction actions generalizing start with
  | nil =>
      simp only [run, Option.some.injEq] at ran
      subst ran
      exact .refl
  | cons action actions induction =>
      simp only [run, Option.bind_eq_some_iff] at ran
      obtain ⟨next, stepped, rest⟩ := ran
      unfold guarded at stepped
      split at stepped
      case isTrue permitted =>
        exact (Execution.single permitted stepped).trans (induction rest)
      case isFalse => cases stepped

/-! ## Calls within a run -/

section Calls

variable {Thread Answer Past : Type}

/-- The calls of a system: the steps at which a thread begins one, those at which it gets
the answer, and the history that the answers refer to. -/
structure Calls (State Action Thread Answer Past : Type) where
  begins : State → Action → Option Thread
  answers : State → Action → Option (Thread × Answer)
  past : State → Past

/-- A call with the history at its beginning and the history at its end. -/
structure Answered (Answer Past : Type) where
  began : Past
  ended : Past
  answer : Answer

namespace Calls

variable [DecidableEq Thread] {calls : Calls State Action Thread Answer Past}
  {step : State → Action → Option State}

/-- The histories at which the last call of every thread began, after a step. -/
def begun (calls : Calls State Action Thread Answer Past) (began : Thread → Past)
    (state : State) (action : Action) : Thread → Past :=
  match calls.begins state action with
  | none => began
  | some thread => Function.update began thread (calls.past state)

/-- The calls that are answered in a run, in the order of the answers. -/
def answered (calls : Calls State Action Thread Answer Past)
    (step : State → Action → Option State) :
    (Thread → Past) → State → List Action → List (Answered Answer Past)
  | _, _, [] => []
  | began, state, action :: actions =>
      match step state action with
      | none => []
      | some next =>
          (calls.answers state action).toList.map
              (fun answer => ⟨began answer.1, calls.past state, answer.2⟩) ++
            calls.answered step (calls.begun began state action) next actions

theorem answered_cons {state next : State} {action : Action}
    (stepped : step state action = some next) (began : Thread → Past)
    (actions : List Action) :
    calls.answered step began state (action :: actions) =
      (calls.answers state action).toList.map
          (fun answer => ⟨began answer.1, calls.past state, answer.2⟩) ++
        calls.answered step (calls.begun began state action) next actions := by
  rw [answered, stepped]

/-- What an invariant says of every answer that is given holds of all the calls. -/
theorem forall_answered (correct : Answered Answer Past → Prop)
    {holds : (Thread → Past) → State → Prop}
    (preserved : ∀ began state action next, holds began state →
      step state action = some next → holds (calls.begun began state action) next)
    (answers : ∀ began state action next thread answer, holds began state →
      step state action = some next → calls.answers state action = some (thread, answer) →
      correct ⟨began thread, calls.past state, answer⟩)
    {began : Thread → Past} {start : State} (initially : holds began start)
    (actions : List Action) :
    ∀ call ∈ calls.answered step began start actions, correct call := by
  induction actions generalizing began start with
  | nil =>
      intro call member
      cases member
  | cons action actions induction =>
      intro call member
      cases stepped : step start action with
      | none =>
          rw [answered, stepped] at member
          cases member
      | some next =>
          rw [answered_cons stepped] at member
          rcases List.mem_append.mp member with here | later
          · obtain ⟨⟨thread, answer⟩, given, rfl⟩ := List.mem_map.mp here
            exact answers began start action next thread answer initially stepped
              (Option.mem_toList.mp given)
          · exact induction (preserved began start action next initially stepped) call later

/-- The answers of a run are what the steps add to a list that the states keep. -/
theorem answers_of_run {holds : (Thread → Past) → State → Prop} {output : State → List Answer}
    (preserved : ∀ began state action next, holds began state →
      step state action = some next → holds (calls.begun began state action) next)
    (adds : ∀ began state action next, holds began state → step state action = some next →
      output next = output state ++ (calls.answers state action).toList.map Prod.snd)
    {began : Thread → Past} {start final : State} (initially : holds began start)
    {actions : List Action} (ran : run step start actions = some final) :
    output final =
      output start ++ (calls.answered step began start actions).map Answered.answer := by
  induction actions generalizing began start with
  | nil =>
      cases ran
      exact (List.append_nil _).symm
  | cons action actions induction =>
      obtain ⟨next, stepped, rest⟩ := Option.bind_eq_some_iff.mp ran
      have later := induction (preserved began start action next initially stepped) rest
      rw [later, adds began start action next initially stepped, answered_cons stepped,
        List.map_append, List.append_assoc, List.map_map]
      rfl

end Calls

end Calls

/-! ## Counting down -/

/-- When the own steps of a thread count it down and no other step sets it back, enough
own steps bring it to zero, whatever the others do in between. -/
theorem countdown {Thread : Type} [DecidableEq Thread]
    {step : State → Action → Option State} {thread : Action → Option Thread}
    {holds : State → Prop} {left : State → Thread → Nat} {allowed : Action → Prop}
    (preserved : ∀ state action next, holds state → allowed action →
      step state action = some next → holds next)
    (counts : ∀ state action next own, holds state → allowed action →
      step state action = some next →
      left next own ≤ left state own - if thread action = some own then 1 else 0)
    {start final : State} {actions : List Action} (initially : holds start)
    (permitted : ∀ action ∈ actions, allowed action)
    (ran : run step start actions = some final) :
    holds final ∧ ∀ own, left final own ≤
      left start own - actions.countP fun action => thread action = some own := by
  induction actions generalizing start with
  | nil =>
      cases ran
      exact ⟨initially, fun own => Nat.le_refl _⟩
  | cons action actions induction =>
      obtain ⟨next, stepped, rest⟩ := Option.bind_eq_some_iff.mp ran
      obtain ⟨here, later⟩ := List.forall_mem_cons.mp permitted
      obtain ⟨kept, bounds⟩ :=
        induction (preserved start action next initially here stepped) later rest
      refine ⟨kept, ?_⟩
      intro own
      have first := counts start action next own initially here stepped
      have others := bounds own
      rw [List.countP_cons]
      simp only [decide_eq_true_eq]
      omega

end TransitionSystem
