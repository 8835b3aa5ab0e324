import Mathlib.Logic.Basic

/-!
# Two systems on the same calls

A system that may fail answers a sequence of calls next to a reference, whose step
is `none` for a call that is not legal.  They agree when the system does not fail
at a legal call and its state and answer match those of the reference after every
call.  Agreement on all calls is reduced to a condition on each call and the state
of the reference before it.
-/

namespace Lockstep

variable {State Reference Call Answer Expected : Type}

/-- The system answers every legal call as the reference does. -/
def Agree (step : State → Call → Option (State × Answer))
    (reference : Reference → Call → Option (Reference × Expected))
    (agrees : State × Answer → Reference × Expected → Prop) :
    State → Reference → List Call → Prop
  | _, _, [] => True
  | state, before, call :: calls =>
      ∀ after, reference before call = some after →
        ∃ next, step state call = some next ∧ agrees next after ∧
          Agree step reference agrees next.1 after.1 calls

/-- A condition on every legal call and the state of the reference before it. -/
def Along (reference : Reference → Call → Option (Reference × Expected))
    (condition : Reference → Call → Prop) : Reference → List Call → Prop
  | _, [] => True
  | before, call :: calls =>
      ∀ after, reference before call = some after →
        condition before call ∧ Along reference condition after.1 calls

variable {step : State → Call → Option (State × Answer)}
  {reference : Reference → Call → Option (Reference × Expected)}
  {agrees : State × Answer → Reference × Expected → Prop}
  {condition : Reference → Call → Prop}

/-- The induction rule.  From related states a call that satisfies the condition
is answered alike and leads to related states, and a call that is answered alike
satisfies the condition. -/
theorem agree_iff_of_assumed (assumed : Reference → Call → Prop)
    (related : State → Reference → Prop)
    (enough : ∀ state before call after, related state before →
      reference before call = some after → assumed before call →
      condition before call →
      ∃ next, step state call = some next ∧ agrees next after ∧
        related next.1 after.1)
    (needed : ∀ state before call after next, related state before →
      reference before call = some after → assumed before call →
      step state call = some next → agrees next after → condition before call)
    {state : State} {before : Reference} (calls : List Call)
    (start : related state before) (along : Along reference assumed before calls) :
    Agree step reference agrees state before calls ↔
      Along reference condition before calls := by
  induction calls generalizing state before with
  | nil => exact Iff.rfl
  | cons call calls induction =>
      constructor
      · intro agree after legal
        obtain ⟨next, stepped, alike, rest⟩ := agree after legal
        obtain ⟨admitted, later⟩ := along after legal
        have holds := needed state before call after next start legal admitted
          stepped alike
        obtain ⟨reached, again, _, kept⟩ :=
          enough state before call after start legal admitted holds
        obtain rfl := Option.some.inj (stepped.symm.trans again)
        exact ⟨holds, (induction kept later).mp rest⟩
      · intro every after legal
        obtain ⟨holds, rest⟩ := every after legal
        obtain ⟨admitted, later⟩ := along after legal
        obtain ⟨next, stepped, alike, kept⟩ :=
          enough state before call after start legal admitted holds
        exact ⟨next, stepped, alike, (induction kept later).mpr rest⟩

theorem along_of_forall_mem {calls : List Call}
    (holds : ∀ call ∈ calls, ∀ before, condition before call) (before : Reference) :
    Along reference condition before calls := by
  induction calls generalizing before with
  | nil => trivial
  | cons call calls induction =>
      obtain ⟨first, rest⟩ := List.forall_mem_cons.mp holds
      exact fun after _ => ⟨first before, induction rest after.1⟩

theorem along_of_forall (holds : ∀ before call, condition before call)
    (before : Reference) (calls : List Call) :
    Along reference condition before calls :=
  along_of_forall_mem (fun call _ before => holds before call) before

/-- A condition on the calls alone, when every call is legal. -/
theorem along_iff_forall_mem {holds : Call → Prop}
    (legal : ∀ before call, ∃ after, reference before call = some after)
    (before : Reference) (calls : List Call) :
    Along reference (fun _ call => holds call) before calls ↔ ∀ call ∈ calls, holds call := by
  constructor
  · intro along
    induction calls generalizing before with
    | nil => exact fun _ member => absurd member List.not_mem_nil
    | cons call calls induction =>
        obtain ⟨after, accepted⟩ := legal before call
        obtain ⟨first, rest⟩ := along after accepted
        exact List.forall_mem_cons.mpr ⟨first, induction after.1 rest⟩
  · exact fun every => along_of_forall_mem (fun call member _ => every call member) before

/-- The rule without assumptions on the calls. -/
theorem agree_iff (related : State → Reference → Prop)
    (enough : ∀ state before call after, related state before →
      reference before call = some after → condition before call →
      ∃ next, step state call = some next ∧ agrees next after ∧
        related next.1 after.1)
    (needed : ∀ state before call after next, related state before →
      reference before call = some after →
      step state call = some next → agrees next after → condition before call)
    {state : State} {before : Reference} (calls : List Call)
    (start : related state before) :
    Agree step reference agrees state before calls ↔
      Along reference condition before calls :=
  agree_iff_of_assumed (fun _ _ => True) related
    (fun state before call after kept legal _ holds =>
      enough state before call after kept legal holds)
    (fun state before call after next kept legal _ stepped alike =>
      needed state before call after next kept legal stepped alike)
    calls start (along_of_forall (fun _ _ => trivial) before calls)

end Lockstep
