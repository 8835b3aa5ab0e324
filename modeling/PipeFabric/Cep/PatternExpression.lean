import PipeFabric.Cep.CEPState

/-!
# Pattern expressions

An expression leads from the start state to an end state.  Its shape is given apart
from the predicates of its states, which are told by their numbers.  The meaning of an
expression is the set of the event sequences it matches.
-/

namespace PipeFabric

namespace CEP

/-- An expression of intermediate states. -/
inductive Pattern where
  | state (id : Nat)
  | seq (first second : Pattern)
  | or (first second : Pattern)
  | not (pattern : Pattern)

/-- An expression whose first state is the start state. -/
inductive Opening where
  | start
  | seq (opening : Opening) (pattern : Pattern)

/-- An expression whose last state is the end state. -/
inductive Closing where
  | stop
  | seq (pattern : Pattern) (closing : Closing)

/-- The predicates of the states. -/
structure Predicates (Event Related : Type) where
  intermediate : Nat → Event → Option Related → Bool
  stop : Event → Option Related → Bool

/-! ### What an expression means -/

section

variable {Event Related : Type} (predicates : Predicates Event Related)

/-- The events match the pattern.  A state stands for one event, and a negation for
any events among which the negated pattern does not occur.  On a new automaton the
related values are never set. -/
def Pattern.Matches : Pattern → List Event → Prop
  | .state id, events =>
      ∃ event, events = [event] ∧ predicates.intermediate id event none = true
  | .seq first second, events =>
      ∃ left right, events = left ++ right ∧ first.Matches left ∧ second.Matches right
  | .or first second, events => first.Matches events ∨ second.Matches events
  | .not pattern, events => ∀ part, part <:+: events → ¬ pattern.Matches part

/-- The start state stands for no event. -/
def Opening.Matches : Opening → List Event → Prop
  | .start, events => events = []
  | .seq opening pattern, events =>
      ∃ left right, events = left ++ right ∧ opening.Matches left ∧
        pattern.Matches predicates right

/-- The end state stands for an event. -/
def Closing.Matches : Closing → List Event → Prop
  | .stop, events => ∃ event, events = [event] ∧ predicates.stop event none = true
  | .seq pattern closing, events =>
      ∃ left right, events = left ++ right ∧ pattern.Matches predicates left ∧
        closing.Matches right

/-! ### What the operators make of it -/

/-- The state that an expression of intermediate states returns. -/
def Pattern.build : Pattern → CEPState Event Related
  | .state id => .new (predicates.intermediate id) .Intermediate id
  | .seq first second => first.build.seq second.build
  | .or first second => first.build.or second.build
  | .not pattern => pattern.build.not

/-- The state that an expression from the start state on returns. -/
def Opening.build : Opening → CEPState Event Related
  | .start => .start
  | .seq opening pattern => opening.build.seq (pattern.build predicates)

/-- The state that an expression up to the end state returns. -/
def Closing.build : Closing → CEPState Event Related
  | .stop => .new predicates.stop .Stopp 1000
  | .seq pattern closing => (pattern.build predicates).seq closing.build

end

/-! ### Numbers of states -/

/-- The numbers of all states. -/
def Pattern.ids : Pattern → List Nat
  | .state id => [id]
  | .seq first second => first.ids ++ second.ids
  | .or first second => first.ids ++ second.ids
  | .not pattern => pattern.ids

/-- The numbers of the intermediate states. -/
def Opening.ids : Opening → List Nat
  | .start => []
  | .seq opening pattern => opening.ids ++ pattern.ids

/-- The numbers of the intermediate states. -/
def Closing.ids : Closing → List Nat
  | .stop => []
  | .seq pattern closing => pattern.ids ++ closing.ids

/-- A whole expression.  The counter gives pairwise different numbers from 1 on to the
intermediate states; there can have been others before them. -/
structure Expression where
  opening : Opening
  closing : Closing
  distinct : (opening.ids ++ closing.ids).Nodup
  positive : ∀ id ∈ opening.ids ++ closing.ids, 0 < id

section

variable {Event Related : Type} (predicates : Predicates Event Related)

/-- The state on which `constructNFA` is called. -/
def Expression.build (expression : Expression) : CEPState Event Related :=
  (expression.opening.build predicates).seq (expression.closing.build predicates)

/-- The events match the expression. -/
def Expression.Matches (expression : Expression) (events : List Event) : Prop :=
  ∃ left right, events = left ++ right ∧ expression.opening.Matches predicates left ∧
    expression.closing.Matches predicates right

end

/-! ### The edges of the operators -/

/-- The number of the state that is returned. -/
def Pattern.returned : Pattern → Nat
  | .state id => id
  | .seq _ second => second.returned
  | .or first _ => first.returned
  | .not pattern => pattern.returned

/-- The number of the state that is returned. -/
def Opening.returned : Opening → Nat
  | .start => 0
  | .seq _ pattern => pattern.returned

/-- The transitions that the sequence operators ask for. -/
def Pattern.edges : Pattern → List (Nat × Nat)
  | .state _ => []
  | .seq first second => second.edges ++ first.edges ++ [(first.returned, second.returned)]
  | .or first second => first.edges ++ second.edges
  | .not pattern => pattern.edges

/-- The transitions that the sequence operators ask for. -/
def Opening.edges : Opening → List (Nat × Nat)
  | .start => []
  | .seq opening pattern =>
      pattern.edges ++ opening.edges ++ [(opening.returned, pattern.returned)]

/-- The transitions that the sequence operators ask for. -/
def Closing.edges : Closing → List (Nat × Nat)
  | .stop => []
  | .seq pattern closing => closing.edges ++ pattern.edges ++ [(pattern.returned, 1000)]

/-- The transitions that the sequence operators ask for. -/
def Expression.edges (expression : Expression) : List (Nat × Nat) :=
  expression.closing.edges ++ expression.opening.edges ++
    [(expression.opening.returned, 1000)]

/-- The transitions in a table. -/
def transitions {Event Related : Type} (exprs : List (Expr Event Related)) :
    List (Nat × Nat) :=
  exprs.filterMap fun expr =>
    if expr.op = .SEQ then expr.toState.map fun toState => (expr.fromState.id, toState.id)
    else none

section

variable {Event Related : Type} (predicates : Predicates Event Related)

theorem transitions_append (first second : List (Expr Event Related)) :
    transitions (first ++ second) = transitions first ++ transitions second :=
  List.filterMap_append

theorem Pattern.build_spec (pattern : Pattern) :
    (pattern.build predicates).id = pattern.returned ∧
      transitions (pattern.build predicates).exprs = pattern.edges := by
  induction pattern with
  | state id => exact ⟨rfl, rfl⟩
  | seq first second left right =>
      refine ⟨right.1, ?_⟩
      simp only [build, CEPState.seq, transitions_append, left.2, right.2, edges]
      rw [← left.1, ← right.1]
      rfl
  | or first second left right =>
      refine ⟨left.1, ?_⟩
      simp only [build, CEPState.or, transitions_append, left.2, right.2, edges]
      exact List.append_nil _
  | not pattern induction =>
      refine ⟨induction.1, ?_⟩
      simp only [build, CEPState.not, transitions_append, induction.2, edges]
      exact List.append_nil _

theorem Opening.build_spec (opening : Opening) :
    (opening.build predicates).id = opening.returned ∧
      transitions (opening.build predicates).exprs = opening.edges := by
  induction opening with
  | start => exact ⟨rfl, rfl⟩
  | seq opening pattern induction =>
      obtain ⟨id, inside⟩ := pattern.build_spec predicates
      refine ⟨id, ?_⟩
      simp only [build, CEPState.seq, transitions_append, induction.2, inside, edges]
      rw [← induction.1, ← id]
      rfl

theorem Closing.build_spec (closing : Closing) :
    (closing.build predicates).toCEPStatePtr = ⟨some predicates.stop, 1000, .Stopp⟩ ∧
      transitions (closing.build predicates).exprs = closing.edges := by
  induction closing with
  | stop => exact ⟨rfl, rfl⟩
  | seq pattern closing induction =>
      obtain ⟨id, inside⟩ := pattern.build_spec predicates
      refine ⟨induction.1, ?_⟩
      simp only [build, CEPState.seq, transitions_append, induction.2, inside, edges]
      rw [← id, induction.1]
      rfl

theorem Expression.transitions_build (expression : Expression) :
    transitions (expression.build predicates).exprs = expression.edges := by
  obtain ⟨id, opening⟩ := expression.opening.build_spec predicates
  obtain ⟨stop, closing⟩ := expression.closing.build_spec predicates
  simp only [build, CEPState.seq, transitions_append, opening, closing, edges]
  rw [← id, stop]
  rfl

end

end CEP

end PipeFabric
