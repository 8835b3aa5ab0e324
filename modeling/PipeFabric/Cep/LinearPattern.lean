import Mathlib.Data.Fintype.Card
import PipeFabric.Library.SequencePattern
import PipeFabric.Cep.CEPEngine

/-!
# Linear automata

From the start state of a linear automaton there is one way to its final state.  It
passes normal states, and chains of negation states before them.  In front of each
normal state a partial match waits for the event of its edge, while the edges of the
chain say which events rule it out.
-/

namespace PipeFabric

namespace CEP

variable {Event Related : Type}

/-- A normal state with its edge and the edges of the chain that leads to it. -/
structure PatternStep (Event Related : Type) where
  negated : List (ForwardEdge Event Related)
  positive : ForwardEdge Event Related

/-- The edges of a linear automaton in their order. -/
structure LinearPattern (Event Related : Type) where
  first : ForwardEdge Event Related
  steps : List (PatternStep Event Related)

/-- A chain from `id` leads to the normal state `target`. -/
inductive Waits (nfa : NFAController Event Related) :
    Nat → PatternStep Event Related → Nat → Prop where
  | normal {id : Nat} {stateName : String} {positive : ForwardEdge Event Related} :
      nfa.states[id]? = some (.normal stateName [positive]) →
      Waits nfa id ⟨[], positive⟩ id
  | negation {id target : Nat} {stateName : String}
      {edge positive : ForwardEdge Event Related}
      {negated : List (ForwardEdge Event Related)} :
      nfa.states[id]? = some (.negation stateName [edge]) →
      Waits nfa edge.destState ⟨negated, positive⟩ target →
      Waits nfa id ⟨edge :: negated, positive⟩ target

/-- The way from a state to a final state. -/
inductive Path (nfa : NFAController Event Related) :
    Nat → List (PatternStep Event Related) → Prop where
  | final {id : Nat} {stateName : String} :
      nfa.states[id]? = some (.final stateName) → Path nfa id []
  | step {id target : Nat} {step : PatternStep Event Related}
      {later : List (PatternStep Event Related)} :
      Waits nfa id step target → Path nfa step.positive.destState later →
      Path nfa id (step :: later)

/-- A start state, at least one normal state, each of them possibly behind a chain of
negation states, and a final state. -/
structure Linear (nfa : NFAController Event Related)
    (pattern : LinearPattern Event Related) : Prop where
  start : ∃ stateName, nfa.states[nfa.start]? = some (.start stateName [pattern.first])
  path : Path nfa pattern.first.destState pattern.steps
  normal : pattern.steps ≠ []

/-- What a normal state and its chain ask for. -/
def PatternStep.toStep (nfa : NFAController Event Related)
    (step : PatternStep Event Related) : SequencePattern.Step Event (Option Related) where
  negated event related := step.negated.any fun edge => edge.predicate event related
  positive event related := step.positive.predicate event related
  update related event := nfa.update related step.positive.edgeID event

@[simp] theorem PatternStep.negated_nil (nfa : NFAController Event Related)
    (positive : ForwardEdge Event Related) (event : Event) (related : Option Related) :
    (PatternStep.toStep nfa ⟨[], positive⟩).negated event related = false := rfl

@[simp] theorem PatternStep.negated_cons (nfa : NFAController Event Related)
    (edge positive : ForwardEdge Event Related)
    (negated : List (ForwardEdge Event Related)) (event : Event)
    (related : Option Related) :
    (PatternStep.toStep nfa ⟨edge :: negated, positive⟩).negated event related =
      (edge.predicate event related ||
        (PatternStep.toStep nfa ⟨negated, positive⟩).negated event related) := rfl

/-- What the automaton asks for. -/
def LinearPattern.toPattern (nfa : NFAController Event Related)
    (pattern : LinearPattern Event Related) :
    SequencePattern.Pattern Event (Option Related) where
  first event := pattern.first.predicate event none
  start event := nfa.update nfa.init pattern.first.edgeID event
  steps := pattern.steps.map (PatternStep.toStep nfa)

/-! ### Chains are short -/

section

variable {nfa : NFAController Event Related}

/-- There is one way on from a state. -/
theorem Waits.unique {id target other : Nat} {step second : PatternStep Event Related}
    (waits : Waits nfa id step target) (also : Waits nfa id second other) :
    step = second := by
  induction waits generalizing second other with
  | normal state =>
      cases also with
      | normal again =>
          obtain ⟨_, same⟩ := NFAState.normal.inj (Option.some.inj (state.symm.trans again))
          obtain rfl := List.singleton_inj.mp same
          rfl
      | negation again _ => cases state.symm.trans again
  | negation state _ induction =>
      cases also with
      | normal again => cases state.symm.trans again
      | negation again rest =>
          obtain ⟨_, same⟩ :=
            NFAState.negation.inj (Option.some.inj (state.symm.trans again))
          obtain rfl := List.singleton_inj.mp same
          cases induction rest
          rfl

theorem Waits.lt_length {id target : Nat} {step : PatternStep Event Related}
    (waits : Waits nfa id step target) : id < nfa.states.length := by
  cases waits with
  | normal state => exact (List.getElem?_eq_some_iff.mp state).1
  | negation state _ => exact (List.getElem?_eq_some_iff.mp state).1

/-- Every shorter rest of the chain starts in a state of its own. -/
theorem Waits.exists_of_le {id target : Nat} {step : PatternStep Event Related}
    (waits : Waits nfa id step target) {length : Nat}
    (le : length ≤ step.negated.length) :
    ∃ start rest, Waits nfa start rest target ∧ rest.negated.length = length := by
  induction waits with
  | normal state =>
      obtain rfl := Nat.le_zero.mp le
      exact ⟨_, _, .normal state, rfl⟩
  | negation state waits induction =>
      rcases Nat.le_succ_iff.mp le with shorter | whole
      · exact induction shorter
      · exact ⟨_, _, .negation state waits, whole.symm⟩

/-- Where a state determines how far it is from the end of a chain, the chain is
shorter than the number of states. -/
theorem length_lt_of_distances {length states : Nat} (distance : Nat → Nat → Prop)
    (unique : ∀ state first second, distance state first → distance state second →
      first = second)
    (reached : ∀ steps, steps ≤ length → ∃ state, state < states ∧ distance state steps) :
    length < states := by
  have starts : ∀ steps : Fin (length + 1),
      ∃ start : Fin states, distance start steps := by
    intro steps
    obtain ⟨start, below, far⟩ := reached steps (Nat.le_of_lt_succ steps.isLt)
    exact ⟨⟨start, below⟩, far⟩
  choose start far using starts
  have injective : Function.Injective start := by
    intro first second equal
    have alike := far first
    rw [equal] at alike
    exact Fin.ext (unique _ _ _ alike (far second))
  have card := Fintype.card_le_of_injective start injective
  rw [Fintype.card_fin, Fintype.card_fin] at card
  exact card

/-- A chain does not have more states than the automaton. -/
theorem Waits.length_lt {id target : Nat} {step : PatternStep Event Related}
    (waits : Waits nfa id step target) :
    step.negated.length < nfa.states.length := by
  apply length_lt_of_distances fun start steps =>
    ∃ rest, Waits nfa start rest target ∧ rest.negated.length = steps
  · rintro start first second ⟨rest, left, rfl⟩ ⟨other, right, rfl⟩
    rw [left.unique right]
  · intro steps le
    obtain ⟨start, rest, left, same⟩ := waits.exists_of_le le
    exact ⟨start, left.lt_length, rest, left, same⟩

/-! ### The predicate check in front of a normal state -/

theorem Waits.target_eq {id target : Nat} {step : PatternStep Event Related}
    (waits : Waits nfa id step target) :
    ∃ stateName, nfa.states[target]? = some (.normal stateName [step.positive]) := by
  induction waits with
  | normal state => exact ⟨_, state⟩
  | negation _ _ induction => exact induction

theorem firstEdge_singleton (edge : ForwardEdge Event Related) (event : Event)
    (related : Option Related) :
    firstEdge [edge] event related =
      if edge.predicate event related then some 0 else none := by
  simp [firstEdge]

/-- One round of the loop over a chain. -/
theorem leaveChain_succ {rounds current : Nat} {stateName : String}
    {edge : ForwardEdge Event Related} {next : NFAState Event Related}
    (state : nfa.states[current]? = some (.negation stateName [edge]))
    (after : nfa.states[edge.destState]? = some next) (event : Event)
    (related : Option Related) :
    leaveChain nfa event related (rounds + 1) current =
      if edge.predicate event related then some .negated
      else if next.getStateType = .Negation then
        leaveChain nfa event related rounds edge.destState
      else some (.left edge.destState) := by
  simp only [leaveChain, state, Option.bind_eq_bind, Option.bind_some,
    NFAState.getForwardEdges, firstEdge_singleton]
  cases edge.predicate event related with
  | true => rfl
  | false => simp [after]

/-- The loop over the chain ends at the first negated predicate that holds, or at the
normal state. -/
theorem Waits.leaveChain {id target rounds : Nat} {step : PatternStep Event Related}
    (waits : Waits nfa id step target) (chain : step.negated ≠ [])
    (enough : step.negated.length ≤ rounds) (event : Event)
    (related : Option Related) :
    leaveChain nfa event related rounds id =
      some (if (step.toStep nfa).negated event related then .negated
        else .left target) := by
  induction waits generalizing rounds with
  | normal _ => exact absurd rfl chain
  | @negation id target stateName edge positive negated state waits induction =>
      cases rounds with
      | zero => cases enough
      | succ rounds =>
          cases waits with
          | normal next =>
              rw [leaveChain_succ state next]
              cases held : edge.predicate event related <;>
                simp [held, NFAState.getStateType]
          | negation next rest =>
              have left := induction (List.cons_ne_nil _ _) (Nat.le_of_succ_le_succ enough)
              rw [leaveChain_succ state next, left]
              cases held : edge.predicate event related <;>
                simp [held, NFAState.getStateType]

theorem checkPredicate_normal {str : NFAStructure Event Related} {stateName : String}
    {edges : List (ForwardEdge Event Related)}
    (state : nfa.states[str.currentState]? = some (.normal stateName edges))
    (event : Event) :
    checkPredicate nfa event str =
      some ⟨firstEdge edges event str.relatedValues, .Normal, str⟩ := by
  simp [checkPredicate, state]

theorem checkPredicate_negation {str : NFAStructure Event Related} {stateName : String}
    {edges : List (ForwardEdge Event Related)}
    (state : nfa.states[str.currentState]? = some (.negation stateName edges))
    (event : Event) :
    checkPredicate nfa event str = checkNegation nfa event str := by
  simp [checkPredicate, state]

theorem checkNegation_negated {str : NFAStructure Event Related} {event : Event}
    (chain : leaveChain nfa event str.relatedValues nfa.states.length str.currentState =
      some .negated) :
    checkNegation nfa event str = some ⟨none, .Negation, str⟩ := by
  simp [checkNegation, chain]

theorem checkNegation_left {str : NFAStructure Event Related} {event : Event}
    {current : Nat} {stateName : String} {edges : List (ForwardEdge Event Related)}
    (chain : leaveChain nfa event str.relatedValues nfa.states.length str.currentState =
      some (.left current))
    (state : nfa.states[current]? = some (.normal stateName edges)) :
    checkNegation nfa event str =
      match firstEdge edges event str.relatedValues with
      | some index => some ⟨some index, .Normal, { str with currentState := current }⟩
      | none => some ⟨none, .Normal, str⟩ := by
  simp only [checkNegation, chain, state, Option.bind_eq_bind, Option.bind_some,
    NFAState.getStateType, NFAState.getForwardEdges, reduceCtorEq, if_false]
  cases firstEdge edges event str.relatedValues <;> rfl

/-- `checkPredicate` for a partial match that waits in front of a normal state. -/
theorem Waits.checkPredicate {target : Nat} {step : PatternStep Event Related}
    {str : NFAStructure Event Related} (waits : Waits nfa str.currentState step target)
    (event : Event) :
    checkPredicate nfa event str =
      some (
        if (step.toStep nfa).negated event str.relatedValues then ⟨none, .Negation, str⟩
        else if (step.toStep nfa).positive event str.relatedValues then
          ⟨some 0, .Normal, { str with currentState := target }⟩
        else ⟨none, .Normal, str⟩) := by
  obtain ⟨stateName, decides⟩ := waits.target_eq
  have rounds := Nat.le_of_lt waits.length_lt
  generalize current : str.currentState = id at waits
  cases waits with
  | @normal _ stateName positive state =>
      subst current
      rw [checkPredicate_normal state, firstEdge_singleton]
      cases held : positive.predicate event str.relatedValues <;>
        simp [PatternStep.toStep, held]
  | @negation _ _ stateName edge positive negated state rest =>
      have left := (Waits.negation state rest).leaveChain (List.cons_ne_nil _ _)
        rounds event str.relatedValues
      subst current
      rw [checkPredicate_negation state]
      cases ruledOut :
          (PatternStep.toStep nfa ⟨edge :: negated, positive⟩).negated event
            str.relatedValues with
      | true =>
          rw [ruledOut] at left
          exact checkNegation_negated left
      | false =>
          rw [ruledOut] at left
          rw [checkNegation_left left decides, firstEdge_singleton]
          cases held : positive.predicate event str.relatedValues <;>
            simp [PatternStep.toStep, held]

end

end CEP

end PipeFabric
