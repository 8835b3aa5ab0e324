import PipeFabric.Cep.NextMatchEngine

/-!
# What an event does to a partial match

For every automaton an event does one of four things to a partial match: the match
takes a forward edge, it takes the loop of a Kleene state, it is ruled out in a chain
of negation states, or nothing happens.  Both engines are described in terms of this
step.
-/

namespace PipeFabric

namespace CEP

variable {Event Related : Type}

section

variable (nfa : NFAController Event Related)

/-- The state is a final one. -/
def isFinal (id : Nat) : Bool :=
  nfa.states[id]?.any fun state => state.getStateType = .Final

/-- The first forward edge whose predicate holds. -/
def openEdge (edges : List (ForwardEdge Event Related)) (event : Event)
    (related : Option Related) : Option (ForwardEdge Event Related) :=
  edges.find? fun edge => edge.predicate event related

/-- The forward edge from the state behind a chain of negation states.  In front of a
final state it is the first edge of the chain. -/
def edgeBehindChain (event : Event) (str : NFAStructure Event Related)
    (edges : List (ForwardEdge Event Related)) :
    Option ChainResult → Option (ForwardEdge Event Related)
  | some (.left current) =>
      nfa.states[current]?.bind fun next =>
        if next.getStateType = .Final then edges[0]?
        else openEdge next.getForwardEdges event str.relatedValues
  | some .negated => none
  | none => none

/-- The loop over the chain of negation states from the current state. -/
def chainResult (event : Event) (str : NFAStructure Event Related) :
    Option ChainResult :=
  leaveChain nfa event str.relatedValues nfa.states.length str.currentState

/-- The forward edge that a partial match in this state takes. -/
def edgeFrom (event : Event) (str : NFAStructure Event Related) :
    NFAState Event Related → Option (ForwardEdge Event Related)
  | .normal _ edges => openEdge edges event str.relatedValues
  | .kleene _ edges loop spec =>
      if forwardOK str loop spec = some true then openEdge edges event str.relatedValues
      else none
  | .negation _ edges => edgeBehindChain nfa event str edges (chainResult nfa event str)
  | .start _ _ => none
  | .final _ => none

/-- The forward edge that the event takes the partial match along. -/
def nextEdge (event : Event) (str : NFAStructure Event Related) :
    Option (ForwardEdge Event Related) :=
  nfa.states[str.currentState]?.bind (edgeFrom nfa event str)

/-- A partial match in this state may take its loop. -/
def loopsIn (event : Event) (str : NFAStructure Event Related) :
    NFAState Event Related → Bool
  | .kleene _ _ loop spec =>
      loop.predicate event str.relatedValues && loopOK str loop spec = some true
  | .normal _ _ => false
  | .negation _ _ => false
  | .start _ _ => false
  | .final _ => false

/-- The event takes the partial match along the loop of a Kleene state. -/
def takesLoop (event : Event) (str : NFAStructure Event Related) : Bool :=
  nfa.states[str.currentState]?.any fun state =>
    (edgeFrom nfa event str state).isNone && loopsIn event str state

/-- The event satisfies a negated predicate of the chain in which the partial match
waits. -/
def ruledOut (event : Event) (str : NFAStructure Event Related) : Bool :=
  nfa.states[str.currentState]?.any fun state =>
    state.getStateType = .Negation && chainResult nfa event str = some .negated

/-- The event is the last one of the match. -/
def completes (event : Event) (str : NFAStructure Event Related) : Bool :=
  (nextEdge nfa event str).any fun edge => isFinal nfa edge.destState

/-- The event is the last one of the match or rules it out. -/
def isDue (event : Event) (str : NFAStructure Event Related) : Bool :=
  completes nfa event str || ruledOut nfa event str

/-- The event has been added to the partial match along an edge with this id. -/
structure Extended (event : Event) (edgeID : Int) (destState : Nat)
    (str added : NFAStructure Event Related) : Prop where
  currentState : added.currentState = destState
  matched : added.matched = str.matched ++ [event]
  relatedValues : added.relatedValues = nfa.update str.relatedValues edgeID event
  equality : added.equality = str.equality
  complete : added.complete = (str.complete || isFinal nfa destState)

/-- The four things that an event can do to a partial match. -/
inductive Handled (event : Event) (str : NFAStructure Event Related) :
    Processed Event Related → Prop where
  | taken {edge : ForwardEdge Event Related} {added : NFAStructure Event Related} :
      nextEdge nfa event str = some edge →
      Extended nfa event edge.edgeID edge.destState str added →
      Handled event str ⟨added, if added.complete then .published else .kept⟩
  | looped {edgeID : Int} {added : NFAStructure Event Related} :
      nextEdge nfa event str = none → takesLoop nfa event str = true →
      isFinal nfa str.currentState = false →
      Extended nfa event edgeID str.currentState str added →
      Handled event str ⟨added, .kept⟩
  | excluded :
      nextEdge nfa event str = none → takesLoop nfa event str = false →
      ruledOut nfa event str = true → Handled event str ⟨str, .deleted⟩
  | idle :
      nextEdge nfa event str = none → takesLoop nfa event str = false →
      ruledOut nfa event str = false → Handled event str ⟨str, .kept⟩

end

/-! ### Adding an event along any edge -/

section

variable {nfa : NFAController Event Related}

theorem isFinal_of_state {id : Nat} {state : NFAState Event Related}
    (present : nfa.states[id]? = some state) :
    isFinal nfa id = decide (state.getStateType = .Final) := by
  simp [isFinal, present]

/-- `addEvent` along a forward edge. -/
theorem extended_of_addEvent_forward {str added : NFAStructure Event Related}
    {event : Event} {edge : ForwardEdge Event Related}
    (stepped : str.addEvent nfa event (.Forward edge) = some added) :
    Extended nfa event edge.edgeID edge.destState str added := by
  simp only [NFAStructure.addEvent, NFAStructure.follow, Option.bind_eq_bind,
    Option.bind_eq_some_iff, Option.bind_some, Edge.getID] at stepped
  obtain ⟨state, _, reached, found, equal⟩ := stepped
  have final := isFinal_of_state found
  cases last : decide (reached.getStateType = .Final) with
  | true =>
      rw [last] at final
      rw [if_pos (of_decide_eq_true last)] at equal
      cases equal
      exact ⟨rfl, by simp [NFAStructure.matched], rfl, rfl, by simp [final]⟩
  | false =>
      rw [last] at final
      rw [if_neg (of_decide_eq_false last)] at equal
      cases equal
      exact ⟨rfl, by simp [NFAStructure.matched], rfl, rfl, by simp [final]⟩

/-- `addEvent` along a loop. -/
theorem extended_of_addEvent_loop {str added : NFAStructure Event Related}
    {event : Event} {loop : LoopEdge Event Related}
    (stepped : str.addEvent nfa event (.Loop loop) = some added) :
    Extended nfa event loop.edgeID str.currentState str added := by
  simp only [NFAStructure.addEvent, NFAStructure.follow, Option.bind_eq_bind,
    Option.bind_eq_some_iff, Option.map_eq_some_iff, Edge.getID] at stepped
  obtain ⟨state, _, moved, ⟨counted, _, rfl⟩, reached, found, equal⟩ := stepped
  have final := isFinal_of_state found
  cases last : decide (reached.getStateType = .Final) with
  | true =>
      rw [last] at final
      rw [if_pos (of_decide_eq_true last)] at equal
      cases equal
      refine ⟨rfl, by simp [NFAStructure.matched], rfl, rfl, ?_⟩
      rw [show isFinal nfa str.currentState = true from final, Bool.or_true]
  | false =>
      rw [last] at final
      rw [if_neg (of_decide_eq_false last)] at equal
      cases equal
      refine ⟨rfl, by simp [NFAStructure.matched], rfl, rfl, ?_⟩
      rw [show isFinal nfa str.currentState = false from final, Bool.or_false]

/-- The edge that `firstEdge` finds. -/
theorem firstEdge_eq_some {edges : List (ForwardEdge Event Related)} {event : Event}
    {related : Option Related} {index : Nat}
    (found : firstEdge edges event related = some index) :
    edges[index]? = openEdge edges event related := by
  rw [openEdge, List.find?_eq_bind_findIdx?_getElem?]
  rw [firstEdge] at found
  rw [found, Option.bind_some]

theorem firstEdge_eq_none {edges : List (ForwardEdge Event Related)} {event : Event}
    {related : Option Related} (found : firstEdge edges event related = none) :
    openEdge edges event related = none := by
  rw [openEdge, List.find?_eq_bind_findIdx?_getElem?]
  rw [firstEdge] at found
  rw [found, Option.bind_none]

/-- What is known of an event that `checkPredicate` has found the edge for. -/
theorem taken_of_takeEdge {engine : CEPEngine Event Related}
    {str moved added : NFAStructure Event Related} {event : Event} {index current : Nat}
    {state : NFAState Event Related} {edge : Option (ForwardEdge Event Related)}
    (moves : moved = { str with currentState := current })
    (present : engine.nfa.states[current]? = some state)
    (here : state.getForwardEdges[index]? = edge)
    (taken : engine.takeEdge event moved index = some added) :
    ∃ found, edge = some found ∧
      Extended engine.nfa event found.edgeID found.destState str added := by
  subst moves
  simp only [CEPEngine.takeEdge, present, Option.bind_eq_bind, Option.bind_some,
    Option.bind_eq_some_iff] at taken
  obtain ⟨found, same, stepped⟩ := taken
  have extended := extended_of_addEvent_forward stepped
  exact ⟨found, here.symm.trans same, extended.currentState, extended.matched,
    extended.relatedValues, extended.equality, extended.complete⟩

/-- What an answer of `checkPredicate` says in terms of the automaton. -/
structure Answers (engine : CEPEngine Event Related) (event : Event)
    (str : NFAStructure Event Related) (checked : Checked Event Related) : Prop where
  forward : ∀ index added, checked.result = some index →
    engine.takeEdge event checked.str index = some added →
    ∃ edge, nextEdge engine.nfa event str = some edge ∧
      Extended engine.nfa event edge.edgeID edge.destState str added
  stays : checked.result = none →
    nextEdge engine.nfa event str = none ∧
    (checked.type = .Negation ↔ ruledOut engine.nfa event str = true) ∧
    if takesLoop engine.nfa event str then
      isFinal engine.nfa str.currentState = false ∧ checked.type ≠ .Negation ∧
      ∃ edgeID, Extended engine.nfa event edgeID str.currentState str checked.str
    else checked.str = str

end

/-! ### The answers state by state -/

section

variable {engine : CEPEngine Event Related} {event : Event}
  {str : NFAStructure Event Related} {checked : Checked Event Related}

theorem nextEdge_of_state {state : NFAState Event Related}
    (present : engine.nfa.states[str.currentState]? = some state) :
    nextEdge engine.nfa event str = edgeFrom engine.nfa event str state := by
  rw [nextEdge, present, Option.bind_some]

theorem takesLoop_of_state {state : NFAState Event Related}
    (present : engine.nfa.states[str.currentState]? = some state) :
    takesLoop engine.nfa event str =
      ((edgeFrom engine.nfa event str state).isNone && loopsIn event str state) := by
  rw [takesLoop, present, Option.any_some]

theorem ruledOut_of_state {state : NFAState Event Related}
    (present : engine.nfa.states[str.currentState]? = some state) :
    ruledOut engine.nfa event str =
      (decide (state.getStateType = .Negation) &&
        decide (chainResult engine.nfa event str = some .negated)) := by
  rw [ruledOut, present, Option.any_some]

/-- Without an edge, a loop or a chain nothing happens. -/
theorem answers_of_nothing {state : NFAState Event Related}
    (present : engine.nfa.states[str.currentState]? = some state)
    (edge : edgeFrom engine.nfa event str state = none)
    (loop : loopsIn event str state = false)
    (chain : state.getStateType ≠ .Negation) :
    Answers engine event str ⟨none, .Normal, str⟩ where
  forward := by
    intro index added found
    cases found
  stays := by
    intro _
    have held : takesLoop engine.nfa event str = _ := takesLoop_of_state present
    rw [loop, Bool.and_false] at held
    rw [nextEdge_of_state present, ruledOut_of_state present, held]
    exact ⟨edge, by simp [chain], rfl⟩

/-- An edge from the current state, or from the one behind a chain. -/
theorem answers_of_index {state left : NFAState Event Related} {index current : Nat}
    {type : StateType}
    (present : engine.nfa.states[str.currentState]? = some state)
    (behind : engine.nfa.states[current]? = some left)
    (edge : left.getForwardEdges[index]? = edgeFrom engine.nfa event str state) :
    Answers engine event str ⟨some index, type, { str with currentState := current }⟩ where
  forward := by
    intro _ added found taken
    cases found
    rw [nextEdge_of_state present]
    exact taken_of_takeEdge rfl behind edge taken
  stays := by
    intro nothing
    cases nothing

theorem answers_normal {stateName : String} {edges : List (ForwardEdge Event Related)}
    (present : engine.nfa.states[str.currentState]? = some (.normal stateName edges)) :
    Answers engine event str
      ⟨firstEdge edges event str.relatedValues, .Normal, str⟩ := by
  cases found : firstEdge edges event str.relatedValues with
  | some index => exact answers_of_index present present (firstEdge_eq_some found)
  | none =>
      exact answers_of_nothing present (firstEdge_eq_none found) rfl
        (by simp [NFAState.getStateType])

/-- In a Kleene state a forward edge comes first, then the loop. -/
theorem answers_kleene {stateName : String} {edges : List (ForwardEdge Event Related)}
    {loop : LoopEdge Event Related} {spec : KleeneSpecification}
    (present : engine.nfa.states[str.currentState]? =
      some (.kleene stateName edges loop spec))
    (answered : checkKleene engine.nfa event str edges loop spec = some checked) :
    Answers engine event str checked := by
  simp only [checkKleene, Option.bind_eq_bind, Option.bind_eq_some_iff] at answered
  obtain ⟨forward, leaves, rest⟩ := answered
  have edge : edgeFrom engine.nfa event str (.kleene stateName edges loop spec) =
      if forward then openEdge edges event str.relatedValues else none := by
    simp [edgeFrom, leaves]
  cases tried : (if forward then firstEdge edges event str.relatedValues else none) with
  | some index =>
      rw [tried] at rest
      cases rest
      apply answers_of_index present present
      cases forward with
      | true => exact (firstEdge_eq_some tried).trans edge.symm
      | false => cases tried
  | none =>
      have closed : edgeFrom engine.nfa event str (.kleene stateName edges loop spec) =
          none := by
        rw [edge]
        cases forward with
        | true => exact firstEdge_eq_none tried
        | false => rfl
      rw [tried] at rest
      cases holds : loop.predicate event str.relatedValues with
      | false =>
          simp only [holds, Bool.false_eq_true, if_false] at rest
          cases rest
          exact answers_of_nothing present closed (by simp [loopsIn, holds])
            (by simp [NFAState.getStateType])
      | true =>
          simp only [holds, if_true, Option.bind_eq_some_iff] at rest
          obtain ⟨again, may, rest⟩ := rest
          cases again with
          | false =>
              cases rest
              exact answers_of_nothing present closed (by simp [loopsIn, may])
                (by simp [NFAState.getStateType])
          | true =>
              simp only [if_true, Option.bind_eq_some_iff] at rest
              obtain ⟨added, stepped, equal⟩ := rest
              cases equal
              have taken : takesLoop engine.nfa event str = true := by
                rw [takesLoop_of_state present, closed]
                simp [loopsIn, may, holds]
              constructor
              · intro index _ found
                cases found
              · intro _
                rw [nextEdge_of_state present, ruledOut_of_state present, taken,
                  isFinal_of_state present]
                exact ⟨closed, by simp [NFAState.getStateType], rfl, by simp, _,
                  extended_of_addEvent_loop stepped⟩

/-- In a negation state the chain is left to a final state, to another one, or ends
with a negated predicate. -/
theorem answers_negation {stateName : String} {edges : List (ForwardEdge Event Related)}
    (present : engine.nfa.states[str.currentState]? = some (.negation stateName edges))
    (answered : checkNegation engine.nfa event str = some checked) :
    Answers engine event str checked := by
  simp only [checkNegation, Option.bind_eq_bind, Option.bind_eq_some_iff] at answered
  obtain ⟨result, chain, rest⟩ := answered
  have known : chainResult engine.nfa event str = some result := chain
  have quiet : takesLoop engine.nfa event str = false := by
    rw [takesLoop_of_state present, loopsIn, Bool.and_false]
  cases result with
  | negated =>
      cases rest
      constructor
      · intro index _ found
        cases found
      · intro _
        rw [nextEdge_of_state present, ruledOut_of_state present, quiet]
        exact ⟨by simp [edgeFrom, known, edgeBehindChain],
          by simp [known, NFAState.getStateType], rfl⟩
  | left current =>
      simp only [Option.bind_eq_some_iff] at rest
      obtain ⟨next, behind, rest⟩ := rest
      have edge : edgeFrom engine.nfa event str (.negation stateName edges) =
          if next.getStateType = .Final then edges[0]?
          else openEdge next.getForwardEdges event str.relatedValues := by
        simp [edgeFrom, known, edgeBehindChain, behind]
      by_cases last : next.getStateType = .Final
      · rw [if_pos last] at rest edge
        cases rest
        exact answers_of_index present present edge.symm
      · rw [if_neg last] at rest edge
        cases found : firstEdge next.getForwardEdges event str.relatedValues with
        | some index =>
            rw [found] at rest
            cases rest
            exact answers_of_index present behind ((firstEdge_eq_some found).trans edge.symm)
        | none =>
            rw [found] at rest
            cases rest
            constructor
            · intro index _ nothing
              cases nothing
            · intro _
              rw [nextEdge_of_state present, ruledOut_of_state present, quiet, edge]
              exact ⟨firstEdge_eq_none found, by simp [known], rfl⟩

/-- `checkPredicate` for every automaton. -/
theorem answers_of_checkPredicate
    (answered : checkPredicate engine.nfa event str = some checked) :
    Answers engine event str checked := by
  simp only [checkPredicate, Option.bind_eq_bind, Option.bind_eq_some_iff] at answered
  obtain ⟨state, present, rest⟩ := answered
  cases state with
  | start _ _ =>
      cases rest
      exact answers_of_nothing present rfl rfl (by simp [NFAState.getStateType])
  | final _ =>
      cases rest
      exact answers_of_nothing present rfl rfl (by simp [NFAState.getStateType])
  | normal _ _ =>
      cases rest
      exact answers_normal present
  | kleene _ _ _ _ => exact answers_kleene present rest
  | negation _ _ => exact answers_negation present rest

/-- `engineProcess` for every automaton. -/
theorem handled_of_engineProcess {processed : Processed Event Related}
    (stepped : NextMatchEngine.engineProcess engine event str = some processed) :
    Handled engine.nfa event str processed := by
  simp only [NextMatchEngine.engineProcess, Option.bind_eq_bind,
    Option.bind_eq_some_iff] at stepped
  obtain ⟨checked, answered, rest⟩ := stepped
  have answers := answers_of_checkPredicate answered
  cases result : checked.result with
  | some index =>
      simp only [result, CEPEngine.checkWindowTime, Bool.not_true, Bool.and_false,
        Bool.false_eq_true, if_false, Option.bind_eq_some_iff] at rest
      obtain ⟨added, taken, equal⟩ := rest
      cases equal
      obtain ⟨edge, next, extended⟩ := answers.forward index added result taken
      exact .taken next extended
  | none =>
      rw [result] at rest
      cases rest
      obtain ⟨nothing, negated, stays⟩ := answers.stays result
      cases loop : takesLoop engine.nfa event str with
      | true =>
          rw [loop, if_pos rfl] at stays
          obtain ⟨unfinished, kept, edgeID, extended⟩ := stays
          rw [if_neg kept]
          exact .looped nothing loop unfinished extended
      | false =>
          rw [loop, if_neg Bool.false_ne_true] at stays
          rw [stays]
          cases out : ruledOut engine.nfa event str with
          | true =>
              rw [if_pos (negated.mpr out)]
              exact .excluded nothing loop out
          | false =>
              have normal : checked.type ≠ .Negation := by
                intro same
                rw [negated.mp same] at out
                cases out
              rw [if_neg normal]
              exact .idle nothing loop out

end

/-! ### What the fate says -/

section

variable {nfa : NFAController Event Related} {event : Event}
  {str : NFAStructure Event Related} {processed : Processed Event Related}

/-- The flag says whether the partial match is in a final state. -/
def Sound (nfa : NFAController Event Related) (str : NFAStructure Event Related) : Prop :=
  str.complete = isFinal nfa str.currentState

/-- There is no way on from a final state. -/
theorem nextEdge_isFinal (final : isFinal nfa str.currentState = true) :
    nextEdge nfa event str = none := by
  rw [isFinal] at final
  rw [nextEdge]
  cases present : nfa.states[str.currentState]? with
  | none => rfl
  | some state =>
      rw [present, Option.any_some] at final
      cases state with
      | final _ => rfl
      | start _ _ => cases final
      | normal _ _ => cases final
      | kleene _ _ _ _ => cases final
      | negation _ _ => cases final

theorem incomplete_of_nextEdge {edge : ForwardEdge Event Related} (sound : Sound nfa str)
    (next : nextEdge nfa event str = some edge) : str.complete = false := by
  rw [sound]
  cases final : isFinal nfa str.currentState with
  | false => rfl
  | true => cases next.symm.trans (nextEdge_isFinal final)

theorem Extended.sound {edgeID : Int} {destState : Nat} {added : NFAStructure Event Related}
    (extended : Extended nfa event edgeID destState str added)
    (incomplete : str.complete = false) : Sound nfa added := by
  rw [Sound, extended.complete, extended.currentState, incomplete, Bool.false_or]

theorem Handled.equality (handled : Handled nfa event str processed) :
    processed.str.equality = str.equality := by
  cases handled with
  | taken _ extended => exact extended.equality
  | looped _ _ _ extended => exact extended.equality
  | excluded _ _ _ => rfl
  | idle _ _ _ => rfl

theorem Handled.sound (handled : Handled nfa event str processed) (sound : Sound nfa str) :
    Sound nfa processed.str := by
  cases handled with
  | taken next extended => exact extended.sound (incomplete_of_nextEdge sound next)
  | looped _ _ unfinished extended => exact extended.sound (sound.trans unfinished)
  | excluded _ _ _ => exact sound
  | idle _ _ _ => exact sound

theorem completes_of_none (next : nextEdge nfa event str = none) :
    completes nfa event str = false := by
  rw [completes, next, Option.any_none]

theorem completes_of_some {edge : ForwardEdge Event Related}
    (next : nextEdge nfa event str = some edge) :
    completes nfa event str = isFinal nfa edge.destState := by
  rw [completes, next, Option.any_some]

/-- A partial match is published when the event is its last one. -/
theorem Handled.published_iff (handled : Handled nfa event str processed)
    (sound : Sound nfa str) :
    processed.fate = .published ↔ completes nfa event str = true := by
  cases handled with
  | taken next extended =>
      rw [completes_of_some next, extended.complete, incomplete_of_nextEdge sound next,
        Bool.false_or]
      cases isFinal nfa _ <;> simp
  | looped next _ _ _ => simp [completes_of_none next]
  | excluded next _ _ => simp [completes_of_none next]
  | idle next _ _ => simp [completes_of_none next]

/-- A partial match in a chain whose negated predicates rule it out has no edge. -/
theorem nextEdge_ruledOut (out : ruledOut nfa event str = true) :
    nextEdge nfa event str = none := by
  rw [ruledOut] at out
  rw [nextEdge]
  cases present : nfa.states[str.currentState]? with
  | none => rfl
  | some state =>
      rw [present, Option.any_some, Bool.and_eq_true] at out
      obtain ⟨negation, chain⟩ := out
      cases state with
      | negation _ edges =>
          rw [Option.bind_some, edgeFrom, of_decide_eq_true chain, edgeBehindChain]
      | start _ _ => cases negation
      | normal _ _ => cases negation
      | kleene _ _ _ _ => cases negation
      | final _ => cases negation

theorem takesLoop_ruledOut (out : ruledOut nfa event str = true) :
    takesLoop nfa event str = false := by
  rw [ruledOut] at out
  rw [takesLoop]
  cases present : nfa.states[str.currentState]? with
  | none => rfl
  | some state =>
      rw [present, Option.any_some, Bool.and_eq_true] at out
      cases state with
      | negation _ _ => rw [Option.any_some, loopsIn, Bool.and_false]
      | start _ _ => cases out.1
      | normal _ _ => cases out.1
      | kleene _ _ _ _ => cases out.1
      | final _ => cases out.1

theorem Handled.deleted_iff (handled : Handled nfa event str processed) :
    processed.fate = .deleted ↔ ruledOut nfa event str = true := by
  cases handled with
  | @taken edge added next _ =>
      have other : ruledOut nfa event str = false := by
        cases out : ruledOut nfa event str with
        | false => rfl
        | true => cases next.symm.trans (nextEdge_ruledOut out)
      cases added.complete <;> simp [other]
  | looped _ loop _ _ =>
      have other : ruledOut nfa event str = false := by
        cases out : ruledOut nfa event str with
        | false => rfl
        | true => cases loop.symm.trans (takesLoop_ruledOut out)
      simp [other]
  | excluded _ _ out => simp [out]
  | idle _ _ out => simp [out]

/-- A partial match is in a final state when it was or when the event is its last. -/
theorem Handled.isFinal_eq (handled : Handled nfa event str processed) :
    isFinal nfa processed.str.currentState =
      (completes nfa event str || isFinal nfa str.currentState) := by
  cases handled with
  | taken next extended =>
      have before : isFinal nfa str.currentState = false := by
        cases final : isFinal nfa str.currentState with
        | false => rfl
        | true => cases next.symm.trans (nextEdge_isFinal final)
      rw [extended.currentState, completes_of_some next, before, Bool.or_false]
  | looped next _ _ extended =>
      rw [extended.currentState, completes_of_none next, Bool.false_or]
  | excluded next _ _ => rw [completes_of_none next, Bool.false_or]
  | idle next _ _ => rw [completes_of_none next, Bool.false_or]

end

end CEP

end PipeFabric
