import PipeFabric.Cep.LinearPattern
import PipeFabric.Cep.EngineCalls

/-!
# Chains of negation states

In a negation state `checkPredicate` walks along the first edges until it reaches a
state of another kind.  The walk ends for every automaton whose negation states lie on
chains, so the engines return from every call on such an automaton.
-/

namespace PipeFabric

namespace CEP

open ListPairs (exists_of_mem_right mapM_eq_some_of_forall)

variable {Event Related : Type} {nfa : NFAController Event Related}

/-- From the negation state `id` the first edges lead through negation states to the
state `last` of another kind.  The chain has the edges of its states. -/
inductive Chain (nfa : NFAController Event Related) :
    Nat → List (List (ForwardEdge Event Related)) → Nat → Prop where
  | single {id : Nat} {stateName : String} {edge : ForwardEdge Event Related}
      {edges : List (ForwardEdge Event Related)} {next : NFAState Event Related} :
      nfa.states[id]? = some (.negation stateName (edge :: edges)) →
      nfa.states[edge.destState]? = some next → next.getStateType ≠ .Negation →
      Chain nfa id [edge :: edges] edge.destState
  | more {id last : Nat} {stateName : String} {edge : ForwardEdge Event Related}
      {edges : List (ForwardEdge Event Related)}
      {chain : List (List (ForwardEdge Event Related))} :
      nfa.states[id]? = some (.negation stateName (edge :: edges)) →
      Chain nfa edge.destState chain last →
      Chain nfa id ((edge :: edges) :: chain) last

/-- The event satisfies one of the negated predicates of the chain. -/
def negatedBy (chain : List (List (ForwardEdge Event Related))) (event : Event)
    (related : Option Related) : Bool :=
  chain.any fun edges => edges.any fun edge => edge.predicate event related

namespace Chain

variable {id last : Nat} {chain : List (List (ForwardEdge Event Related))}

theorem state (leads : Chain nfa id chain last) :
    ∃ stateName edge edges rest, chain = (edge :: edges) :: rest ∧
      nfa.states[id]? = some (.negation stateName (edge :: edges)) := by
  cases leads with
  | single state _ _ => exact ⟨_, _, _, _, rfl, state⟩
  | more state _ => exact ⟨_, _, _, _, rfl, state⟩

theorem last_state (leads : Chain nfa id chain last) :
    ∃ next, nfa.states[last]? = some next ∧ next.getStateType ≠ .Negation := by
  induction leads with
  | single _ next other => exact ⟨_, next, other⟩
  | more _ _ induction => exact induction

/-- There is one way on from a negation state. -/
theorem unique {other : Nat} {second : List (List (ForwardEdge Event Related))}
    (leads : Chain nfa id chain last) (also : Chain nfa id second other) :
    chain = second ∧ last = other := by
  induction leads generalizing second other with
  | single state next other =>
      cases also with
      | single again _ _ =>
          cases Option.some.inj (state.symm.trans again)
          exact ⟨rfl, rfl⟩
      | more again rest =>
          cases Option.some.inj (state.symm.trans again)
          obtain ⟨_, _, _, _, _, negation⟩ := rest.state
          cases Option.some.inj (next.symm.trans negation)
          exact absurd rfl other
  | more state leads induction =>
      cases also with
      | single again next other =>
          cases Option.some.inj (state.symm.trans again)
          obtain ⟨_, _, _, _, _, negation⟩ := leads.state
          cases Option.some.inj (next.symm.trans negation)
          exact absurd rfl other
      | more again rest =>
          cases Option.some.inj (state.symm.trans again)
          obtain ⟨rfl, rfl⟩ := induction rest
          exact ⟨rfl, rfl⟩

/-- Every shorter rest of the chain starts in a state of its own. -/
theorem exists_of_le (leads : Chain nfa id chain last) {length : Nat}
    (pos : 0 < length) (le : length ≤ chain.length) :
    ∃ start rest, Chain nfa start rest last ∧ rest.length = length := by
  induction leads with
  | single state next other =>
      obtain rfl : length = 1 := Nat.le_antisymm le pos
      exact ⟨_, _, .single state next other, rfl⟩
  | more state leads induction =>
      rcases Nat.le_succ_iff.mp le with shorter | whole
      · exact induction shorter
      · exact ⟨_, _, .more state leads, whole.symm⟩

/-- A chain does not have more states than the automaton. -/
theorem length_le (leads : Chain nfa id chain last) : chain.length ≤ nfa.states.length := by
  obtain ⟨_, edge, edges, rest, rfl, _⟩ := leads.state
  apply length_lt_of_distances fun start steps =>
    ∃ rest, Chain nfa start rest last ∧ rest.length = steps + 1
  · rintro start first second ⟨rest, left, size⟩ ⟨other, right, same⟩
    rw [(left.unique right).1, same] at size
    exact (Nat.succ.inj size).symm
  · intro steps le
    obtain ⟨start, rest, left, size⟩ :=
      leads.exists_of_le (Nat.succ_pos steps) (Nat.succ_le_succ le)
    obtain ⟨_, _, _, _, _, state⟩ := left.state
    exact ⟨start, (List.getElem?_eq_some_iff.mp state).1, rest, left, size⟩

/-- One round of the loop in a negation state. -/
theorem leaveChain_round {rounds : Nat} {stateName : String}
    {edge : ForwardEdge Event Related} {edges : List (ForwardEdge Event Related)}
    {next : NFAState Event Related}
    (state : nfa.states[id]? = some (.negation stateName (edge :: edges)))
    (after : nfa.states[edge.destState]? = some next) (event : Event)
    (related : Option Related) :
    leaveChain nfa event related (rounds + 1) id =
      if (edge :: edges).any fun edge => edge.predicate event related then some .negated
      else if next.getStateType = .Negation then
        leaveChain nfa event related rounds edge.destState
      else some (.left edge.destState) := by
  simp only [leaveChain, state, Option.bind_eq_bind, Option.bind_some,
    NFAState.getForwardEdges, firstEdge, List.findIdx?_isSome, List.getElem?_cons_zero,
    after, Option.pure_def]

/-- The loop over the chain ends at the first negated predicate that holds, or behind
the chain. -/
theorem leaveChain_eq (leads : Chain nfa id chain last) {rounds : Nat}
    (enough : chain.length ≤ rounds) (event : Event) (related : Option Related) :
    leaveChain nfa event related rounds id =
      some (if negatedBy chain event related then .negated else .left last) := by
  induction leads generalizing rounds with
  | @single id stateName edge edges next state after other =>
      cases rounds with
      | zero => cases enough
      | succ rounds =>
          have whole : negatedBy [edge :: edges] event related =
              (edge :: edges).any fun edge => edge.predicate event related :=
            Bool.or_false _
          rw [leaveChain_round state after, if_neg other, whole]
          cases (edge :: edges).any fun edge => edge.predicate event related <;> rfl
  | @more id last stateName edge edges chain state leads induction =>
      cases rounds with
      | zero => cases enough
      | succ rounds =>
          obtain ⟨_, _, _, _, _, after⟩ := leads.state
          have later := induction (Nat.le_of_succ_le_succ enough)
          have whole : negatedBy ((edge :: edges) :: chain) event related =
              ((edge :: edges).any (fun edge => edge.predicate event related) ||
                negatedBy chain event related) := rfl
          rw [leaveChain_round state after, NFAState.getStateType, if_pos rfl, later, whole]
          cases (edge :: edges).any fun edge => edge.predicate event related <;> rfl

theorem chainResult_eq {str : NFAStructure Event Related}
    (leads : Chain nfa str.currentState chain last) (event : Event) :
    chainResult nfa event str =
      some (if negatedBy chain event str.relatedValues then .negated else .left last) :=
  leads.leaveChain_eq leads.length_le event str.relatedValues

/-- In front of a final state an event that no predicate of the chain rules out takes
the first edge of the chain, so it is the last event only when there is one negation
state. -/
theorem completes_iff {str : NFAStructure Event Related}
    (leads : Chain nfa str.currentState chain last) (final : isFinal nfa last = true)
    {event : Event} (passes : negatedBy chain event str.relatedValues = false) :
    completes nfa event str = true ↔ chain.length = 1 := by
  obtain ⟨stateName, edge, edges, rest, rfl, state⟩ := leads.state
  obtain ⟨next, present, _⟩ := leads.last_state
  have reached : next.getStateType = .Final := by
    rw [isFinal_of_state present] at final
    exact of_decide_eq_true final
  have left := leads.chainResult_eq event
  rw [passes, if_neg Bool.false_ne_true] at left
  have taken : nextEdge nfa event str = some edge := by
    rw [nextEdge, state, Option.bind_some, edgeFrom, left, edgeBehindChain, present,
      Option.bind_some, if_pos reached, List.getElem?_cons_zero]
  rw [completes_of_some taken]
  cases leads with
  | single again _ _ =>
      cases Option.some.inj (state.symm.trans again)
      simp [final]
  | more again leads =>
      cases Option.some.inj (state.symm.trans again)
      obtain ⟨_, _, _, _, rfl, negation⟩ := leads.state
      simp [isFinal_of_state negation, NFAState.getStateType]

end Chain

/-! ### Engines that always return -/

/-- The states that a partial match can be in. -/
inductive Reached (nfa : NFAController Event Related) : Nat → Prop where
  | first {state : NFAState Event Related} {edge : ForwardEdge Event Related} :
      nfa.states[nfa.start]? = some state → edge ∈ state.getForwardEdges →
      Reached nfa edge.destState
  | next {id : Nat} {state : NFAState Event Related} {edge : ForwardEdge Event Related} :
      Reached nfa id → nfa.states[id]? = some state → edge ∈ state.getForwardEdges →
      Reached nfa edge.destState

/-- An automaton of start, normal, negation and final states.  All its edges lead to
states, and no chain of negation states is closed to a circle. -/
structure WellFormed (nfa : NFAController Event Related) : Prop where
  start : (nfa.states[nfa.start]?).isSome
  states : ∀ id, Reached nfa id →
    (∃ state, nfa.states[id]? = some state ∧ state.getStateType ≠ .Kleene ∧
      state.getStateType ≠ .Negation) ∨
    ∃ chain last, Chain nfa id chain last

/-- The chain in front of a normal state. -/
theorem Waits.chain {id target : Nat} {step : PatternStep Event Related}
    (waits : Waits nfa id step target) (negated : step.negated ≠ []) :
    ∃ chain, Chain nfa id chain target := by
  induction waits with
  | normal _ => exact absurd rfl negated
  | negation state waits induction =>
      cases waits with
      | normal next => exact ⟨_, .single state next (by simp [NFAState.getStateType])⟩
      | negation next rest =>
          obtain ⟨chain, leads⟩ := induction (List.cons_ne_nil _ _)
          exact ⟨_, .more state leads⟩

/-- The states of a linear automaton that can be reached lie on its way. -/
theorem Linear.path_of_reached {pattern : LinearPattern Event Related}
    (linear : Linear nfa pattern) {id : Nat} (reached : Reached nfa id) :
    ∃ steps, Path nfa id steps := by
  induction reached with
  | first state member =>
      obtain ⟨stateName, start⟩ := linear.start
      cases Option.some.inj (start.symm.trans state)
      rw [List.mem_singleton.mp member]
      exact ⟨_, linear.path⟩
  | next _ state member induction =>
      obtain ⟨steps, path⟩ := induction
      cases path with
      | final final =>
          cases Option.some.inj (final.symm.trans state)
          cases member
      | step waits rest =>
          cases waits with
          | normal normal =>
              cases Option.some.inj (normal.symm.trans state)
              rw [List.mem_singleton.mp member]
              exact ⟨_, rest⟩
          | negation negation waits =>
              cases Option.some.inj (negation.symm.trans state)
              rw [List.mem_singleton.mp member]
              exact ⟨_, .step waits rest⟩

/-- A linear automaton is well-formed. -/
theorem Linear.wellFormed {pattern : LinearPattern Event Related}
    (linear : Linear nfa pattern) : WellFormed nfa := by
  constructor
  · obtain ⟨stateName, start⟩ := linear.start
    rw [start]
    rfl
  · intro id reached
    obtain ⟨steps, path⟩ := linear.path_of_reached reached
    cases path with
    | final final => exact .inl ⟨_, final, by simp [NFAState.getStateType]⟩
    | step waits _ =>
        cases waits with
        | normal normal => exact .inl ⟨_, normal, by simp [NFAState.getStateType]⟩
        | negation negation waits =>
            obtain ⟨chain, leads⟩ := (Waits.negation negation waits).chain (List.cons_ne_nil _ _)
            exact .inr ⟨chain, _, leads⟩

section

variable {engine : CEPEngine Event Related} {str : NFAStructure Event Related}
  {event : Event}

theorem Reached.last {id last : Nat} {chain : List (List (ForwardEdge Event Related))}
    (reached : Reached nfa id) (leads : Chain nfa id chain last) : Reached nfa last := by
  induction leads with
  | single state _ _ => exact reached.next state List.mem_cons_self
  | more state _ induction => exact induction (reached.next state List.mem_cons_self)

theorem WellFormed.present (wellFormed : WellFormed nfa) {id : Nat}
    (reached : Reached nfa id) : ∃ state, nfa.states[id]? = some state := by
  rcases wellFormed.states id reached with ⟨state, present, _⟩ | ⟨chain, last, leads⟩
  · exact ⟨state, present⟩
  · obtain ⟨_, _, _, _, _, state⟩ := leads.state
    exact ⟨_, state⟩

theorem openEdge_mem {edges : List (ForwardEdge Event Related)}
    {edge : ForwardEdge Event Related} {related : Option Related}
    (found : openEdge edges event related = some edge) : edge ∈ edges :=
  List.mem_of_find?_eq_some found

/-- The edge that is taken leaves a reached state. -/
theorem Reached.of_nextEdge (wellFormed : WellFormed nfa)
    (reached : Reached nfa str.currentState) {edge : ForwardEdge Event Related}
    (next : nextEdge nfa event str = some edge) : Reached nfa edge.destState := by
  obtain ⟨state, present, found⟩ := Option.bind_eq_some_iff.mp next
  rcases wellFormed.states _ reached with ⟨other, again, kleene, negation⟩ | chained
  · cases Option.some.inj (present.symm.trans again)
    cases state with
    | normal _ edges => exact reached.next present (openEdge_mem found)
    | kleene _ _ _ _ => exact absurd rfl kleene
    | negation _ _ => exact absurd rfl negation
    | start _ _ => cases found
    | final _ => cases found
  · obtain ⟨chain, last, leads⟩ := chained
    obtain ⟨stateName, first, edges, rest, rfl, again⟩ := leads.state
    obtain ⟨behind, left, _⟩ := leads.last_state
    cases Option.some.inj (present.symm.trans again)
    rw [edgeFrom, leads.chainResult_eq event] at found
    cases negated : negatedBy ((first :: edges) :: rest) event str.relatedValues with
    | true =>
        rw [negated] at found
        cases found
    | false =>
        simp only [negated, Bool.false_eq_true, if_false, edgeBehindChain, left,
          Option.bind_some] at found
        by_cases final : behind.getStateType = .Final
        · rw [if_pos final, List.getElem?_cons_zero] at found
          cases found
          exact reached.next present List.mem_cons_self
        · rw [if_neg final] at found
          exact (reached.last leads).next left (openEdge_mem found)

theorem takeEdge_returns {state reached : NFAState Event Related} {index : Nat}
    {edge : ForwardEdge Event Related}
    (present : engine.nfa.states[str.currentState]? = some state)
    (here : state.getForwardEdges[index]? = some edge)
    (dest : engine.nfa.states[edge.destState]? = some reached) (event : Event) :
    ∃ added, engine.takeEdge event str index = some added := by
  simp [CEPEngine.takeEdge, present, here, NFAStructure.addEvent, NFAStructure.follow, dest]

/-- An edge that `firstEdge` has found leads to a reached state. -/
theorem Reached.of_firstEdge {id index : Nat} {state : NFAState Event Related}
    {related : Option Related} (reached : Reached nfa id)
    (present : nfa.states[id]? = some state)
    (found : firstEdge state.getForwardEdges event related = some index) :
    ∃ edge, state.getForwardEdges[index]? = some edge ∧ Reached nfa edge.destState := by
  have bound := (List.findIdx?_eq_some_iff_getElem.mp found).1
  exact ⟨_, List.getElem?_eq_getElem bound, reached.next present (List.getElem_mem bound)⟩

/-- `checkPredicate` returns, and what it returns can be used. -/
theorem checkPredicate_returns (wellFormed : WellFormed nfa)
    (reached : Reached nfa str.currentState) (event : Event) :
    ∃ checked, checkPredicate nfa event str = some checked ∧
      ∀ index, checked.result = some index →
        ∃ state edge, nfa.states[checked.str.currentState]? = some state ∧
          state.getForwardEdges[index]? = some edge ∧ Reached nfa edge.destState := by
  rcases wellFormed.states _ reached with ⟨state, present, kleene, negation⟩ | chained
  · cases state with
    | normal stateName edges =>
        refine ⟨_, checkPredicate_normal present event, ?_⟩
        intro index found
        obtain ⟨edge, here, dest⟩ := reached.of_firstEdge present found
        exact ⟨_, edge, present, here, dest⟩
    | kleene _ _ _ _ => exact absurd rfl kleene
    | negation _ _ => exact absurd rfl negation
    | start _ _ =>
        refine ⟨⟨none, .Normal, str⟩, ?_, by simp⟩
        simp [checkPredicate, present]
    | final _ =>
        refine ⟨⟨none, .Normal, str⟩, ?_, by simp⟩
        simp [checkPredicate, present]
  · obtain ⟨chain, last, leads⟩ := chained
    obtain ⟨stateName, first, edges, rest, rfl, present⟩ := leads.state
    obtain ⟨behind, left, _⟩ := leads.last_state
    have walked := leads.leaveChain_eq leads.length_le event str.relatedValues
    rw [checkPredicate_negation present, checkNegation, walked]
    cases negatedBy ((first :: edges) :: rest) event str.relatedValues with
    | true => exact ⟨_, rfl, by simp⟩
    | false =>
        simp only [Bool.false_eq_true, if_false, Option.bind_eq_bind, Option.bind_some, left]
        by_cases final : behind.getStateType = .Final
        · rw [if_pos final]
          refine ⟨_, rfl, ?_⟩
          intro index found
          cases found
          exact ⟨_, first, present, rfl, reached.next present List.mem_cons_self⟩
        · rw [if_neg final]
          cases found : firstEdge behind.getForwardEdges event str.relatedValues with
          | none => exact ⟨_, rfl, by simp⟩
          | some index =>
              obtain ⟨edge, here, dest⟩ := (reached.last leads).of_firstEdge left found
              refine ⟨_, rfl, ?_⟩
              intro other same
              cases same
              exact ⟨behind, edge, left, here, dest⟩

theorem engineProcess_returns (wellFormed : WellFormed engine.nfa)
    (reached : Reached engine.nfa str.currentState) (event : Event) :
    ∃ processed, NextMatchEngine.engineProcess engine event str = some processed := by
  obtain ⟨checked, answered, usable⟩ := checkPredicate_returns wellFormed reached event
  simp only [NextMatchEngine.engineProcess, answered, Option.bind_eq_bind, Option.bind_some,
    CEPEngine.checkWindowTime, Bool.not_true, Bool.and_false, Bool.false_eq_true, if_false]
  cases result : checked.result with
  | none => exact ⟨_, rfl⟩
  | some index =>
      obtain ⟨state, edge, present, here, dest⟩ := usable index result
      obtain ⟨next, after⟩ := wellFormed.present dest
      obtain ⟨added, taken⟩ := takeEdge_returns present here after event
      exact ⟨_, by simp only [taken, Option.bind_some]; rfl⟩

theorem createStartStructure_returns (wellFormed : WellFormed engine.nfa) (event : Event) :
    ∃ after, engine.createStartStructure event = some after := by
  obtain ⟨state, start⟩ := Option.isSome_iff_exists.mp wellFormed.start
  simp only [CEPEngine.createStartStructure, start, Option.bind_eq_bind, Option.bind_some]
  cases found : state.getForwardEdges.find? fun edge => edge.predicate event none with
  | none => exact ⟨_, rfl⟩
  | some edge =>
      have member := List.mem_of_find?_eq_some found
      obtain ⟨next, after⟩ := wellFormed.present (.first start member)
      have present : engine.nfa.states[
          (NFAStructure.new engine.nfa engine.sequence).currentState]? = some state := start
      simp [NFAStructure.addEvent, NFAStructure.follow, present, after]

theorem FirstMatchEngine.runEngine_returns (wellFormed : WellFormed engine.nfa)
    (reached : ∀ str ∈ engine.pool, Reached engine.nfa str.currentState) (event : Event) :
    ∃ next, FirstMatchEngine.runEngine engine event = some next := by
  cases pool : engine.pool with
  | nil =>
      obtain ⟨after, started⟩ := createStartStructure_returns wellFormed event
      exact ⟨(after, []), by simp [FirstMatchEngine.runEngine, pool, started]⟩
  | cons str others =>
      rw [pool] at reached
      obtain ⟨processed, offered⟩ :=
        engineProcess_returns wellFormed (reached str List.mem_cons_self) event
      simp [FirstMatchEngine.runEngine, pool, FirstMatchEngine.engineProcess_eq, offered]

theorem NextMatchEngine.runEngine_returns {engine : NextMatchEngine Event Related}
    (wellFormed : WellFormed engine.nfa)
    (reached : ∀ str ∈ engine.pool, Reached engine.nfa str.currentState)
    (order : IterationOrder (NFAStructure Event Related)) (event : Event) :
    ∃ next, NextMatchEngine.runEngine order engine event = some next := by
  have each : ∀ str ∈ order.arrange engine.pool, ∃ processed,
      NextMatchEngine.engineProcess engine.toCEPEngine event str = some processed := by
    intro str member
    have inside := (order.perm engine.pool).mem_iff.mp member
    exact engineProcess_returns wellFormed (reached str inside) event
  obtain ⟨processed, mapped⟩ := mapM_eq_some_of_forall each
  obtain ⟨looped, ran, same⟩ : ∃ looped,
      NextMatchEngine.processPool order engine event = some looped ∧
        looped.1.nfa = engine.nfa := by
    rw [NextMatchEngine.processPool, mapped]
    exact ⟨_, rfl, rfl⟩
  have stillWellFormed : WellFormed looped.1.toCEPEngine.nfa := by
    rw [same]
    exact wellFormed
  obtain ⟨after, started⟩ := createStartStructure_returns stillWellFormed event
  simp [NextMatchEngine.runEngine, NextMatchEngine.beforeSweep, ran, started]

end

theorem Started.reached {event : Event} {sequence : Nat}
    {fresh : List (NFAStructure Event Related)}
    (started : Started nfa event sequence fresh) :
    ∀ str ∈ fresh, Reached nfa str.currentState := by
  cases started with
  | nothing _ => exact fun _ member => absurd member List.not_mem_nil
  | created found extended =>
      obtain ⟨state, start, among⟩ := Option.bind_eq_some_iff.mp found
      intro str member
      rw [List.mem_singleton.mp member, extended.currentState]
      exact .first start (openEdge_mem among)

namespace Engine

variable {engine next : Engine Event Related}
  {input : Event × IterationOrder (NFAStructure Event Related)}

/-- The states of the partial matches in the pool are reached. -/
def InReached (nfa : NFAController Event Related) (engine : Engine Event Related) : Prop :=
  ∀ str ∈ engine.toCEPEngine.pool, Reached nfa str.currentState

/-- On a well-formed automaton every call returns. -/
theorem runEngine_returns (wellFormed : WellFormed nfa) (invariant : engine.Invariant nfa)
    (reached : engine.InReached nfa) : ∃ next, engine.runEngine input = some next := by
  have same := invariant.automaton
  subst same
  cases engine with
  | FirstMatch engine =>
      obtain ⟨next, ran⟩ := FirstMatchEngine.runEngine_returns wellFormed reached input.1
      exact ⟨(.FirstMatch next.1, next.2), Option.map_eq_some_iff.mpr ⟨next, ran, rfl⟩⟩
  | NextMatches engine =>
      obtain ⟨next, ran⟩ :=
        NextMatchEngine.runEngine_returns wellFormed reached input.2 input.1
      exact ⟨(.NextMatches next.1, next.2), Option.map_eq_some_iff.mpr ⟨next, ran, rfl⟩⟩

theorem reached_of_handled {event : Event} {str : NFAStructure Event Related}
    {processed : Processed Event Related} (wellFormed : WellFormed nfa)
    (reached : Reached nfa str.currentState) (handled : Handled nfa event str processed) :
    Reached nfa processed.str.currentState := by
  cases handled with
  | taken next extended =>
      rw [extended.currentState]
      exact reached.of_nextEdge wellFormed next
  | looped _ _ _ extended =>
      rw [extended.currentState]
      exact reached
  | excluded _ _ _ => exact reached
  | idle _ _ _ => exact reached

theorem Stepped.inReached {published : List (NFAStructure Event Related)}
    {processed : List (Processed Event Related)}
    {fresh : List (NFAStructure Event Related)} (wellFormed : WellFormed nfa)
    (reached : engine.InReached nfa)
    (stepped : engine.Stepped nfa input next published processed fresh) :
    next.InReached nfa := by
  intro str member
  rw [stepped.pool] at member
  rcases List.mem_append.mp (List.mem_filter.mp member).1 with old | new
  · obtain ⟨entry, among, rfl⟩ := List.mem_map.mp old
    obtain ⟨before, offered, handled⟩ := exists_of_mem_right stepped.handled among
    exact reached_of_handled wellFormed
      (reached before ((engine.offered_perm input.2).mem_iff.mp offered)) handled
  · have started := stepped.started
    split at started
    · exact started.reached str new
    · rw [started] at new
      cases new

/-- On a well-formed automaton a fresh engine returns from all calls of a run. -/
theorem length_calls (wellFormed : WellFormed nfa) (invariant : engine.Invariant nfa)
    (reached : engine.InReached nfa)
    (inputs : List (Event × IterationOrder (NFAStructure Event Related))) :
    (Transducer.calls runEngine engine inputs).length = inputs.length := by
  apply Transducer.length_calls fun engine => engine.Invariant nfa ∧ engine.InReached nfa
  · intro engine input holds
    obtain ⟨next, ran⟩ := runEngine_returns wellFormed holds.1 holds.2
    obtain ⟨processed, fresh, stepped⟩ := stepped_of_runEngine holds.1 ran
    exact ⟨next, ran, stepped.invariant holds.1, stepped.inReached wellFormed holds.2⟩
  · exact ⟨invariant, reached⟩

end Engine

end CEP

end PipeFabric
