import PipeFabric.Cep.KleeneCounting
import PipeFabric.Cep.WindowConstraint

/-!
# How many events a Kleene state binds

The specification of a Kleene state says how many events a match binds to it.  It is
compared with the number of calls in which the structure has taken the loop, and with
the events that a structure in the Kleene state accepts on the way to the next state.
-/

namespace PipeFabric

namespace CEP

variable {Event Related : Type}

/-- The state `id` is a Kleene state between normal states. -/
structure BetweenNormals (nfa : NFAController Event Related) (id : Nat)
    (edges : List (ForwardEdge Event Related)) (loop : LoopEdge Event Related)
    (spec : KleeneSpecification) : Prop where
  state : ∃ stateName, nfa.states[id]? = some (.kleene stateName edges loop spec)
  notStart : nfa.start ≠ id
  before : ∀ (other : Nat) (state : NFAState Event Related),
    nfa.states[other]? = some state → ∀ edge ∈ state.getForwardEdges,
    edge.destState = id → state.getStateType = .Normal
  behind : ∀ edge ∈ edges, ∃ state, nfa.states[edge.destState]? = some state ∧
    state.getStateType = .Normal

/-- The number of events that the specification allows. -/
def Obeys (loop : LoopEdge Event Related) (count : Nat) : KleeneSpecification → Prop
  | .Star => True
  | .Plus => 1 ≤ count
  | .Question => count ≤ 1
  | .Restricted => (count : Int) = loop.numOfLoop.toInt

section

variable (nfa : NFAController Event Related) (id value : Nat)

/-- In this call the structure takes the loop of the Kleene state. -/
def loops (call : EngineCall Event Related) : Bool :=
  call.before.toCEPEngine.pool.any fun waiting =>
    decide (waiting.equality = value) && decide (waiting.currentState = id) &&
      takesLoop nfa call.input.1 waiting

/-- The number of events that the structure binds to the Kleene state. -/
def bound (calls : List (EngineCall Event Related)) : Nat :=
  calls.countP (loops nfa id value)

/-- The structure has been in the Kleene state. -/
def Visited (calls : List (EngineCall Event Related)) : Prop :=
  ∃ past ∈ calls, ∃ waiting ∈ past.before.toCEPEngine.pool,
    waiting.equality = value ∧ waiting.currentState = id

end

/-- The matches published by the call that have been in the Kleene state obey its
specification. -/
def PublishesObeying (nfa : NFAController Event Related) (id : Nat)
    (loop : LoopEdge Event Related) (spec : KleeneSpecification)
    (earlier : List (EngineCall Event Related)) (call : EngineCall Event Related) : Prop :=
  ∀ str ∈ call.emitted, Visited id str.equality (earlier ++ [call]) →
    Obeys loop (bound nfa id str.equality (earlier ++ [call])) spec

/-- In a Kleene state that allows one event, a structure that has taken the loop is not
offered another event that satisfies the loop and no forward edge; and a limit is not
negative. -/
structure LoopsOnce (id : Nat) (edges : List (ForwardEdge Event Related))
    (loop : LoopEdge Event Related) (spec : KleeneSpecification)
    (engine : Engine Event Related)
    (input : Event × IterationOrder (NFAStructure Event Related)) : Prop where
  question : spec = .Question → ∀ str ∈ engine.toCEPEngine.pool, str.currentState = id →
    str.getCurrentKleene ≠ some 0 → loop.predicate input.1 str.relatedValues = true →
    openEdge edges input.1 str.relatedValues ≠ none
  limit : spec = .Restricted → 0 ≤ loop.numOfLoop.toInt

/-- The structure behind some events that are offered to it one after the other. -/
def processAll (engine : CEPEngine Event Related) :
    NFAStructure Event Related → List Event → Option (NFAStructure Event Related)
  | str, [] => some str
  | str, event :: events =>
      (NextMatchEngine.engineProcess engine event str).bind fun entry =>
        processAll engine entry.str events

/-- Each of the events satisfies the loop and no forward edge once those before it are
bound; the related values before and after them. -/
inductive LoopRun (nfa : NFAController Event Related)
    (edges : List (ForwardEdge Event Related)) (loop : LoopEdge Event Related) :
    Option Related → List Event → Option Related → Prop where
  | nil (related : Option Related) : LoopRun nfa edges loop related [] related
  | cons {event : Event} {events : List Event} {related final : Option Related} :
      openEdge edges event related = none →
      loop.predicate event related = true →
      LoopRun nfa edges loop (nfa.update related loop.edgeID event) events final →
      LoopRun nfa edges loop related (event :: events) final

/-- The structure binds all the events and the last one, which takes it along the
edge. -/
def AcceptsRun (engine : CEPEngine Event Related) (str : NFAStructure Event Related)
    (edge : ForwardEdge Event Related) (run : List Event) (last : Event) : Prop :=
  ∃ added, processAll engine str (run ++ [last]) = some added ∧
    added.matched = str.matched ++ (run ++ [last]) ∧ added.currentState = edge.destState

/-! ## The counter -/

/-- The number of events bound so far. -/
def Within (loop : LoopEdge Event Related) (count : Nat) : KleeneSpecification → Prop
  | .Star => True
  | .Plus => count ≤ 1
  | .Question => count ≤ 1
  | .Restricted => (count : Int) ≤ loop.numOfLoop.toInt

theorem toInt_counter {limit : Int16} {count : Nat} (small : (count : Int) ≤ limit.toInt) :
    (Int16.ofNat count).toInt = count := by
  apply Int16.toInt_ofNat_of_lt
  have := limit.toInt_lt
  omega

section

variable {loop : LoopEdge Event Related} {spec : KleeneSpecification}
  {str : NFAStructure Event Related} {count : Nat}

/-- A structure leaves the Kleene state when enough events are bound. -/
theorem obeys_of_forwardOK (within : Within loop count spec)
    (counter : str.getCurrentKleene = some (Int16.ofNat count))
    (leaves : forwardOK str loop spec = some true) : Obeys loop count spec := by
  cases spec with
  | Star => trivial
  | Question => exact within
  | Plus =>
      simp only [forwardOK, counter, Option.map_some, Option.some.injEq, beq_iff_eq] at leaves
      have positive : count ≠ 0 := by
        rintro rfl
        revert leaves
        decide
      exact Nat.pos_of_ne_zero positive
  | Restricted =>
      simp only [forwardOK, counter, Option.map_some, Option.some.injEq,
        decide_eq_true_eq] at leaves
      have small : (count : Int) ≤ loop.numOfLoop.toInt := within
      rw [Int16.le_iff_toInt_le, toInt_counter small] at leaves
      exact Int.le_antisymm small leaves

/-- One more event is within the bound. -/
theorem within_of_loopOK (within : Within loop count spec)
    (counter : str.getCurrentKleene = some (Int16.ofNat count))
    (may : loopOK str loop spec = some true) (once : spec = .Question → count = 0) :
    Within loop (count + 1) spec := by
  cases spec with
  | Star => trivial
  | Question =>
      rw [once rfl]
      exact Nat.le_refl 1
  | Plus =>
      simp only [loopOK, counter, Option.map_some, Option.some.injEq, beq_iff_eq] at may
      have small : count ≤ 1 := within
      have zero : count ≠ 1 := by
        rintro rfl
        revert may
        decide
      exact Nat.succ_le_succ (Nat.le_of_lt_succ (Nat.lt_of_le_of_ne small zero))
  | Restricted =>
      simp only [loopOK, counter, Option.map_some, Option.some.injEq,
        decide_eq_true_eq] at may
      have small : (count : Int) ≤ loop.numOfLoop.toInt := within
      rw [Int16.lt_iff_toInt_lt, toInt_counter small] at may
      exact_mod_cast may

theorem ofNat_succ (count : Nat) : Int16.ofNat count + 1 = Int16.ofNat (count + 1) := by
  rw [Int16.ofNat_add]
  rfl

end

/-- The counter of a new structure. -/
theorem lookup_getKleeneStates {nfa : NFAController Event Related} {id : Nat}
    {stateName : String} {edges : List (ForwardEdge Event Related)}
    {loop : LoopEdge Event Related} {spec : KleeneSpecification}
    (state : nfa.states[id]? = some (.kleene stateName edges loop spec)) :
    (nfa.getKleeneStates.map fun id => (id, (0 : Int16))).lookup id = some 0 := by
  have inside : id ∈ nfa.getKleeneStates := by
    rw [NFAController.getKleeneStates, List.mem_filter, List.mem_range]
    refine ⟨(List.getElem?_eq_some_iff.mp state).1, ?_⟩
    rw [state]
    rfl
  revert inside
  induction nfa.getKleeneStates with
  | nil => exact fun inside => absurd inside List.not_mem_nil
  | cons first others induction =>
      intro inside
      rw [List.map_cons, List.lookup_cons]
      by_cases same : id = first
      · rw [same, beq_self_eq_true]
      · rw [beq_eq_false_iff_ne.mpr same]
        exact induction ((List.mem_cons.mp inside).resolve_left same)

/-! ## Along a run -/

/-- What is known of a structure after some calls. -/
structure Tracked (nfa : NFAController Event Related) (id : Nat)
    (loop : LoopEdge Event Related) (spec : KleeneSpecification)
    (earlier : List (EngineCall Event Related)) (str : NFAStructure Event Related) :
    Prop where
  counter : str.kleeneState.lookup id =
    some (Int16.ofNat (bound nfa id str.equality earlier))
  within : Within loop (bound nfa id str.equality earlier) spec
  left : str.currentState ≠ id → Visited id str.equality earlier →
    Obeys loop (bound nfa id str.equality earlier) spec

/-- What holds after some calls that meet the condition. -/
structure Counted (nfa : NFAController Event Related) (id : Nat)
    (loop : LoopEdge Event Related) (spec : KleeneSpecification)
    (earlier : List (EngineCall Event Related)) (engine : Engine Event Related) :
    Prop where
  invariant : engine.Invariant nfa
  tracked : ∀ str ∈ engine.toCEPEngine.pool, Tracked nfa id loop spec earlier str
  unused : ∀ value, engine.toCEPEngine.sequence ≤ value →
    bound nfa id value earlier = 0 ∧ ¬ Visited id value earlier

section

variable {nfa : NFAController Event Related} {id value : Nat}
  {edges : List (ForwardEdge Event Related)} {loop : LoopEdge Event Related}
  {spec : KleeneSpecification} {earlier : List (EngineCall Event Related)}
  {call : EngineCall Event Related}

theorem bound_concat : bound nfa id value (earlier ++ [call]) =
    bound nfa id value earlier + if loops nfa id value call then 1 else 0 := by
  unfold bound
  rw [List.countP_append, List.countP_singleton]

theorem visited_concat : Visited id value (earlier ++ [call]) ↔
    Visited id value earlier ∨ ∃ waiting ∈ call.before.toCEPEngine.pool,
      waiting.equality = value ∧ waiting.currentState = id := by
  unfold Visited
  simp only [List.mem_append, List.mem_singleton, or_and_right, exists_or, exists_eq_left]

/-- The structure with a value is the only one that tells about it. -/
theorem loops_eq (invariant : call.before.Invariant nfa)
    {waiting : NFAStructure Event Related}
    (member : waiting ∈ call.before.toCEPEngine.pool) :
    loops nfa id waiting.equality call =
      (decide (waiting.currentState = id) && takesLoop nfa call.input.1 waiting) := by
  rw [Bool.eq_iff_iff, loops, List.any_eq_true]
  simp only [Bool.and_eq_true, decide_eq_true_eq]
  constructor
  · intro some
    obtain ⟨other, inside, ⟨same, here⟩, taken⟩ := some
    obtain rfl := invariant.eq_of_equality inside member same
    exact ⟨here, taken⟩
  · intro both
    exact ⟨waiting, member, ⟨rfl, both.1⟩, both.2⟩

theorem visited_iff (invariant : call.before.Invariant nfa)
    {waiting : NFAStructure Event Related}
    (member : waiting ∈ call.before.toCEPEngine.pool) :
    Visited id waiting.equality (earlier ++ [call]) ↔
      Visited id waiting.equality earlier ∨ waiting.currentState = id := by
  rw [visited_concat]
  apply or_congr_right
  constructor
  · intro some
    obtain ⟨other, inside, same, here⟩ := some
    obtain rfl := invariant.eq_of_equality inside member same
    exact here
  · intro here
    exact ⟨waiting, member, rfl, here⟩

/-- A value that is not used yet. -/
theorem unused_concat (unused : bound nfa id value earlier = 0 ∧ ¬ Visited id value earlier)
    (none : ∀ waiting ∈ call.before.toCEPEngine.pool, waiting.equality ≠ value) :
    bound nfa id value (earlier ++ [call]) = 0 ∧
      ¬ Visited id value (earlier ++ [call]) := by
  have quiet : loops nfa id value call = false := by
    rw [loops, List.any_eq_false]
    intro waiting member
    simp [none waiting member]
  rw [bound_concat, quiet, unused.1, visited_concat]
  refine ⟨rfl, not_or.mpr ⟨unused.2, ?_⟩⟩
  intro some
  obtain ⟨waiting, member, same, _⟩ := some
  exact none waiting member same

/-- The state behind an event. -/
theorem Handled.currentState_eq {event : Event} {str : NFAStructure Event Related}
    {entry : Processed Event Related} (handled : Handled nfa event str entry)
    (stays : nextEdge nfa event str = none) :
    entry.str.currentState = str.currentState := by
  cases handled with
  | taken next _ => rw [stays] at next; cases next
  | looped _ _ _ extended => exact extended.currentState
  | excluded _ _ _ => rfl
  | idle _ _ _ => rfl

/-- In the Kleene state a forward edge is taken only if it may be left. -/
theorem forwardOK_of_nextEdge {stateName : String} {event : Event}
    {str : NFAStructure Event Related}
    (here : nfa.states[str.currentState]? = some (.kleene stateName edges loop spec))
    (leaves : nextEdge nfa event str ≠ none) : forwardOK str loop spec = some true := by
  rw [nextEdge, here, Option.bind_some, edgeFrom] at leaves
  by_contra closed
  rw [if_neg closed] at leaves
  exact leaves rfl

theorem takesLoop_kleene {stateName : String} {event : Event}
    {str : NFAStructure Event Related}
    (here : nfa.states[str.currentState]? = some (.kleene stateName edges loop spec)) :
    takesLoop nfa event str = true ↔
      (forwardOK str loop spec = some true →
        openEdge edges event str.relatedValues = none) ∧
      loop.predicate event str.relatedValues = true ∧
      loopOK str loop spec = some true := by
  rw [takesLoop, here, Option.any_some, Bool.and_eq_true, edgeFrom, loopsIn,
    Bool.and_eq_true, Option.isNone_iff_eq_none, decide_eq_true_iff]
  apply and_congr_left'
  split
  · next leaves => simp [leaves]
  · next stays => simp [stays]

/-- A structure of the pool is still tracked behind the call. -/
theorem Tracked.processed (call : EngineCall Event Related)
    {waiting : NFAStructure Event Related}
    {entry : Processed Event Related} {stateName : String}
    (state : nfa.states[id]? = some (.kleene stateName edges loop spec))
    (invariant : call.before.Invariant nfa)
    (member : waiting ∈ call.before.toCEPEngine.pool)
    (tracked : Tracked nfa id loop spec earlier waiting)
    (once : LoopsOnce id edges loop spec call.before call.input)
    (stepped : NextMatchEngine.engineProcess call.before.toCEPEngine call.input.1 waiting =
      some entry) :
    Tracked nfa id loop spec (earlier ++ [call]) entry.str := by
  have same := invariant.automaton
  have counts := counts_engineProcess stepped
  have handled := handled_of_engineProcess stepped
  rw [same] at counts handled
  have number : bound nfa id waiting.equality (earlier ++ [call]) =
      bound nfa id waiting.equality earlier +
        if loops nfa id waiting.equality call then 1 else 0 := bound_concat
  rw [loops_eq invariant member] at number
  by_cases here : waiting.currentState = id
  · have present : nfa.states[waiting.currentState]? =
        some (.kleene stateName edges loop spec) := by rw [here]; exact state
    have counter : waiting.getCurrentKleene =
        some (Int16.ofNat (bound nfa id waiting.equality earlier)) := by
      rw [NFAStructure.getCurrentKleene, here]
      exact tracked.counter
    cases taken : takesLoop nfa call.input.1 waiting with
    | true =>
        obtain ⟨closed, holds, may⟩ := (takesLoop_kleene present).mp taken
        rw [Counts, taken, if_pos rfl] at counts
        rw [decide_eq_true here, taken, Bool.and_self, if_pos rfl] at number
        have single : spec = .Question → bound nfa id waiting.equality earlier = 0 := by
          intro question
          by_contra positive
          subst question
          have one : bound nfa id waiting.equality earlier = 1 :=
            Nat.le_antisymm tracked.within (Nat.one_le_iff_ne_zero.mpr positive)
          apply once.question rfl waiting member here _ holds (closed rfl)
          rw [counter, one]
          decide
        have stays : nextEdge nfa call.input.1 waiting = none := by
          cases next : nextEdge nfa call.input.1 waiting with
          | none => rfl
          | some edge =>
              have leaves := forwardOK_of_nextEdge present (by rw [next]; simp)
              rw [nextEdge, present, Option.bind_some, edgeFrom, if_pos leaves,
                closed leaves] at next
              cases next
        have place : entry.str.currentState = id :=
          (handled.currentState_eq stays).trans here
        constructor
        · rw [lookup_countLoop counts, tracked.counter, Option.map_some, here, if_pos rfl,
            handled.equality, number, ofNat_succ]
        · rw [handled.equality, number]
          exact within_of_loopOK tracked.within counter may single
        · exact fun elsewhere => absurd place elsewhere
    | false =>
        rw [Counts, taken, if_neg Bool.false_ne_true] at counts
        rw [taken, Bool.and_false, if_neg Bool.false_ne_true, Nat.add_zero] at number
        constructor
        · rw [counts, handled.equality, number]
          exact tracked.counter
        · rw [handled.equality, number]
          exact tracked.within
        · intro elsewhere _
          rw [handled.equality, number]
          have leaves : nextEdge nfa call.input.1 waiting ≠ none := fun stays =>
            elsewhere ((handled.currentState_eq stays).trans here)
          exact obeys_of_forwardOK tracked.within counter
            (forwardOK_of_nextEdge present leaves)
  · rw [decide_eq_false here, Bool.false_and, if_neg Bool.false_ne_true,
      Nat.add_zero] at number
    constructor
    · rw [handled.equality, number, ← tracked.counter]
      unfold Counts at counts
      split at counts
      · rw [lookup_countLoop counts]
        simp [Ne.symm here]
      · rw [counts]
    · rw [handled.equality, number]
      exact tracked.within
    · rw [handled.equality, number, visited_iff invariant member]
      intro _ visited
      exact tracked.left here (visited.resolve_right here)

/-- The condition is enough for the call. -/
theorem Counted.step {engine next : Engine Event Related} {stateName : String}
    {input : Event × IterationOrder (NFAStructure Event Related)}
    {published : List (NFAStructure Event Related)}
    (state : nfa.states[id]? = some (.kleene stateName edges loop spec))
    (counted : Counted nfa id loop spec earlier engine)
    (ran : engine.runEngine input = some (next, published))
    (once : LoopsOnce id edges loop spec engine input) :
    PublishesObeying nfa id loop spec earlier ⟨engine, input, next, published⟩ ∧
      Counted nfa id loop spec (earlier ++ [⟨engine, input, next, published⟩]) next := by
  have origins := Engine.origins_of_runEngine counted.invariant ran
  obtain ⟨processed, fresh, stepped⟩ := Engine.stepped_of_runEngine counted.invariant ran
  have automaton := counted.invariant.automaton
  constructor
  · intro str emitted visited
    obtain ⟨waiting, member, entry, handled, fate, rfl⟩ := origins.published str emitted
    have tracked := (counted.tracked waiting member).processed
      ⟨engine, input, next, published⟩ state counted.invariant member once handled
    have final : isFinal nfa entry.str.currentState = true := by
      have result := handled_of_engineProcess handled
      rw [automaton] at result
      have last := (result.published_iff (counted.invariant.sound waiting member)).mp fate
      rw [result.isFinal_eq, last, Bool.true_or]
    apply tracked.left _ visited
    intro here
    rw [here, isFinal, state] at final
    cases final
  · have unused : ∀ value, engine.toCEPEngine.sequence ≤ value →
        bound nfa id value (earlier ++ [⟨engine, input, next, published⟩]) = 0 ∧
          ¬ Visited id value (earlier ++ [⟨engine, input, next, published⟩]) := by
      intro value above
      apply unused_concat (counted.unused value above)
      intro waiting member same
      have below := counted.invariant.pool waiting member
      omega
    constructor
    · exact stepped.invariant counted.invariant
    · intro str member
      rcases origins.pool str member with ⟨waiting, pool, entry, handled, rfl⟩ | new
      · exact (counted.tracked waiting pool).processed
          ⟨engine, input, next, published⟩ state counted.invariant pool once handled
      · obtain ⟨zero, never⟩ := unused str.equality (Nat.le_of_eq new.1.symm)
        constructor
        · rw [zero, new.2, automaton]
          exact lookup_getKleeneStates state
        · rw [zero]
          cases spec with
          | Star => trivial
          | Plus => exact Nat.zero_le 1
          | Question => exact Nat.zero_le 1
          | Restricted => exact once.limit rfl
        · exact fun _ visited => absurd visited never
    · intro value above
      apply unused value
      rw [stepped.sequence] at above
      omega

end

/-! ## The events that are accepted -/

/-- What `loopOK` and `forwardOK` say of a counter. -/
def mayLoop (loop : LoopEdge Event Related) (count : Int16) : KleeneSpecification → Bool
  | .Star => true
  | .Question => true
  | .Plus => count == 0
  | .Restricted => count < loop.numOfLoop

def mayLeave (loop : LoopEdge Event Related) (count : Int16) : KleeneSpecification → Bool
  | .Star => true
  | .Question => true
  | .Plus => count == 1
  | .Restricted => loop.numOfLoop ≤ count

section

variable {engine : CEPEngine Event Related} {stateName : String}
  {edges : List (ForwardEdge Event Related)} {loop : LoopEdge Event Related}
  {spec : KleeneSpecification} {str : NFAStructure Event Related} {event : Event}
  {count : Int16}

theorem loopOK_eq (counter : str.getCurrentKleene = some count) :
    loopOK str loop spec = some (mayLoop loop count spec) := by
  cases spec with
  | Star => rfl
  | Question => rfl
  | Plus => simp [loopOK, mayLoop, counter]
  | Restricted => simp [loopOK, mayLoop, counter]

theorem forwardOK_eq (counter : str.getCurrentKleene = some count) :
    forwardOK str loop spec = some (mayLeave loop count spec) := by
  cases spec with
  | Star => rfl
  | Question => rfl
  | Plus => simp [forwardOK, mayLeave, counter]
  | Restricted => simp [forwardOK, mayLeave, counter]

theorem firstEdge_none {related : Option Related}
    (closed : openEdge edges event related = none) :
    firstEdge edges event related = none := by
  rw [firstEdge, List.findIdx?_eq_none_iff]
  rw [openEdge, List.find?_eq_none] at closed
  intro edge member
  exact Bool.not_eq_true _ ▸ closed edge member

theorem checkPredicate_kleene (event : Event)
    (present : engine.nfa.states[str.currentState]? =
      some (.kleene stateName edges loop spec)) :
    checkPredicate engine.nfa event str =
      checkKleene engine.nfa event str edges loop spec := by
  simp only [checkPredicate, present, Option.bind_eq_bind, Option.bind_some]

/-- An event that satisfies the loop and no forward edge. -/
theorem engineProcess_loop
    (present : engine.nfa.states[str.currentState]? =
      some (.kleene stateName edges loop spec))
    (counter : str.getCurrentKleene = some count)
    (closed : openEdge edges event str.relatedValues = none)
    (holds : loop.predicate event str.relatedValues = true)
    (may : mayLoop loop count spec = true) :
    ∃ added, NextMatchEngine.engineProcess engine event str = some ⟨added, .kept⟩ ∧
      Extended engine.nfa event loop.edgeID str.currentState str added ∧
      added.getCurrentKleene = some (count + 1) := by
  obtain ⟨counted, counts⟩ := countLoop_isSome counter
  have returns : ∃ added, str.addEvent engine.nfa event (.Loop loop) = some added := by
    simp [NFAStructure.addEvent, NFAStructure.follow, present, counts]
  obtain ⟨added, stepped⟩ := returns
  have extended := extended_of_addEvent_loop stepped
  refine ⟨added, ?_, extended, ?_⟩
  · simp [NextMatchEngine.engineProcess, checkPredicate_kleene event present, checkKleene,
      forwardOK_eq counter, loopOK_eq counter, firstEdge_none closed, holds, may, stepped]
  · have count := lookup_countLoop (kleeneState_loop stepped) str.currentState
    rw [NFAStructure.getCurrentKleene, extended.currentState, count,
      show str.kleeneState.lookup str.currentState = _ from counter, Option.map_some,
      if_pos rfl]

/-- Such an event when the loop may not be taken. -/
theorem engineProcess_idle
    (present : engine.nfa.states[str.currentState]? =
      some (.kleene stateName edges loop spec))
    (counter : str.getCurrentKleene = some count)
    (closed : openEdge edges event str.relatedValues = none)
    (mayNot : mayLoop loop count spec = false) :
    NextMatchEngine.engineProcess engine event str = some ⟨str, .kept⟩ := by
  cases holds : loop.predicate event str.relatedValues with
  | true =>
      simp [NextMatchEngine.engineProcess, checkPredicate_kleene event present, checkKleene,
        forwardOK_eq counter, loopOK_eq counter, firstEdge_none closed, holds, mayNot]
  | false =>
      simp [NextMatchEngine.engineProcess, checkPredicate_kleene event present, checkKleene,
        forwardOK_eq counter, firstEdge_none closed, holds]

/-- An event that satisfies a forward edge. -/
theorem engineProcess_forward {edge : ForwardEdge Event Related}
    {reached : NFAState Event Related}
    (present : engine.nfa.states[str.currentState]? =
      some (.kleene stateName edges loop spec))
    (counter : str.getCurrentKleene = some count)
    (opened : openEdge edges event str.relatedValues = some edge)
    (dest : engine.nfa.states[edge.destState]? = some reached)
    (may : mayLeave loop count spec = true) :
    ∃ entry, NextMatchEngine.engineProcess engine event str = some entry ∧
      Extended engine.nfa event edge.edgeID edge.destState str entry.str := by
  cases found : firstEdge edges event str.relatedValues with
  | none =>
      rw [firstEdge_eq_none found] at opened
      cases opened
  | some index =>
      have here : (NFAState.kleene stateName edges loop spec).getForwardEdges[index]? =
          some edge := (firstEdge_eq_some found).trans opened
      obtain ⟨added, taken⟩ := takeEdge_returns present here dest event
      have answer : checkPredicate engine.nfa event str =
          some ⟨some index, .Normal, str⟩ := by
        simp [checkPredicate_kleene event present, checkKleene, forwardOK_eq counter, may,
          found]
      refine ⟨⟨added, if added.complete then .published else .kept⟩, ?_, ?_⟩
      · simp [NextMatchEngine.engineProcess, answer, taken, CEPEngine.checkWindowTime]
      · obtain ⟨other, same, extended⟩ := taken_of_takeEdge rfl present here taken
        cases same
        exact extended

/-- No event is bound twice. -/
theorem length_processAll (events : List Event) :
    ∀ (str added : NFAStructure Event Related), processAll engine str events = some added →
      added.matched.length ≤ str.matched.length + events.length := by
  induction events with
  | nil =>
      intro str added processed
      cases processed
      exact Nat.le_refl _
  | cons event events induction =>
      intro str added processed
      obtain ⟨entry, handled, rest⟩ := Option.bind_eq_some_iff.mp processed
      have later := induction entry.str added rest
      have first := (handled_of_engineProcess handled).matched_eq
      have size : entry.str.matched.length ≤ str.matched.length + 1 := by
        rw [first]
        split
        · rw [List.length_append, List.length_singleton]
        · exact Nat.le_succ _
      rw [List.length_cons]
      omega

end

/-- A run is accepted if the counter lets every event of it take the loop and the
structure leave behind it. -/
theorem accepts_of_counter {engine : CEPEngine Event Related} {stateName : String}
    {id : Nat} {edges : List (ForwardEdge Event Related)} {loop : LoopEdge Event Related}
    {spec : KleeneSpecification} {edge : ForwardEdge Event Related}
    {reached : NFAState Event Related} {last : Event} {related final : Option Related}
    {run : List Event}
    (present : engine.nfa.states[id]? = some (.kleene stateName edges loop spec))
    (dest : engine.nfa.states[edge.destState]? = some reached)
    (loopRun : LoopRun engine.nfa edges loop related run final)
    (opened : openEdge edges last final = some edge) :
    ∀ (str : NFAStructure Event Related) (count : Int16), str.currentState = id →
      str.relatedValues = related → str.getCurrentKleene = some count →
      (∀ index < run.length, mayLoop loop (count + Int16.ofNat index) spec = true) →
      mayLeave loop (count + Int16.ofNat run.length) spec = true →
      AcceptsRun engine str edge run last := by
  induction loopRun with
  | nil related =>
      intro str count here values counter _ may
      rw [← here] at present
      rw [← values] at opened
      have zero : count + Int16.ofNat ([] : List Event).length = count :=
        Int16.add_zero count
      rw [zero] at may
      obtain ⟨entry, handled, extended⟩ :=
        engineProcess_forward present counter opened dest may
      refine ⟨entry.str, ?_, extended.matched, extended.currentState⟩
      simp [processAll, handled]
  | @cons event events related final closed holds loopRun induction =>
      intro str count here values counter loops may
      rw [← values] at closed holds
      have atHome : engine.nfa.states[str.currentState]? =
          some (.kleene stateName edges loop spec) := by rw [here]; exact present
      have now : mayLoop loop count spec = true := by
        have first := loops 0 (Nat.succ_pos _)
        rw [show count + Int16.ofNat 0 = count from Int16.add_zero count] at first
        exact first
      have shift : ∀ index, count + 1 + Int16.ofNat index =
          count + Int16.ofNat (index + 1) := by
        intro index
        rw [← ofNat_succ, Int16.add_assoc, Int16.add_comm 1]
      obtain ⟨added, handled, extended, counted⟩ :=
        engineProcess_loop atHome counter closed holds now
      have rest := induction opened added (count + 1) (extended.currentState.trans here)
        (by rw [extended.relatedValues, values]) counted
        (fun index small => by
          rw [shift]
          exact loops (index + 1) (Nat.succ_lt_succ small))
        (by rw [shift]; exact may)
      obtain ⟨final, processed, matched, place⟩ := rest
      refine ⟨final, ?_, ?_, place⟩
      · simpa [processAll, handled] using processed
      · rw [matched, extended.matched, List.append_assoc]
        rfl

section

variable {engine : CEPEngine Event Related} {stateName : String} {id : Nat}
  {edges : List (ForwardEdge Event Related)} {loop : LoopEdge Event Related}
  {spec : KleeneSpecification} {edge : ForwardEdge Event Related}
  {str : NFAStructure Event Related} {final : Option Related} {run : List Event}
  {last : Event}

/-- Behind its first event a Kleene state `Plus` binds no other one. -/
theorem not_accepts_plus
    (present : engine.nfa.states[str.currentState]? =
      some (.kleene stateName edges loop .Plus))
    (counter : str.getCurrentKleene = some 1) (nonempty : run ≠ [])
    (loopRun : LoopRun engine.nfa edges loop str.relatedValues run final) :
    ¬ AcceptsRun engine str edge run last := by
  intro accepts
  obtain ⟨added, processed, matched, _⟩ := accepts
  cases loopRun with
  | nil _ => exact nonempty rfl
  | @cons event events _ _ closed _ _ =>
      rw [List.cons_append, processAll, engineProcess_idle present counter closed (by rfl),
        Option.bind_some] at processed
      have size := length_processAll _ _ _ processed
      rw [matched] at size
      simp only [List.length_append, List.length_cons] at size
      omega

/-- A run that the specification allows is accepted, unless the state is a `Plus` that
would bind more than one event. -/
theorem accepts_iff {count : Nat} {reached : NFAState Event Related}
    (present : engine.nfa.states[str.currentState]? =
      some (.kleene stateName edges loop spec))
    (counter : str.getCurrentKleene = some (Int16.ofNat count))
    (within : Within loop count spec)
    (dest : engine.nfa.states[edge.destState]? = some reached)
    (loopRun : LoopRun engine.nfa edges loop str.relatedValues run final)
    (opened : openEdge edges last final = some edge) :
    (Obeys loop (count + run.length) spec → AcceptsRun engine str edge run last) ↔
      (spec = .Plus → count + run.length ≤ 1) := by
  have sum : ∀ index, Int16.ofNat count + Int16.ofNat index = Int16.ofNat (count + index) :=
    fun index => (Int16.ofNat_add count index).symm
  constructor
  · intro accepted plus
    subst plus
    by_contra several
    have enough : Obeys loop (count + run.length) .Plus := Nat.le_of_lt (Nat.lt_of_not_le several)
    have accepts := accepted enough
    have small : count ≤ 1 := within
    rcases Nat.le_one_iff_eq_zero_or_eq_one.mp small with zero | one
    · subst zero
      cases loopRun with
      | nil _ => exact several (Nat.zero_le 1)
      | @cons event events _ _ closed holds rest =>
          obtain ⟨added, handled, extended, counted⟩ :=
            engineProcess_loop present counter closed holds (by rfl)
          have here : engine.nfa.states[added.currentState]? =
              some (.kleene stateName edges loop .Plus) := by
            rw [extended.currentState]
            exact present
          rw [← extended.relatedValues] at rest
          have more : events ≠ [] := by
            rintro rfl
            exact several (Nat.le_refl 1)
          have stuck : ¬ AcceptsRun engine added edge events last :=
            not_accepts_plus here counted more rest
          apply stuck
          obtain ⟨final, processed, matched, place⟩ := accepts
          rw [List.cons_append, processAll, handled, Option.bind_some] at processed
          refine ⟨final, processed, ?_, place⟩
          rw [matched, extended.matched, List.append_assoc]
          rfl
    · subst one
      have nonempty : run ≠ [] := by
        rintro rfl
        exact several (Nat.le_refl 1)
      exact not_accepts_plus present counter nonempty loopRun accepts
  · intro single obeys
    apply accepts_of_counter present dest loopRun opened str _ rfl rfl counter
    · intro index inside
      rw [sum]
      cases spec with
      | Star => rfl
      | Question => rfl
      | Plus =>
          have one := single rfl
          have first : count + index = 0 := by omega
          rw [first]
          rfl
      | Restricted =>
          have whole : ((count + run.length : Nat) : Int) = loop.numOfLoop.toInt := obeys
          apply decide_eq_true
          rw [Int16.lt_iff_toInt_lt, toInt_counter (show ((count + index : Nat) : Int) ≤
            loop.numOfLoop.toInt by omega)]
          omega
    · rw [sum]
      cases spec with
      | Star => rfl
      | Question => rfl
      | Plus =>
          have one := single rfl
          have enough : 1 ≤ count + run.length := obeys
          rw [Nat.le_antisymm one enough]
          rfl
      | Restricted =>
          have whole : ((count + run.length : Nat) : Int) = loop.numOfLoop.toInt := obeys
          apply decide_eq_true
          rw [Int16.le_iff_toInt_le, toInt_counter (Int.le_of_eq whole)]
          omega

end

/-! ## The specification of a Kleene state -/

/-- In every run in which a Kleene state that allows one event is not offered a second
one for a structure, and a limit is not negative, the published matches obey the
specification; and a structure that waits in the Kleene state accepts all runs of
events that the specification allows exactly if it is not a `Plus` that would bind more
than one event. -/
theorem kleeneState_bindsAsSpecified {nfa : NFAController Event Related} {id : Nat}
    {edges : List (ForwardEdge Event Related)} {loop : LoopEdge Event Related}
    {spec : KleeneSpecification} (between : BetweenNormals nfa id edges loop spec)
    {engine : Engine Event Related} (fresh : engine.Fresh nfa)
    (inputs : List (Event × IterationOrder (NFAStructure Event Related)))
    (once : ∀ call ∈ Transducer.calls Engine.runEngine engine inputs,
      LoopsOnce id edges loop spec call.before call.input) :
    Transducer.Throughout (PublishesObeying nfa id loop spec)
        (Transducer.calls Engine.runEngine engine inputs) ∧
      ∀ earlier call,
        earlier ++ [call] <+: Transducer.calls Engine.runEngine engine inputs →
      ∀ str ∈ call.before.toCEPEngine.pool, str.currentState = id →
      ∀ run last final edge, LoopRun nfa edges loop str.relatedValues run final →
        openEdge edges last final = some edge →
        ((Obeys loop (bound nfa id str.equality earlier + run.length) spec →
            AcceptsRun call.before.toCEPEngine str edge run last) ↔
          (spec = .Plus → bound nfa id str.equality earlier + run.length ≤ 1)) := by
  obtain ⟨stateName, state⟩ := between.state
  have every : Transducer.Throughout (fun earlier call =>
      PublishesObeying nfa id loop spec earlier call ∧
        Counted nfa id loop spec earlier call.before)
      (Transducer.calls Engine.runEngine engine inputs) := by
    refine Transducer.throughout_of (Counted nfa id loop spec) _
      (LoopsOnce id edges loop spec) ?_ ?_ inputs once
    · intro earlier before input next counted ran met
      obtain ⟨publishes, after⟩ := counted.step state ran met
      exact ⟨⟨publishes, counted⟩, after⟩
    · constructor
      · exact fresh.invariant
      · intro str member
        rw [fresh.pool] at member
        exact absurd member List.not_mem_nil
      · intro value _
        refine ⟨rfl, ?_⟩
        intro visited
        obtain ⟨past, among, _⟩ := visited
        exact absurd among List.not_mem_nil
  constructor
  · exact fun earlier call seen => (every earlier call seen).1
  · intro earlier call seen str member here run last final edge loopRun opened
    have counted := (every earlier call seen).2
    have tracked := counted.tracked str member
    obtain ⟨reached, dest, _⟩ := between.behind edge (openEdge_mem opened)
    have automaton := counted.invariant.automaton
    have counter : str.getCurrentKleene =
        some (Int16.ofNat (bound nfa id str.equality earlier)) := by
      rw [NFAStructure.getCurrentKleene, here]
      exact tracked.counter
    rw [← automaton] at loopRun dest
    apply accepts_iff _ counter tracked.within dest loopRun opened
    · exact stateName
    · rw [automaton, here]
      exact state

/-- A Kleene state with this specification, which loops with 3, between normal ones. -/
def kleeneExampleNFA (spec : KleeneSpecification) : NFAController Nat Unit where
  states := [.start "A" [⟨⟨0, fun event _ => event = 1⟩, 1⟩],
    .normal "B" [⟨⟨1, fun event _ => event = 2⟩, 2⟩],
    .kleene "K" [⟨⟨2, fun event _ => event = 4⟩, 3⟩] ⟨⟨3, fun event _ => event = 3⟩, 2⟩
      spec,
    .normal "C" [⟨⟨4, fun event _ => event = 5⟩, 4⟩],
    .final "D"]
  start := 0
  init := none
  update related _ _ := related

theorem kleeneExample_between (spec : KleeneSpecification) :
    BetweenNormals (kleeneExampleNFA spec) 2 [⟨⟨2, fun event _ => event = 4⟩, 3⟩]
      ⟨⟨3, fun event _ => event = 3⟩, 2⟩ spec where
  state := ⟨"K", rfl⟩
  notStart := by
    intro same
    cases same
  before := by
    intro other state present edge member enters
    have inside := (List.getElem?_eq_some_iff.mp present).1
    rcases other with _ | _ | _ | _ | _ | other
    · cases present
      cases List.mem_singleton.mp member
      cases enters
    · cases present
      rfl
    · cases present
      cases List.mem_singleton.mp member
      cases enters
    · cases present
      rfl
    · cases present
      exact absurd member List.not_mem_nil
    · have size : other + 5 < 5 := inside
      omega
  behind := by
    intro edge member
    cases List.mem_singleton.mp member
    exact ⟨_, rfl, rfl⟩

/-- The calls of a new engine for these events. -/
def kleeneExampleCalls (spec : KleeneSpecification) (events : List Nat) :
    List (EngineCall Nat Unit) :=
  Transducer.calls Engine.runEngine (.NextMatches ⟨.new (kleeneExampleNFA spec) 0, []⟩)
    (events.map inOrder)

theorem kleeneState_bindsAsSpecified_restricted :
    Transducer.Throughout
        (PublishesObeying (kleeneExampleNFA .Restricted) 2
          ⟨⟨3, fun event _ => event = 3⟩, 2⟩ .Restricted)
        (kleeneExampleCalls .Restricted [1, 2, 3, 3, 4, 5]) ∧
      ∀ earlier call,
        earlier ++ [call] <+: kleeneExampleCalls .Restricted [1, 2, 3, 3, 4, 5] →
      ∀ str ∈ call.before.toCEPEngine.pool, str.currentState = 2 →
      ∀ run last final edge,
        LoopRun (kleeneExampleNFA .Restricted) [⟨⟨2, fun event _ => event = 4⟩, 3⟩]
          ⟨⟨3, fun event _ => event = 3⟩, 2⟩ str.relatedValues run final →
        openEdge [⟨⟨2, fun event _ => event = 4⟩, 3⟩] last final = some edge →
        ((Obeys (⟨⟨3, fun event _ => event = 3⟩, 2⟩ : LoopEdge Nat Unit)
            (bound (kleeneExampleNFA .Restricted) 2 str.equality earlier + run.length)
              .Restricted →
            AcceptsRun call.before.toCEPEngine str edge run last) ↔
          (KleeneSpecification.Restricted = .Plus →
            bound (kleeneExampleNFA .Restricted) 2 str.equality earlier + run.length ≤
              1)) := by
  apply kleeneState_bindsAsSpecified (kleeneExample_between .Restricted) ⟨rfl, rfl, rfl⟩
  intro call _
  constructor
  · intro question
    cases question
  · intro _
    decide

/-- A structure that waits in the Kleene state. -/
def kleeneExampleStr : NFAStructure Nat Unit :=
  ⟨[⟨"A", 1, 1⟩, ⟨"B", 2, 2⟩], 2, false, none, 0, [(2, 0)]⟩

/-- A Kleene state `Question` binds two events of a published match, and a `Plus` does
not accept a run of two events. -/
theorem not_kleeneState_bindsAsSpecified :
    ¬ Transducer.Throughout
        (PublishesObeying (kleeneExampleNFA .Question) 2
          ⟨⟨3, fun event _ => event = 3⟩, 2⟩ .Question)
        (kleeneExampleCalls .Question [1, 2, 3, 3, 4, 5]) ∧
      (kleeneExampleStr ∈ (((kleeneExampleCalls .Plus [1, 2, 3])[2]?).map
          fun call => call.before.toCEPEngine.pool).getD [] ∧
        ¬ AcceptsRun (.new (kleeneExampleNFA .Plus) 1) kleeneExampleStr
          ⟨⟨2, fun event _ => event = 4⟩, 3⟩ [3, 3] 4) := by
  constructor
  · intro every
    have obeys : bound (kleeneExampleNFA .Question) 2 0
        (kleeneExampleCalls .Question [1, 2, 3, 3, 4, 5]) ≤ 1 :=
      every.get 5 rfl _ List.mem_cons_self
        ⟨_, List.mem_append_left _ (List.mem_of_getElem? (i := 2) rfl), _,
          List.mem_cons_self, rfl, rfl⟩
    revert obeys
    decide
  · constructor
    · exact List.mem_cons_self
    · intro accepts
      obtain ⟨added, processed, matched, _⟩ := accepts
      cases processed
      revert matched
      decide

end CEP

end PipeFabric
