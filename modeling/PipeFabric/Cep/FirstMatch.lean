import PipeFabric.Cep.FirstMatchEngine
import PipeFabric.Cep.LinearPattern

/-!
# First matches of a linear automaton

On a linear automaton the pool of the first-match engine is empty or holds one
partial match, which waits in front of a normal state.  So the engine is a scanner
that takes one event at a time, and finds what the scan of the stream finds.
-/

namespace PipeFabric

namespace CEP

open SequencePattern (Progress advance arrive scan)

variable {Event Related : Type} {nfa : NFAController Event Related}

/-! ### Adding an event -/

/-- A way ends where it reaches a final state. -/
theorem Path.exists_state {id : Nat} {steps : List (PatternStep Event Related)}
    (path : Path nfa id steps) :
    ∃ state, nfa.states[id]? = some state ∧
      (state.getStateType = .Final ↔ steps = []) := by
  cases path with
  | final state => exact ⟨_, state, by simp [NFAState.getStateType]⟩
  | step waits _ =>
      cases waits with
      | normal state => exact ⟨_, state, by simp [NFAState.getStateType]⟩
      | negation state _ => exact ⟨_, state, by simp [NFAState.getStateType]⟩

/-- The event is bound, and the partial match is complete once its way has ended. -/
theorem addEvent_forward {str : NFAStructure Event Related}
    {state : NFAState Event Related} {edge : ForwardEdge Event Related}
    {steps : List (PatternStep Event Related)}
    (present : nfa.states[str.currentState]? = some state)
    (path : Path nfa edge.destState steps) (event : Event) :
    ∃ added, str.addEvent nfa event (.Forward edge) = some added ∧
      added.currentState = edge.destState ∧
      added.relatedValues = nfa.update str.relatedValues edge.edgeID event ∧
      added.matched = str.matched ++ [event] ∧
      added.complete = (str.complete || steps.isEmpty) := by
  obtain ⟨reached, found, final⟩ := path.exists_state
  simp only [NFAStructure.addEvent, NFAStructure.follow, present, found,
    Option.bind_eq_bind, Option.bind_some, Edge.getID, final]
  cases steps with
  | nil => exact ⟨_, rfl, rfl, rfl, by simp [NFAStructure.matched], by simp⟩
  | cons step later => exact ⟨_, rfl, rfl, rfl, by simp [NFAStructure.matched], by simp⟩

/-- The event is bound along the edge of the normal state. -/
theorem takeEdge_positive {engine : CEPEngine Event Related}
    {str : NFAStructure Event Related} {stateName : String}
    {positive : ForwardEdge Event Related} {later : List (PatternStep Event Related)}
    (decides : engine.nfa.states[str.currentState]? = some (.normal stateName [positive]))
    (path : Path engine.nfa positive.destState later) (event : Event) :
    ∃ added, engine.takeEdge event str 0 = some added ∧
      added.currentState = positive.destState ∧
      added.relatedValues = engine.nfa.update str.relatedValues positive.edgeID event ∧
      added.matched = str.matched ++ [event] ∧
      added.complete = (str.complete || later.isEmpty) := by
  obtain ⟨added, found, facts⟩ := addEvent_forward decides path event
  refine ⟨added, ?_, facts⟩
  simp only [CEPEngine.takeEdge, decides, Option.bind_eq_bind, Option.bind_some,
    NFAState.getForwardEdges, List.getElem?_cons_zero]
  exact found

/-! ### The engine as a scanner -/

/-- How far the engine has come. -/
inductive Agrees (nfa : NFAController Event Related) :
    CEPEngine Event Related → Progress Event (Option Related) → Prop where
  | idle {engine : CEPEngine Event Related} :
      engine.nfa = nfa → engine.pool = [] → Agrees nfa engine .idle
  | waiting {engine : CEPEngine Event Related} {str : NFAStructure Event Related}
      {step : PatternStep Event Related} {later : List (PatternStep Event Related)} :
      engine.nfa = nfa → engine.pool = [str] → str.complete = false →
      Path nfa str.currentState (step :: later) →
      Agrees nfa engine (.waiting str.relatedValues str.matched (step.toStep nfa)
        (later.map (PatternStep.toStep nfa)))

/-- A partial match that is not complete goes on. -/
theorem Agrees.of_incomplete {engine : CEPEngine Event Related}
    {str : NFAStructure Event Related} {steps : List (PatternStep Event Related)}
    (same : engine.nfa = nfa) (pool : engine.pool = [str])
    (incomplete : str.complete = false) (path : Path nfa str.currentState steps)
    (more : steps ≠ []) :
    Agrees nfa engine (advance str.relatedValues str.matched
        (steps.map (PatternStep.toStep nfa))).1 ∧
      (advance str.relatedValues str.matched
        (steps.map (PatternStep.toStep nfa))).2 = [] := by
  cases steps with
  | nil => exact absurd rfl more
  | cons step later => exact ⟨.waiting same pool incomplete path, rfl⟩

/-- With an empty pool the engine looks for the first event. -/
theorem createStartStructure_simulates {pattern : LinearPattern Event Related}
    (linear : Linear nfa pattern) {engine : CEPEngine Event Related}
    (same : engine.nfa = nfa) (empty : engine.pool = []) (event : Event) :
    ∃ started, engine.createStartStructure event = some started ∧
      Agrees nfa started (arrive (pattern.toPattern nfa) .idle event).1 ∧
      (arrive (pattern.toPattern nfa) .idle event).2 = [] := by
  obtain ⟨stateName, start⟩ := linear.start
  subst same
  simp only [CEPEngine.createStartStructure, start, Option.bind_eq_bind,
    Option.bind_some, NFAState.getForwardEdges, List.find?_singleton, arrive]
  cases qualifies : pattern.first.predicate event none with
  | false =>
      refine ⟨engine, by simp, ?_⟩
      simp only [LinearPattern.toPattern, qualifies, Bool.false_eq_true, if_false, and_true]
      exact .idle rfl empty
  | true =>
      have present : engine.nfa.states[
          (NFAStructure.new engine.nfa engine.sequence).currentState]? =
          some (.start stateName [pattern.first]) := start
      obtain ⟨added, found, current, related, matched, complete⟩ :=
        addEvent_forward present linear.path event
      have incomplete : added.complete = false := by
        rw [complete]
        simpa [NFAStructure.new] using linear.normal
      have path := linear.path
      rw [← current] at path
      let started : CEPEngine Event Related :=
        { engine with pool := engine.pool ++ [added], sequence := engine.sequence + 1 }
      have pool : started.pool = [added] := by
        rw [show started.pool = engine.pool ++ [added] from rfl, empty, List.nil_append]
      have agrees := Agrees.of_incomplete (Eq.refl started.nfa) pool incomplete path
        linear.normal
      rw [related, matched] at agrees
      refine ⟨started, by simp [found, started], ?_⟩
      simp only [LinearPattern.toPattern, qualifies, if_true]
      exact agrees

/-- An event that `checkPredicate` has found an edge for. -/
theorem engineProcess_taken {engine : CEPEngine Event Related} {event : Event}
    {str moved added : NFAStructure Event Related}
    {others : List (NFAStructure Event Related)} {index : Nat} {type : StateType}
    (checked : checkPredicate engine.nfa event str = some ⟨some index, type, moved⟩)
    (found : engine.takeEdge event moved index = some added) :
    FirstMatchEngine.engineProcess engine event str others =
      some (
        if added.complete then
          ({ engine with pool := [], counter := engine.counter + 1 }, [added])
        else ({ engine with pool := added :: others }, [])) := by
  simp only [FirstMatchEngine.engineProcess, checked, found, Option.bind_eq_bind,
    Option.bind_some, CEPEngine.checkWindowTime, Bool.not_true, Bool.and_false,
    Bool.false_eq_true, if_false]
  cases added.complete <;> rfl

/-- With a partial match in the pool the engine waits for the next event of it. -/
theorem engineProcess_simulates {pattern : LinearPattern Event Related}
    {engine : CEPEngine Event Related} {str : NFAStructure Event Related}
    {step : PatternStep Event Related} {later : List (PatternStep Event Related)}
    (same : engine.nfa = nfa) (incomplete : str.complete = false)
    (path : Path nfa str.currentState (step :: later)) (event : Event) :
    ∃ next, FirstMatchEngine.engineProcess engine event str [] = some next ∧
      Agrees nfa next.1 (arrive (pattern.toPattern nfa)
        (.waiting str.relatedValues str.matched (step.toStep nfa)
          (later.map (PatternStep.toStep nfa))) event).1 ∧
      next.2.map NFAStructure.matched = (arrive (pattern.toPattern nfa)
        (.waiting str.relatedValues str.matched (step.toStep nfa)
          (later.map (PatternStep.toStep nfa))) event).2 := by
  subst same
  cases path with
  | @step _ target _ _ waits rest =>
      obtain ⟨stateName, decides⟩ := waits.target_eq
      have checked := waits.checkPredicate event
      cases ruledOut : (step.toStep engine.nfa).negated event str.relatedValues with
      | true =>
          rw [ruledOut, if_pos rfl] at checked
          refine ⟨({ engine with pool := [] }, []), ?_, ?_⟩
          · simp [FirstMatchEngine.engineProcess, checked]
          · rw [arrive, ruledOut, if_pos rfl]
            exact ⟨.idle rfl rfl, rfl⟩
      | false =>
          rw [ruledOut, if_neg Bool.false_ne_true] at checked
          rw [arrive, ruledOut, if_neg Bool.false_ne_true]
          cases met : (step.toStep engine.nfa).positive event str.relatedValues with
          | false =>
              rw [met, if_neg Bool.false_ne_true] at checked
              refine ⟨({ engine with pool := [str] }, []), ?_, ?_⟩
              · simp [FirstMatchEngine.engineProcess, checked]
              · exact ⟨.waiting rfl rfl incomplete (.step waits rest), rfl⟩
          | true =>
              rw [met, if_pos rfl] at checked
              let moved : NFAStructure Event Related := { str with currentState := target }
              have here : engine.nfa.states[moved.currentState]? =
                  some (.normal stateName [step.positive]) := decides
              obtain ⟨added, found, current, related, matched, complete⟩ :=
                takeEdge_positive here rest event
              rw [show moved.complete = false from incomplete, Bool.false_or] at complete
              refine ⟨_, engineProcess_taken checked found, ?_⟩
              have values : added.relatedValues =
                  (step.toStep engine.nfa).update str.relatedValues event := related
              have events : added.matched = str.matched ++ [event] := matched
              rw [if_pos rfl, ← values, ← events]
              cases later with
              | nil =>
                  rw [complete]
                  exact ⟨.idle rfl rfl, rfl⟩
              | cons next later =>
                  have more : added.complete = false := complete
                  rw [← current] at rest
                  rw [more, if_neg Bool.false_ne_true]
                  exact ⟨.waiting rfl rfl more rest, rfl⟩

/-- One event is one step of the scanner. -/
theorem runEngine_simulates {pattern : LinearPattern Event Related}
    (linear : Linear nfa pattern) (engine : CEPEngine Event Related)
    (progress : Progress Event (Option Related)) (event : Event)
    (agrees : Agrees nfa engine progress) :
    ∃ next, FirstMatchEngine.runEngine engine event = some next ∧
      Agrees nfa next.1 (arrive (pattern.toPattern nfa) progress event).1 ∧
      next.2.map NFAStructure.matched =
        (arrive (pattern.toPattern nfa) progress event).2 := by
  cases agrees with
  | idle same empty =>
      obtain ⟨started, created, agrees, silent⟩ :=
        createStartStructure_simulates linear same empty event
      refine ⟨(started, []), ?_, agrees, silent.symm⟩
      simp [FirstMatchEngine.runEngine, empty, created]
  | waiting same pool incomplete path =>
      obtain ⟨next, processed, simulated⟩ :=
        engineProcess_simulates same incomplete path event
      refine ⟨next, ?_, simulated⟩
      simp [FirstMatchEngine.runEngine, pool, processed]

/-- On every stream the engine publishes the matches that the scan from left to right
finds, with or without a window constraint. -/
theorem firstMatch_eq_scan {pattern : LinearPattern Event Related}
    (linear : Linear nfa pattern) (sequence : Nat) (windowConst : WindowStruct)
    (events : List Event) :
    ∃ final, Transducer.tryRun FirstMatchEngine.runEngine
        { CEPEngine.new nfa sequence with windowConst := windowConst } events =
          some final ∧
      final.2.map NFAStructure.matched = scan (pattern.toPattern nfa) events := by
  have initially : Agrees nfa
      { CEPEngine.new nfa sequence with windowConst := windowConst } .idle :=
    .idle rfl rfl
  obtain ⟨final, ran, _, published⟩ :=
    Transducer.tryRun_simulated (runEngine_simulates linear) initially events
  refine ⟨final, ran, ?_⟩
  rw [published]
  exact SequencePattern.matchesFrom_eq_scan _ events

/-- `A B !N C` on numbers: 1, then 2, then 3 without a 9 in between. -/
def negationExample : LinearPattern Nat Unit where
  first := ⟨⟨0, fun event _ => event = 1⟩, 1⟩
  steps := [⟨[], ⟨⟨1, fun event _ => event = 2⟩, 2⟩⟩,
    ⟨[⟨⟨2, fun event _ => event = 9⟩, 3⟩], ⟨⟨3, fun event _ => event = 3⟩, 4⟩⟩]

/-- The automaton of `negationExample`. -/
def negationExampleNFA : NFAController Nat Unit where
  states := [.start "A" [⟨⟨0, fun event _ => event = 1⟩, 1⟩],
    .normal "B" [⟨⟨1, fun event _ => event = 2⟩, 2⟩],
    .negation "N" [⟨⟨2, fun event _ => event = 9⟩, 3⟩],
    .normal "C" [⟨⟨3, fun event _ => event = 3⟩, 4⟩],
    .final "D"]
  start := 0
  init := none
  update related _ _ := related

theorem negationExample_linear : Linear negationExampleNFA negationExample where
  start := ⟨"A", rfl⟩
  path := .step (.normal rfl) (.step (.negation rfl (.normal rfl)) (.final rfl))
  normal := List.cons_ne_nil _ _

theorem firstMatch_eq_scan_negation :
    ∃ final, Transducer.tryRun FirstMatchEngine.runEngine
        { CEPEngine.new negationExampleNFA 0 with windowConst := .FirstLastEvents 5 }
          [1, 2, 9, 3, 1, 5, 2, 1, 3] = some final ∧
      final.2.map NFAStructure.matched =
        scan (negationExample.toPattern negationExampleNFA)
          [1, 2, 9, 3, 1, 5, 2, 1, 3] :=
  firstMatch_eq_scan negationExample_linear 0 (.FirstLastEvents 5) _

example :
    (Transducer.tryRun FirstMatchEngine.runEngine (CEPEngine.new negationExampleNFA 0)
      [1, 2, 9, 3, 1, 5, 2, 1, 3]).map (fun final => final.2.map NFAStructure.matched) =
        some [[1, 2, 3]] := by
  rfl

/-! ### What the operator publishes -/

/-- The data elements on a channel. -/
def elements {Payload : Type} (items : List (StreamItem Event Payload)) :
    List (Event × Bool) :=
  items.filterMap fun
    | .element data outdated => some (data, outdated)
    | .punctuation _ => none

section

variable {Payload : Type}

@[simp] theorem elements_cons_element (data : Event) (outdated : Bool)
    (items : List (StreamItem Event Payload)) :
    elements (.element data outdated :: items) = (data, outdated) :: elements items :=
  rfl

@[simp] theorem elements_cons_punctuation (punctuation : Punctuation Payload)
    (items : List (StreamItem Event Payload)) :
    elements (.punctuation punctuation :: items) = elements items := rfl

theorem elements_append (items later : List (StreamItem Event Payload)) :
    elements (items ++ later) = elements items ++ elements later :=
  List.filterMap_append

theorem elements_publishResultMatches (strs : List (NFAStructure Event Related)) :
    elements (strs.flatMap (publishResultMatches .OneByOne) :
        List (StreamItem Event Payload)) =
      (strs.flatMap NFAStructure.matched).map fun event => (event, false) := by
  simp [elements, publishResultMatches, List.filterMap_flatMap, List.map_flatMap,
    List.filterMap_map]

/-- `Matcher` publishes the events of every match one by one and as valid ones. -/
theorem firstMatcher_publishes (items : List (StreamItem Event Payload))
    {engine : CEPEngine Event Related}
    {final : CEPEngine Event Related × List (NFAStructure Event Related)}
    (ran : Transducer.tryRun FirstMatchEngine.runEngine engine
      ((elements items).map Prod.fst) = some final) :
    ∃ published, Transducer.tryRun (firstMatcher .OneByOne) engine items =
        some (final.1, published) ∧
      elements published =
        (final.2.flatMap NFAStructure.matched).map fun event => (event, false) := by
  induction items generalizing engine final with
  | nil =>
      cases ran
      exact ⟨[], rfl, rfl⟩
  | cons item items induction =>
      cases item with
      | element data outdated =>
          simp only [elements_cons_element, List.map_cons, Transducer.tryRun,
            Option.bind_eq_some_iff, Option.map_eq_some_iff] at ran
          obtain ⟨next, stepped, rest, later, rfl⟩ := ran
          obtain ⟨published, continued, same⟩ := induction later
          refine ⟨next.2.flatMap (publishResultMatches .OneByOne) ++ published, ?_, ?_⟩
          · simp [Transducer.tryRun, firstMatcher, stepped, continued]
          · rw [elements_append, elements_publishResultMatches, same,
              List.flatMap_append, List.map_append]
      | punctuation punctuation =>
          obtain ⟨published, continued, same⟩ := induction ran
          refine ⟨.punctuation punctuation :: published, ?_, same⟩
          simp [Transducer.tryRun, firstMatcher, continued]

end

end CEP

end PipeFabric
