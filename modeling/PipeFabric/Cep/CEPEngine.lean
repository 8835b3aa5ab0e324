import PipeFabric.Cep.NFAStructure

/-!
# What the engines share

An engine keeps its partial matches in a pool, starts new ones, and asks
`checkPredicate` for the edge that an event takes one of them along.  A step is
`none` where the source dereferences a pointer that is not set, fails an assertion or
loops for ever.
-/

namespace PipeFabric

namespace CEP

/-- `WindowStruct`, with the fields that are set under each of its constants. -/
inductive WindowStruct where
  | NoConstraint
  | FirstLastEvents (period : Int)
  | FromLastEvents (period eventFrom : Int)
  | FromToEvents (period eventFrom eventTo : Int)
  deriving DecidableEq

/-- `CEPEngine`.  The pool is a multimap; the partial matches stand in the order in
which an iterator meets them, and `sequence` is the counter of `SequencePartition`. -/
structure CEPEngine (Event Related : Type) where
  nfa : NFAController Event Related
  pool : List (NFAStructure Event Related)
  counter : Nat
  sequence : Nat
  windowConst : WindowStruct

/-- What `checkPredicate` returns, with `none` for -1, what it leaves in `type`, and
the partial match, which it can change. -/
structure Checked (Event Related : Type) where
  result : Option Nat
  type : StateType
  str : NFAStructure Event Related

section

variable {Event Related : Type}

/-- The first of the edges whose predicate holds. -/
def firstEdge (edges : List (ForwardEdge Event Related)) (event : Event)
    (related : Option Related) : Option Nat :=
  edges.findIdx? fun edge => edge.predicate event related

/-- `forwardOK`: the Kleene state may be left. -/
def forwardOK (str : NFAStructure Event Related) (loop : LoopEdge Event Related) :
    KleeneSpecification → Option Bool
  | .Star => some true
  | .Question => some true
  | .Plus => str.getCurrentKleene.map fun count => count == 1
  | .Restricted => str.getCurrentKleene.map fun count => loop.numOfLoop ≤ count

/-- The loop of the Kleene state may be taken. -/
def loopOK (str : NFAStructure Event Related) (loop : LoopEdge Event Related) :
    KleeneSpecification → Option Bool
  | .Star => some true
  | .Question => some true
  | .Plus => str.getCurrentKleene.map fun count => count == 0
  | .Restricted => str.getCurrentKleene.map fun count => count < loop.numOfLoop

/-- `checkPredicate` in a Kleene state: a forward edge first, then the loop. -/
def checkKleene (nfa : NFAController Event Related) (event : Event)
    (str : NFAStructure Event Related) (edges : List (ForwardEdge Event Related))
    (loop : LoopEdge Event Related) (spec : KleeneSpecification) :
    Option (Checked Event Related) := do
  let forward ← forwardOK str loop spec
  match if forward then firstEdge edges event str.relatedValues else none with
  | some index => return ⟨some index, .Normal, str⟩
  | none =>
      if loop.predicate event str.relatedValues then
        let again ← loopOK str loop spec
        if again then
          let added ← str.addEvent nfa event (.Loop loop)
          return ⟨none, .Normal, added⟩
        else return ⟨none, .Normal, str⟩
      else return ⟨none, .Normal, str⟩

/-- How the `do … while` over a chain of negation states ends. -/
inductive ChainResult where
  | negated
  | left (state : Nat)
  deriving DecidableEq

/-- The `do … while` over a chain of negation states.  An automaton with `n` states
leaves such a chain within `n` rounds or never. -/
def leaveChain (nfa : NFAController Event Related) (event : Event)
    (related : Option Related) : Nat → Nat → Option ChainResult
  | 0, _ => none
  | rounds + 1, current => do
      let state ← nfa.states[current]?
      if (firstEdge state.getForwardEdges event related).isSome then
        return .negated
      else
        let edge ← state.getForwardEdges[0]?
        let next ← nfa.states[edge.destState]?
        if next.getStateType = .Negation then
          leaveChain nfa event related rounds edge.destState
        else return .left edge.destState

/-- `checkPredicate` in a negation state. -/
def checkNegation (nfa : NFAController Event Related) (event : Event)
    (str : NFAStructure Event Related) : Option (Checked Event Related) := do
  match ← leaveChain nfa event str.relatedValues nfa.states.length str.currentState with
  | .negated => return ⟨none, .Negation, str⟩
  | .left current =>
      let state ← nfa.states[current]?
      if state.getStateType = .Final then return ⟨some 0, .Normal, str⟩
      else
        match firstEdge state.getForwardEdges event str.relatedValues with
        | some index => return ⟨some index, .Normal, { str with currentState := current }⟩
        | none => return ⟨none, .Normal, str⟩

/-- `checkPredicate`, called with `Normal` in `type`. -/
def checkPredicate (nfa : NFAController Event Related) (event : Event)
    (str : NFAStructure Event Related) : Option (Checked Event Related) := do
  let state ← nfa.states[str.currentState]?
  match state with
  | .normal _ edges =>
      return ⟨firstEdge edges event str.relatedValues, .Normal, str⟩
  | .kleene _ edges loop spec => checkKleene nfa event str edges loop spec
  | .negation _ _ => checkNegation nfa event str
  | .start _ _ => return ⟨none, .Normal, str⟩
  | .final _ => return ⟨none, .Normal, str⟩

namespace CEPEngine

/-- The constructor, with the automaton that the engine is given. -/
def new (nfa : NFAController Event Related) (sequence : Nat) :
    CEPEngine Event Related where
  nfa := nfa
  pool := []
  counter := 0
  sequence := sequence
  windowConst := .NoConstraint

/-- `setWindowConstraint`. -/
def setWindowConstraint (engine : CEPEngine Event Related)
    (period fromEvent toEvent : Int) : CEPEngine Event Related :=
  { engine with
    windowConst :=
      if toEvent = -1 ∧ fromEvent = -1 then .FirstLastEvents period
      else if toEvent = -1 then .FromLastEvents period fromEvent
      else .FromToEvents period fromEvent toEvent }

/-- `hasWindow`. -/
def hasWindow (engine : CEPEngine Event Related) : Bool :=
  engine.windowConst != .NoConstraint

/-- `checkWindowTime`; everything but the last statement is commented out. -/
def checkWindowTime (_engine : CEPEngine Event Related) (_event : Event)
    (_str : NFAStructure Event Related) : Bool :=
  true

/-- `createStartStructure`; the predicates are given no related values. -/
def createStartStructure (engine : CEPEngine Event Related) (event : Event) :
    Option (CEPEngine Event Related) := do
  let start ← engine.nfa.states[engine.nfa.start]?
  match start.getForwardEdges.find? fun edge => edge.predicate event none with
  | none => return engine
  | some edge =>
      let added ← (NFAStructure.new engine.nfa engine.sequence).addEvent engine.nfa
        event (.Forward edge)
      return { engine with
        pool := engine.pool ++ [added]
        sequence := engine.sequence + 1 }

/-- The event is added along the forward edge `index` of the current state. -/
def takeEdge (engine : CEPEngine Event Related) (event : Event)
    (str : NFAStructure Event Related) (index : Nat) :
    Option (NFAStructure Event Related) := do
  let state ← engine.nfa.states[str.currentState]?
  let edge ← state.getForwardEdges[index]?
  str.addEvent engine.nfa event (.Forward edge)

end CEPEngine

end

end CEP

end PipeFabric
