/-!
# The automaton of a pattern

`NFAController` keeps the states and edges of the automaton that the engines of a
`Matcher` run on.  An edge carries a predicate on an event and on the related values,
a record that is updated with every event of a partial match; the pointer to it can
be null, which is `none` here.
-/

namespace PipeFabric

namespace CEP

/-- `NFAEdge`, what both kinds of edges have. -/
structure NFAEdge (Event Related : Type) where
  edgeID : Int
  predicate : Event → Option Related → Bool

/-- `ForwardEdge`; the pointer to the destination is the position of the state. -/
structure ForwardEdge (Event Related : Type) extends NFAEdge Event Related where
  destState : Nat

/-- `LoopEdge`; the limit is a `short`. -/
structure LoopEdge (Event Related : Type) extends NFAEdge Event Related where
  numOfLoop : Int16

/-- `NFAState::StateType`. -/
inductive StateType where
  | Start
  | Kleene
  | Final
  | Normal
  | Negation
  deriving DecidableEq

/-- `KleeneState::KleeneSpecification`. -/
inductive KleeneSpecification where
  | Star
  | Plus
  | Question
  | Restricted
  deriving DecidableEq

/-- `NFAState` and its subclasses.  Only a Kleene state has a loop edge, which is
taken to be set, and only a final state has no forward edges. -/
inductive NFAState (Event Related : Type) where
  | start (stateName : String) (forwardEdges : List (ForwardEdge Event Related))
  | kleene (stateName : String) (forwardEdges : List (ForwardEdge Event Related))
      (loop : LoopEdge Event Related) (spec : KleeneSpecification)
  | final (stateName : String)
  | normal (stateName : String) (forwardEdges : List (ForwardEdge Event Related))
  | negation (stateName : String) (forwardEdges : List (ForwardEdge Event Related))

namespace NFAState

variable {Event Related : Type}

/-- `getStateType`. -/
def getStateType : NFAState Event Related → StateType
  | .start _ _ => .Start
  | .kleene _ _ _ _ => .Kleene
  | .final _ => .Final
  | .normal _ _ => .Normal
  | .negation _ _ => .Negation

/-- `getStateName`. -/
def getStateName : NFAState Event Related → String
  | .start stateName _ => stateName
  | .kleene stateName _ _ _ => stateName
  | .final stateName => stateName
  | .normal stateName _ => stateName
  | .negation stateName _ => stateName

/-- `getForwardEdges`. -/
def getForwardEdges : NFAState Event Related → List (ForwardEdge Event Related)
  | .start _ forwardEdges => forwardEdges
  | .kleene _ forwardEdges _ _ => forwardEdges
  | .final _ => []
  | .normal _ forwardEdges => forwardEdges
  | .negation _ forwardEdges => forwardEdges

end NFAState

/-- `NFAController`.  The states stand in the order of their ids.  `init` makes new
related values for every partial match, and `update` changes them in place. -/
structure NFAController (Event Related : Type) where
  states : List (NFAState Event Related)
  start : Nat
  init : Option Related
  update : Option Related → Int → Event → Option Related

/-- `getKleeneStates`, by position. -/
def NFAController.getKleeneStates {Event Related : Type}
    (nfa : NFAController Event Related) : List Nat :=
  (List.range nfa.states.length).filter fun id =>
    nfa.states[id]?.any fun state => state.getStateType = .Kleene

end CEP

end PipeFabric
