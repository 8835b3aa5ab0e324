import PipeFabric.Cep.NFAController

/-!
# Partial matches

An `NFAStructure` is a run of the automaton on some of the events: the state it is
in, the events it has bound, the related values, and how often it has taken the loop
of each Kleene state.
-/

namespace PipeFabric

namespace CEP

/-- `Instance`: an event, the state it was bound in and its number in the match. -/
structure Instance (Event : Type) where
  state : String
  sequenceInComplex : Nat
  originalEvent : Event

/-- `NFAStructure`; `equality` is the value of the `SequencePartition` under which
the pool keeps it. -/
structure NFAStructure (Event Related : Type) where
  events : List (Instance Event)
  currentState : Nat
  complete : Bool
  relatedValues : Option Related
  equality : Nat
  kleeneState : List (Nat × Int16)

/-- An edge with its `getEdgeType`. -/
inductive Edge (Event Related : Type) where
  | Forward (edge : ForwardEdge Event Related)
  | Loop (edge : LoopEdge Event Related)

/-- `getID`. -/
def Edge.getID {Event Related : Type} : Edge Event Related → Int
  | .Forward edge => edge.edgeID
  | .Loop edge => edge.edgeID

namespace NFAStructure

variable {Event Related : Type}

/-- The constructor. -/
def new (nfa : NFAController Event Related) (equality : Nat) :
    NFAStructure Event Related where
  events := []
  currentState := nfa.start
  complete := false
  relatedValues := nfa.init
  equality := equality
  kleeneState := nfa.getKleeneStates.map fun id => (id, 0)

/-- `getCurrentKleene`, which looks up the current state. -/
def getCurrentKleene (str : NFAStructure Event Related) : Option Int16 :=
  str.kleeneState.lookup str.currentState

/-- One more loop of the current state. -/
def countLoop (currentState : Nat) :
    List (Nat × Int16) → Option (List (Nat × Int16))
  | [] => none
  | entry :: entries =>
      if entry.1 = currentState then some ((entry.1, entry.2 + 1) :: entries)
      else (countLoop currentState entries).map (entry :: ·)

/-- The part of `addEvent` that depends on the type of the edge. -/
def follow (str : NFAStructure Event Related) :
    Edge Event Related → Option (NFAStructure Event Related)
  | .Forward edge => some { str with currentState := edge.destState }
  | .Loop _ =>
      (countLoop str.currentState str.kleeneState).map fun counted =>
        { str with kleeneState := counted }

/-- `addEvent`. -/
def addEvent (nfa : NFAController Event Related) (str : NFAStructure Event Related)
    (event : Event) (currentEdge : Edge Event Related) :
    Option (NFAStructure Event Related) := do
  let state ← nfa.states[str.currentState]?
  let inst : Instance Event := ⟨state.getStateName, str.events.length + 1, event⟩
  let moved ← follow
    { str with
      events := str.events ++ [inst]
      relatedValues := nfa.update str.relatedValues currentEdge.getID event }
    currentEdge
  let reached ← nfa.states[moved.currentState]?
  return if reached.getStateType = .Final then { moved with complete := true }
    else moved

/-- The events of a match, which `produceAsList` returns. -/
def matched (str : NFAStructure Event Related) : List Event :=
  str.events.map Instance.originalEvent

end NFAStructure

end CEP

end PipeFabric
