import PipeFabric.Cep.NFAController

/-!
# States and their operators

A pattern is written with objects of `CEPState` and the operators `>>`, `||` and `!`.
Each operator returns one of its operands, to whose table it adds the tables of both
and an entry of its own.  The entries point to states; of these only the members that
never change are read, so an entry has them in place of the pointer.
-/

namespace PipeFabric

namespace CEP

/-- `CEPState::StateTag`. -/
inductive StateTag where
  | Start
  | Stopp
  | Intermediate
  deriving DecidableEq

/-- `CEPState::Op`. -/
inductive Op where
  | SEQ
  | OR
  | NOT
  | START
  | END
  deriving DecidableEq

/-- What an entry reads through its pointer to a state.  The start state has no
predicate. -/
structure CEPStatePtr (Event Related : Type) where
  pred : Option (Event → Option Related → Bool)
  id : Nat
  tag : StateTag

/-- `CEPState::Expr`. -/
structure Expr (Event Related : Type) where
  op : Op
  fromState : CEPStatePtr Event Related
  toState : Option (CEPStatePtr Event Related)

/-- `CEPState`. -/
structure CEPState (Event Related : Type) extends CEPStatePtr Event Related where
  exprs : List (Expr Event Related)

namespace CEPState

variable {Event Related : Type}

/-- The constructor without arguments. -/
def start : CEPState Event Related where
  pred := none
  id := 0
  tag := .Start
  exprs := [⟨.START, ⟨none, 0, .Start⟩, none⟩]

/-- The constructor with a predicate; `globalId` is the counter after its increment. -/
def new (pred : Event → Option Related → Bool) (tag : StateTag) (globalId : Nat) :
    CEPState Event Related :=
  let id := if tag = .Stopp then 1000 else globalId
  { pred := some pred
    id := id
    tag := tag
    exprs := if tag = .Stopp then [⟨.END, ⟨some pred, id, tag⟩, none⟩] else [] }

/-- `operator>>`. -/
def seq (this other : CEPState Event Related) : CEPState Event Related :=
  { other with
    exprs := other.exprs ++ this.exprs ++
      [⟨.SEQ, this.toCEPStatePtr, some other.toCEPStatePtr⟩] }

/-- `operator||`. -/
def or (this other : CEPState Event Related) : CEPState Event Related :=
  { this with
    exprs := this.exprs ++ other.exprs ++
      [⟨.OR, this.toCEPStatePtr, some other.toCEPStatePtr⟩] }

/-- `operator!`. -/
def not (this : CEPState Event Related) : CEPState Event Related :=
  { this with exprs := this.exprs ++ [⟨.NOT, this.toCEPStatePtr, none⟩] }

end CEPState

/-! ### From the table to the automaton -/

section

variable {Event Related : Type}

/-- The entry of a state in the map of `constructNFA`, with the position of its
`nptr` in the automaton. -/
structure StateInfo (Event Related : Type) where
  id : Nat
  nptr : Nat
  eptr : Option (NFAEdge Event Related)

/-- The assignment to an entry of a map, which is ordered by the keys. -/
def assignState (id : Nat) (state : CEPStatePtr Event Related) :
    List (Nat × CEPStatePtr Event Related) → List (Nat × CEPStatePtr Event Related)
  | [] => [(id, state)]
  | entry :: entries =>
      if id < entry.1 then (id, state) :: entry :: entries
      else if id = entry.1 then (id, state) :: entries
      else entry :: assignState id state entries

/-- The states of one entry of the table. -/
def extractStates (states : List (Nat × CEPStatePtr Event Related))
    (expr : Expr Event Related) : List (Nat × CEPStatePtr Event Related) :=
  let withSource := assignState expr.fromState.id expr.fromState states
  match expr.toState with
  | none => withSource
  | some toState => assignState toState.id toState withSource

/-- The loop that creates the states and edges; `none` is the assertion that an edge
has a predicate. -/
def createStates (nptr edgeCountID : Nat) :
    List (Nat × CEPStatePtr Event Related) → Option (List (StateInfo Event Related))
  | [] => some []
  | entry :: entries =>
      if entry.1 = 0 then
        (createStates (nptr + 1) edgeCountID entries).map (⟨0, nptr, none⟩ :: ·)
      else
        entry.2.pred.bind fun predicate =>
          (createStates (nptr + 1) (edgeCountID + 1) entries).map
            (⟨entry.1, nptr, some ⟨edgeCountID, predicate⟩⟩ :: ·)

/-- `createStartState`, `createFinalState` and `createNormalState`. -/
def createState (id : Nat) : NFAState Event Related :=
  if id = 0 then .start (toString id) []
  else if id = 1000 then .final (toString id)
  else .normal (toString id) []

/-- `addEdge` after the cast to `NormalState`, of which `FinalState` is no subclass. -/
def addEdge (edge : ForwardEdge Event Related) :
    NFAState Event Related → Option (NFAState Event Related)
  | .start stateName edges => some (.start stateName (edges ++ [edge]))
  | .normal stateName edges => some (.normal stateName (edges ++ [edge]))
  | .negation stateName edges => some (.negation stateName (edges ++ [edge]))
  | .kleene stateName edges loop spec => some (.kleene stateName (edges ++ [edge]) loop spec)
  | .final _ => none

/-- `createForwardTransition`. -/
def createForwardTransition (states : List (NFAState Event Related)) (src : Nat)
    (edge : NFAEdge Event Related) (dest : Nat) : Option (List (NFAState Event Related)) := do
  let state ← states[src]?
  let extended ← addEdge { edge with destState := dest } state
  return states.set src extended

/-- One round of the loop over the table; alternatives and negations are left to do. -/
def addTransition (infos : List (StateInfo Event Related))
    (states : List (NFAState Event Related)) (expr : Expr Event Related) :
    Option (List (NFAState Event Related)) :=
  if expr.op = .SEQ then do
    let beginState ← infos.find? fun info => info.id = expr.fromState.id
    let toState ← expr.toState
    let endState ← infos.find? fun info => info.id = toState.id
    let predicate ← endState.eptr
    createForwardTransition states beginState.nptr predicate endState.nptr
  else some states

/-- `constructNFA`, on a new automaton.  `none` stands for a cast to the wrong class,
a null pointer or a failed assertion. -/
def constructNFA (expr : CEPState Event Related) : Option (NFAController Event Related) := do
  let infos ← createStates 0 0 (expr.exprs.foldl extractStates [])
  let states ← expr.exprs.foldlM (addTransition infos)
    (infos.map fun info => createState info.id)
  let start ← infos.find? fun info => info.id = 0
  return ⟨states, start.nptr, none, fun related _ _ => related⟩

/-- The automaton accepts the events from a state on. -/
def AcceptsFrom (nfa : NFAController Event Related) :
    Nat → Option Related → List Event → Prop
  | id, _, [] => ∃ stateName, nfa.states[id]? = some (.final stateName)
  | id, related, event :: events =>
      ∃ state edge, nfa.states[id]? = some state ∧ edge ∈ state.getForwardEdges ∧
        edge.predicate event related = true ∧
        AcceptsFrom nfa edge.destState (nfa.update related edge.edgeID event) events

/-- The automaton accepts the events. -/
def Accepts (nfa : NFAController Event Related) (events : List Event) : Prop :=
  AcceptsFrom nfa nfa.start nfa.init events

end

end CEP

end PipeFabric
