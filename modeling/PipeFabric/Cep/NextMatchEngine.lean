import Mathlib.Data.List.Perm.Basic
import PipeFabric.Cep.FirstMatchEngine

/-!
# The next-match engine

`NextMatchEngine` offers every event to all partial matches, so that many of them are
alive at once.  Those that are complete or ruled out are put on a list, and
`runGCstructures` takes them from the pool.  The pool is an unordered multimap: in
which order an iterator meets its entries can change with every call.
-/

namespace PipeFabric

namespace CEP

variable {Event Related : Type}

/-- An order in which an iterator meets the entries of the pool. -/
structure IterationOrder (α : Type) where
  arrange : List α → List α
  perm : ∀ entries, (arrange entries).Perm entries

/-- The order of the list. -/
def IterationOrder.same (α : Type) : IterationOrder α where
  arrange entries := entries
  perm := List.Perm.refl

/-- `NextMatchEngine`.  `deletedStructures` has pointers; the partial match that one
of them points to is told by its value of `SequencePartition`. -/
structure NextMatchEngine (Event Related : Type) extends CEPEngine Event Related where
  deletedStructures : List Nat

/-- What an event does to a partial match: it stays in the pool, it is published, or
it is only put on the list. -/
inductive Fate where
  | kept
  | published
  | deleted
  deriving DecidableEq

/-- A partial match after `engineProcess`. -/
structure Processed (Event Related : Type) where
  str : NFAStructure Event Related
  fate : Fate

namespace NextMatchEngine

/-- `engineProcess`. -/
def engineProcess (engine : CEPEngine Event Related) (event : Event)
    (str : NFAStructure Event Related) : Option (Processed Event Related) := do
  let checked ← checkPredicate engine.nfa event str
  match checked.result with
  | some index =>
      if engine.hasWindow && !engine.checkWindowTime event checked.str then
        return ⟨checked.str, .deleted⟩
      else
        let added ← engine.takeEdge event checked.str index
        return ⟨added, if added.complete then .published else .kept⟩
  | none =>
      return ⟨checked.str, if checked.type = .Negation then .deleted else .kept⟩

/-- What the loop over the pool publishes. -/
def published (processed : List (Processed Event Related)) :
    List (NFAStructure Event Related) :=
  (processed.filter fun entry => entry.fate = .published).map Processed.str

/-- What the loop over the pool adds to `deletedStructures`. -/
def deleted (processed : List (Processed Event Related)) : List Nat :=
  (processed.filter fun entry => entry.fate ≠ .kept).map fun entry => entry.str.equality

/-- The partial match with this value is looked up and removed. -/
def removeValue (pool : List (NFAStructure Event Related)) (equality : Nat) :
    List (NFAStructure Event Related) :=
  pool.eraseP fun str => str.equality = equality

/-- `runGCstructures`: the loop compares `i` with the size of a list that gets shorter
with every round. -/
def runGCstructures (i : Nat) (pool : List (NFAStructure Event Related)) :
    List Nat → List (NFAStructure Event Related) × List Nat
  | [] => (pool, [])
  | front :: deletedStructures =>
      if i < (front :: deletedStructures).length then
        runGCstructures (i + 1) (removeValue pool front) deletedStructures
      else (pool, front :: deletedStructures)

/-- The loop over the pool in `runEngine`, and what it publishes. -/
def processPool (order : IterationOrder (NFAStructure Event Related))
    (engine : NextMatchEngine Event Related) (event : Event) :
    Option (NextMatchEngine Event Related × List (NFAStructure Event Related)) :=
  ((order.arrange engine.pool).mapM (engineProcess engine.toCEPEngine event)).map
    fun processed =>
      ({ engine with
          pool := processed.map Processed.str
          counter := engine.counter + (published processed).length
          deletedStructures := engine.deletedStructures ++ deleted processed },
        published processed)

/-- `runEngine` up to the call of `runGCstructures`. -/
def beforeSweep (order : IterationOrder (NFAStructure Event Related))
    (engine : NextMatchEngine Event Related) (event : Event) :
    Option (NextMatchEngine Event Related × List (NFAStructure Event Related)) :=
  (processPool order engine event).bind fun looped =>
    (looped.1.toCEPEngine.createStartStructure event).map fun started =>
      ({ looped.1 with toCEPEngine := started }, looped.2)

/-- The call of `runGCstructures`. -/
def sweep (engine : NextMatchEngine Event Related) : NextMatchEngine Event Related :=
  let swept := runGCstructures 0 engine.pool engine.deletedStructures
  { engine with pool := swept.1, deletedStructures := swept.2 }

/-- `runEngine`. -/
def runEngine (order : IterationOrder (NFAStructure Event Related))
    (engine : NextMatchEngine Event Related) (event : Event) :
    Option (NextMatchEngine Event Related × List (NFAStructure Event Related)) :=
  (beforeSweep order engine event).map fun handled => (handled.1.sweep, handled.2)

end NextMatchEngine

/-- `Matcher::SelectionStrategy`; for the other strategies there is no engine. -/
inductive SelectionStrategy where
  | NextMatches
  | AllMatches
  | ContiyuityMatches
  | FirstMatch
  | RecentMatch
  deriving DecidableEq

/-- The engine of a `Matcher`. -/
inductive Engine (Event Related : Type) where
  | FirstMatch (engine : CEPEngine Event Related)
  | NextMatches (engine : NextMatchEngine Event Related)

namespace Engine

/-- `createEngine`, followed by `setNFAController`. -/
def createEngine (nfa : NFAController Event Related) (sequence : Nat) :
    SelectionStrategy → Option (Engine Event Related)
  | .FirstMatch => some (.FirstMatch (.new nfa sequence))
  | .NextMatches => some (.NextMatches ⟨.new nfa sequence, []⟩)
  | .AllMatches => none
  | .ContiyuityMatches => none
  | .RecentMatch => none

/-- What every engine has. -/
def toCEPEngine : Engine Event Related → CEPEngine Event Related
  | .FirstMatch engine => engine
  | .NextMatches engine => engine.toCEPEngine

/-- `setWindowConstraint`. -/
def setWindowConstraint (period fromEvent toEvent : Int) :
    Engine Event Related → Engine Event Related
  | .FirstMatch engine => .FirstMatch (engine.setWindowConstraint period fromEvent toEvent)
  | .NextMatches engine =>
      .NextMatches { engine with
        toCEPEngine := engine.toCEPEngine.setWindowConstraint period fromEvent toEvent }

/-- `runEngine`, with the order in which it meets the entries of the pool. -/
def runEngine (engine : Engine Event Related)
    (input : Event × IterationOrder (NFAStructure Event Related)) :
    Option (Engine Event Related × List (NFAStructure Event Related)) :=
  match engine with
  | .FirstMatch engine =>
      (FirstMatchEngine.runEngine engine input.1).map fun next => (.FirstMatch next.1, next.2)
  | .NextMatches engine =>
      (NextMatchEngine.runEngine input.2 engine input.1).map fun next =>
        (.NextMatches next.1, next.2)

end Engine

end CEP

end PipeFabric
