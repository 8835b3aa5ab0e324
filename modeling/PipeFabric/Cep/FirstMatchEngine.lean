import PipeFabric.Cep.CEPEngine
import PipeFabric.Core.Punctuation

/-!
# The first-match engine and its operator

`FirstMatchEngine` looks for a new match only when its pool is empty, and otherwise
carries on with the partial match it finds there.  A step returns what it hands to
`publishResultMatches`.  `Matcher` feeds the engine with the elements of a stream.
-/

namespace PipeFabric

namespace CEP

variable {Event Related Payload : Type}

namespace FirstMatchEngine

/-- `engineProcess`, for the partial match in front of the others in the pool. -/
def engineProcess (engine : CEPEngine Event Related) (event : Event)
    (str : NFAStructure Event Related) (others : List (NFAStructure Event Related)) :
    Option (CEPEngine Event Related × List (NFAStructure Event Related)) := do
  let checked ← checkPredicate engine.nfa event str
  match checked.result with
  | some index =>
      if engine.hasWindow && !engine.checkWindowTime event checked.str then
        return ({ engine with pool := [] }, [])
      else
        let added ← engine.takeEdge event checked.str index
        if added.complete then
          return ({ engine with pool := [], counter := engine.counter + 1 }, [added])
        else return ({ engine with pool := added :: others }, [])
  | none =>
      if checked.type = .Negation then return ({ engine with pool := [] }, [])
      else return ({ engine with pool := checked.str :: others }, [])

/-- `runEngine`. -/
def runEngine (engine : CEPEngine Event Related) (event : Event) :
    Option (CEPEngine Event Related × List (NFAStructure Event Related)) :=
  match engine.pool with
  | [] => (engine.createStartStructure event).map fun started => (started, [])
  | str :: others => engineProcess engine event str others

end FirstMatchEngine

/-- `Matcher::OutputStrategy`. -/
inductive OutputStrategy where
  | OneByOne
  | Combined
  deriving DecidableEq

/-- `publishResultMatches`; the statement for `Combined` is commented out. -/
def publishResultMatches (outStrategy : OutputStrategy)
    (str : NFAStructure Event Related) : List (StreamItem Event Payload) :=
  match outStrategy with
  | .Combined => []
  | .OneByOne => str.matched.map fun event => .element event false

/-- The input channels of a `Matcher` with the selection strategy `FirstMatch`. -/
def firstMatcher (outStrategy : OutputStrategy) (engine : CEPEngine Event Related) :
    StreamItem Event Payload →
      Option (CEPEngine Event Related × List (StreamItem Event Payload))
  | .element data _outdated =>
      (FirstMatchEngine.runEngine engine data).map fun next =>
        (next.1, next.2.flatMap (publishResultMatches outStrategy))
  | .punctuation punctuation => some (engine, [.punctuation punctuation])

end CEP

end PipeFabric
