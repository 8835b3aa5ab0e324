import PipeFabric.Library.ChangeStream
import PipeFabric.Library.Transducer
import PipeFabric.Qop.HashTable

/-!
# The symmetric hash join

Every element updates the hash table of its side and is joined with the elements
of the other side that are stored under its key.  `joinElements` concatenates the
attributes of both elements, so a pair stands for the result.
-/

namespace PipeFabric

/-- An element on one of the two input channels. -/
inductive JoinInput (L R : Type) where
  | left (change : Change L)
  | right (change : Change R)
  deriving DecidableEq

namespace JoinInput

variable {L R : Type}

/-- What arrives on the left channel. -/
def lefts (inputs : List (JoinInput L R)) : List (Change L) :=
  inputs.filterMap fun
    | .left change => some change
    | .right _ => none

/-- What arrives on the right channel. -/
def rights (inputs : List (JoinInput L R)) : List (Change R) :=
  inputs.filterMap fun
    | .left _ => none
    | .right change => some change

@[simp] theorem lefts_append (inputs later : List (JoinInput L R)) :
    lefts (inputs ++ later) = lefts inputs ++ lefts later :=
  List.filterMap_append

@[simp] theorem rights_append (inputs later : List (JoinInput L R)) :
    rights (inputs ++ later) = rights inputs ++ rights later :=
  List.filterMap_append

@[simp] theorem lefts_nil : lefts ([] : List (JoinInput L R)) = [] := rfl

@[simp] theorem rights_nil : rights ([] : List (JoinInput L R)) = [] := rfl

@[simp] theorem lefts_left (change : Change L) :
    lefts [(.left change : JoinInput L R)] = [change] := rfl

@[simp] theorem lefts_right (change : Change R) :
    lefts [(.right change : JoinInput L R)] = [] := rfl

@[simp] theorem rights_left (change : Change L) :
    rights [(.left change : JoinInput L R)] = [] := rfl

@[simp] theorem rights_right (change : Change R) :
    rights [(.right change : JoinInput L R)] = [change] := rfl

theorem lefts_mono {seen inputs : List (JoinInput L R)}
    (earlier : seen <+: inputs) : lefts seen <+: lefts inputs := by
  obtain ⟨later, rfl⟩ := earlier
  rw [lefts_append]
  exact List.prefix_append _ _

theorem rights_mono {seen inputs : List (JoinInput L R)}
    (earlier : seen <+: inputs) : rights seen <+: rights inputs := by
  obtain ⟨later, rfl⟩ := earlier
  rw [rights_append]
  exact List.prefix_append _ _

end JoinInput

/-- What the constructor of a join stores. -/
structure SHJoin (L R K : Type) where
  mJoinPredicate : L → R → Bool
  mLKeyExtractor : L → K
  mRKeyExtractor : R → K

namespace SHJoin

variable {L R K : Type} [DecidableEq L] [DecidableEq R] [DecidableEq K]

/-- The two hash tables. -/
structure State (L R K : Type) where
  mLTable : HashTable K L
  mRTable : HashTable K R

def State.empty : State L R K := { mLTable := [], mRTable := [] }

omit [DecidableEq L] [DecidableEq R] [DecidableEq K] in
/-- `SHJoin::joinTuples`: what is published for one pair. -/
def joinTuples (join : SHJoin L R K) (left : L) (right : R) (outdated : Bool) :
    List (Change (L × R)) :=
  if join.mJoinPredicate left right then [⟨(left, right), outdated⟩] else []

/-- `SHJoin::processLeftDataElement`. -/
def processLeftDataElement (join : SHJoin L R K) (state : State L R K)
    (left : L) (outdated : Bool) : State L R K × List (Change (L × R)) :=
  let keyval := join.mLKeyExtractor left
  let mLTable := state.mLTable.updateHashTable keyval left outdated
  let rightEqualElements := state.mRTable.equal_range keyval
  ({ state with mLTable := mLTable },
    rightEqualElements.flatMap fun right => joinTuples join left right outdated)

/-- `SHJoin::processRightDataElement`. -/
def processRightDataElement (join : SHJoin L R K) (state : State L R K)
    (right : R) (outdated : Bool) : State L R K × List (Change (L × R)) :=
  let keyval := join.mRKeyExtractor right
  let mRTable := state.mRTable.updateHashTable keyval right outdated
  let leftEqualElements := state.mLTable.equal_range keyval
  ({ state with mRTable := mRTable },
    leftEqualElements.flatMap fun left => joinTuples join left right outdated)

/-- One element on either channel. -/
def processDataElement (join : SHJoin L R K) (state : State L R K) :
    JoinInput L R → State L R K × List (Change (L × R))
  | .left change =>
      processLeftDataElement join state change.data change.outdated
  | .right change =>
      processRightDataElement join state change.data change.outdated

/-- The join after the elements of both channels, in their order of arrival. -/
def process (join : SHJoin L R K) (inputs : List (JoinInput L R)) :
    State L R K × List (Change (L × R)) :=
  Transducer.run (processDataElement join) State.empty inputs

theorem process_concat (join : SHJoin L R K) (seen : List (JoinInput L R))
    (input : JoinInput L R) :
    process join (seen ++ [input]) =
      ((processDataElement join (process join seen).1 input).1,
        (process join seen).2 ++
          (processDataElement join (process join seen).1 input).2) :=
  Transducer.run_concat seen input

/-- The elements of a side that join with a given one. -/
def Matches (join : SHJoin L R K) (left : L) (right : R) : Prop :=
  join.mLKeyExtractor left = join.mRKeyExtractor right ∧
    join.mJoinPredicate left right = true

omit [DecidableEq L] [DecidableEq R] in
instance (join : SHJoin L R K) (left : L) (right : R) :
    Decidable (join.Matches left right) :=
  inferInstanceAs (Decidable (_ ∧ _))

end SHJoin

end PipeFabric
