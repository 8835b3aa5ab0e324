import Mathlib.Algebra.Order.Field.Basic
import PipeFabric.Qop.AggregateFunctions

/-!
# The median

`AggrMedian` counts the values in an ordered map and keeps an iterator at the lower
median, next to the number of copies of its value before it.  A result `none` stands for
a step that moves the iterator off the entries of the map or uses it there, or for a
signed addition that overflows.
-/

namespace PipeFabric

/-- The arithmetic of `value`: `first/1.0` and `(currElement + nextElement)/2.0`, without
rounding, on values in the order of the comparator. -/
structure ExactMean (V R : Type) [LinearOrder V] [LinearOrder R] where
  zero : R
  whole : V → R
  mean : V → V → R
  mean_self : ∀ value, mean value value = whole value
  whole_lt_mean : ∀ {lower upper}, lower < upper → whole lower < mean lower upper
  mean_lt_whole : ∀ {lower upper}, lower < upper → mean lower upper < whole upper

section

variable {F : Type} [Field F] [LinearOrder F] [IsStrictOrderedRing F]

theorem half_add_self (value : F) : (value + value) / 2 = value / 1 := by
  rw [add_self_div_two, div_one]

theorem lower_lt_half {lower upper : F} (less : lower < upper) :
    lower / 1 < (lower + upper) / 2 := by
  rw [div_one]
  exact left_lt_add_div_two.mpr less

theorem half_lt_upper {lower upper : F} (less : lower < upper) :
    (lower + upper) / 2 < upper / 1 := by
  rw [div_one]
  exact add_div_two_lt_right.mpr less

/-- The mean in an ordered field. -/
def ExactMean.ofField (F : Type) [Field F] [LinearOrder F] [IsStrictOrderedRing F] :
    ExactMean F F where
  zero := 0
  whole := fun value => value / 1
  mean := fun lower upper => (lower + upper) / 2
  mean_self := half_add_self
  whole_lt_mean := lower_lt_half
  mean_lt_whole := half_lt_upper

end

namespace AggrMedian

/-- The members.  `mapIt` is `none` at the end of the map. -/
structure State (V : Type) where
  total : Int
  mapElement : ValueCounters V
  mapIt : Option V
  elemBefore : Int32

variable {V R : Type} [LinearOrder V]

def init : State V :=
  { total := 0
    mapElement := ∅
    mapIt := none
    elemBefore := 0 }

/-- The first of some entries. -/
def firstKey (keys : Finset V) : Option V :=
  if entries : keys.Nonempty then some (keys.min' entries) else none

/-- The last of some entries. -/
def lastKey (keys : Finset V) : Option V :=
  if entries : keys.Nonempty then some (keys.max' entries) else none

/-- Where `mapIt++` leads from an entry: to the next one or to the end. -/
def following (mapElement : ValueCounters V) (key : V) : Option V :=
  firstKey (mapElement.keys.filter fun other => key < other)

/-- Where `mapIt--` leads.  Nothing comes before the first entry. -/
def preceding (mapElement : ValueCounters V) : Option V → Option V
  | none => lastKey mapElement.keys
  | some key => lastKey (mapElement.keys.filter fun other => other < key)

/-- `*mapIt`. -/
def State.entry (state : State V) : Option (V × UInt32) :=
  state.mapIt.bind fun key =>
    (state.mapElement.lookup key).map fun second => (key, second)

/-- `elemBefore+1 >= second`, compared as unsigned numbers. -/
def State.atLastCopy (state : State V) (second : UInt32) : Option Bool :=
  if state.elemBefore = Int32.maxValue then none
  else some ((state.elemBefore + 1).toUInt32 ≥ second)

/-- `AggrMedian::decrementMap`. -/
def decrementMap (state : State V) : Option (State V) :=
  if state.elemBefore ≤ 0 then do
    let previous ← preceding state.mapElement state.mapIt
    let second ← state.mapElement.lookup previous
    some { state with mapIt := some previous, elemBefore := (second - 1).toInt32 }
  else do
    let previous ← preceding state.mapElement state.mapIt
    some { state with mapIt := some previous }

/-- `AggrMedian::incrementMap`. -/
def incrementMap (state : State V) : Option (State V) := do
  let (key, second) ← state.entry
  let last ← state.atLastCopy second
  if last then
    some { state with mapIt := following state.mapElement key, elemBefore := 0 }
  else some { state with mapIt := following state.mapElement key }

/-- How the iterator moves before an element that was found is taken away. -/
def moveBefore (state : State V) (data : V) : Option (State V) :=
  if state.mapIt = some data then
    if state.total % 2 ≠ 0 then decrementMap state
    else do
      let (_, second) ← state.entry
      let last ← state.atLastCopy second
      if last then incrementMap state else some state
  else do
    let (key, _) ← state.entry
    if state.total % 2 ≠ 0 ∧ ¬ data < key then decrementMap state
    else if state.total % 2 = 0 ∧ data < key then incrementMap state
    else some state

/-- How an element is taken away.  An iterator at an entry that is erased is of no use
any more. -/
def remove (state : State V) (data : V) (second : UInt32) : Option (State V) :=
  if second = 1 then
    let erased :=
      { state with mapElement := state.mapElement.erase data, total := state.total - 1 }
    if erased.total = 0 then some { erased with mapIt := none, elemBefore := 0 }
    else if erased.mapIt = some data then none
    else some erased
  else
    some { state with
      mapElement := state.mapElement.insert data (second - 1), total := state.total - 1 }

/-- How the iterator moves after an element was added. -/
def moveAfter (state : State V) (data : V) : Option (State V) := do
  let (key, _) ← state.entry
  if state.total % 2 = 0 ∧ data < key then decrementMap state
  else if state.total % 2 ≠ 0 ∧ ¬ data < key then incrementMap state
  else some state

/-- `AggrMedian::iterate`. -/
def iterate (state : State V) (data : V) (outdated : Bool) : Option (State V) :=
  if outdated then
    match state.mapElement.lookup data with
    | some second => (moveBefore state data).bind fun moved => remove moved data second
    | none => some state
  else
    match state.mapElement.lookup data with
    | some second =>
        moveAfter
          { state with
            mapElement := state.mapElement.insert data (second + 1)
            total := state.total + 1 } data
    | none =>
        let added :=
          { state with mapElement := state.mapElement.insert data 1, total := state.total + 1 }
        if added.total = 1 then
          some { added with mapIt := firstKey added.mapElement.keys, elemBefore := 0 }
        else moveAfter added data

/-- `AggrMedian::value`. -/
def value [LinearOrder R] (arithmetic : ExactMean V R) (state : State V) : Option R :=
  if state.total = 0 then some arithmetic.zero
  else if state.total % 2 = 0 then do
    let (currElement, second) ← state.entry
    let last ← state.atLastCopy second
    if last then
      let nextElement ← following state.mapElement currElement
      some (arithmetic.mean currElement nextElement)
    else some (arithmetic.whole currElement)
  else do
    let (first, _) ← state.entry
    some (arithmetic.whole first)

end AggrMedian

/-- `AggrMedian`. -/
def AggrMedian {V R : Type} [LinearOrder V] [LinearOrder R] (arithmetic : ExactMean V R) :
    AggregateFunc V (AggrMedian.State V) R where
  init := AggrMedian.init
  iterate := AggrMedian.iterate
  value := AggrMedian.value arithmetic

end PipeFabric
