import Mathlib.Algebra.Group.Defs
import Mathlib.Data.Finmap
import Mathlib.Data.Finset.Max
import Mathlib.Data.Rat.Defs
import Mathlib.Data.UInt
import PipeFabric.Library.ChangeStream

/-!
# Aggregate functions

A class derived from `AggregateFunc` keeps some members, to which `iterate` adds a
value or, if it is outdated, from which it takes one away.  A result `none` stands
for a failing assertion or a division by zero.  Counters are `unsigned int` and
wrap around at 2^32; sums are taken over exact values.
-/

namespace PipeFabric

open ChangeStream

/-- The members as `init` leaves them, `iterate` and `value`. -/
structure AggregateFunc (Tin S Tres : Type) where
  init : S
  iterate : S → Tin → Bool → Option S
  value : S → Option Tres

/-- `AggrSum`, whose only member is `mSum`. -/
def AggrSum (N : Type) [AddGroup N] : AggregateFunc N N N where
  init := 0
  iterate := fun mSum data outdated =>
    some (mSum + if outdated then -data else data)
  value := some

/-- `AggrCount`, whose only member is `mCount`. -/
def AggrCount (V : Type) : AggregateFunc V UInt32 UInt32 where
  init := 0
  iterate := fun mCount _ outdated => some (mCount + if outdated then -1 else 1)
  value := some

namespace AggrAvg

structure State where
  mCount : UInt32
  mSum : ℚ
  deriving DecidableEq

def iterate (state : State) (data : ℚ) (outdated : Bool) : State :=
  if outdated then
    { mCount := state.mCount - 1, mSum := state.mSum - data }
  else { mCount := state.mCount + 1, mSum := state.mSum + data }

def value (state : State) : Option ℚ :=
  if state.mCount = 0 then none
  else some (state.mSum / state.mCount.toNat)

end AggrAvg

/-- `AggrAvg`, with rational numbers in place of floating point ones. -/
def AggrAvg : AggregateFunc ℚ AggrAvg.State ℚ where
  init := { mCount := 0, mSum := 0 }
  iterate := fun state data outdated => some (AggrAvg.iterate state data outdated)
  value := AggrAvg.value

/-- A `std::map` or `std::unordered_map` from values to counters. -/
abbrev ValueCounters (V : Type) : Type := Finmap fun _ : V => UInt32

/-- The first branch of `AggrMinMax::iterate` and `AggrDCount::iterate`: the entry
of the value is there and is removed when its counter reaches zero. -/
def ValueCounters.count {V : Type} [DecidableEq V] (counters : ValueCounters V)
    (data : V) (second : UInt32) (outdated : Bool) : ValueCounters V :=
  let second := second + if outdated then -1 else 1
  if second = 0 then counters.erase data else counters.insert data second

/-- `AggrMinMax::iterate`.  A value without entry gets one even if it is
outdated. -/
def AggrMinMax.iterate {V : Type} [DecidableEq V] (mMap : ValueCounters V)
    (data : V) (outdated : Bool) : ValueCounters V :=
  match mMap.lookup data with
  | some second => mMap.count data second outdated
  | none => mMap.insert data 1

/-- `AggrMinMax::value`: the key at `mMap.begin()`. -/
def AggrMinMax.value {V : Type} [LinearOrder V] (mMap : ValueCounters V) :
    Option V :=
  if entries : mMap.keys.Nonempty then some (mMap.keys.min' entries) else none

/-- `AggrMinMax`.  The order is the one of the comparator: that of the values for
`std::less`, its dual for `std::greater`. -/
def AggrMinMax (V : Type) [LinearOrder V] :
    AggregateFunc V (ValueCounters V) V where
  init := ∅
  iterate := fun mMap data outdated => some (AggrMinMax.iterate mMap data outdated)
  value := AggrMinMax.value

/-- `AggrDCount::iterate`. -/
def AggrDCount.iterate {V : Type} [DecidableEq V]
    (dCountElements : ValueCounters V) (data : V) (outdated : Bool) :
    Option (ValueCounters V) :=
  match dCountElements.lookup data with
  | some second => some (dCountElements.count data second outdated)
  | none => if outdated then none else some (dCountElements.insert data 1)

/-- `AggrDCount`. -/
def AggrDCount (V : Type) [DecidableEq V] :
    AggregateFunc V (ValueCounters V) Nat where
  init := ∅
  iterate := AggrDCount.iterate
  value := fun dCountElements => some dCountElements.keys.card

/-- `AggrLRecent::iterate`. -/
def AggrLRecent.iterate {V : Type} (mData : List V) (data : V)
    (outdated : Bool) : Option (List V) :=
  if outdated then
    match mData with
    | [] => none
    | _ :: rest => some rest
  else some (mData ++ [data])

/-- `AggrLRecent`, whose only member is the list `mData`. -/
def AggrLRecent (V : Type) : AggregateFunc V (List V) V where
  init := []
  iterate := AggrLRecent.iterate
  value := List.head?

namespace AggregateFunc

variable {α Tin S Tres : Type}

/-- The function applied to one column of a tuple. -/
def on (aggr : AggregateFunc Tin S Tres) (column : α → Tin) :
    AggregateFunc α S Tres where
  init := aggr.init
  iterate := fun state data outdated =>
    aggr.iterate state (column data) outdated
  value := aggr.value

/-- Two functions side by side. -/
def both {S' Tres' : Type} (aggr : AggregateFunc α S Tres)
    (aggr' : AggregateFunc α S' Tres') :
    AggregateFunc α (S × S') (Tres × Tres') where
  init := (aggr.init, aggr'.init)
  iterate := fun state data outdated =>
    (aggr.iterate state.1 data outdated).bind fun first =>
      (aggr'.iterate state.2 data outdated).map fun second => (first, second)
  value := fun state =>
    (aggr.value state.1).bind fun first =>
      (aggr'.value state.2).map fun second => (first, second)

/-- A new state that has gone through some changes. -/
def replay (aggr : AggregateFunc α S Tres) (changes : List (Change α)) :
    Option S :=
  changes.foldlM (fun state change =>
    aggr.iterate state change.data change.outdated) aggr.init

@[simp] theorem replay_nil (aggr : AggregateFunc α S Tres) :
    aggr.replay [] = some aggr.init := rfl

theorem replay_concat (aggr : AggregateFunc α S Tres)
    (changes : List (Change α)) (change : Change α) :
    aggr.replay (changes ++ [change]) =
      (aggr.replay changes).bind fun state =>
        aggr.iterate state change.data change.outdated := by
  unfold replay
  rw [List.foldlM_append]
  simp

end AggregateFunc

section

variable {α V1 V2 V3 V4 S1 S2 S3 S4 R1 R2 R3 R4 : Type}

/-- `Aggregator1` to `Aggregator4`: up to four functions, each with its column. -/
def Aggregator1 (aggr1 : AggregateFunc V1 S1 R1) (col1 : α → V1) :
    AggregateFunc α S1 R1 :=
  aggr1.on col1

def Aggregator2 (aggr1 : AggregateFunc V1 S1 R1) (col1 : α → V1)
    (aggr2 : AggregateFunc V2 S2 R2) (col2 : α → V2) :
    AggregateFunc α (S1 × S2) (R1 × R2) :=
  (aggr1.on col1).both (aggr2.on col2)

def Aggregator3 (aggr1 : AggregateFunc V1 S1 R1) (col1 : α → V1)
    (aggr2 : AggregateFunc V2 S2 R2) (col2 : α → V2)
    (aggr3 : AggregateFunc V3 S3 R3) (col3 : α → V3) :
    AggregateFunc α (S1 × S2 × S3) (R1 × R2 × R3) :=
  (aggr1.on col1).both ((aggr2.on col2).both (aggr3.on col3))

def Aggregator4 (aggr1 : AggregateFunc V1 S1 R1) (col1 : α → V1)
    (aggr2 : AggregateFunc V2 S2 R2) (col2 : α → V2)
    (aggr3 : AggregateFunc V3 S3 R3) (col3 : α → V3)
    (aggr4 : AggregateFunc V4 S4 R4) (col4 : α → V4) :
    AggregateFunc α (S1 × S2 × S3 × S4) (R1 × R2 × R3 × R4) :=
  (aggr1.on col1).both
    ((aggr2.on col2).both ((aggr3.on col3).both (aggr4.on col4)))

end

end PipeFabric
