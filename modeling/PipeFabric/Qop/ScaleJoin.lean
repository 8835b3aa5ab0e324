import PipeFabric.Qop.SHJoin
import Mathlib.Algebra.Group.Int.Defs
import Mathlib.Algebra.Group.Nat.Defs

/-!
# The scale join

Every instance of a scale join sees all elements of both sides and joins each of
them with the elements it has stored; of every side it stores a round-robin share.
The counters that decide about the share are of type `short`, and the keys of
stored elements pass through a parameter of type `key_t`.
-/

namespace PipeFabric

/-- What the constructor of an instance stores.  `key_t` is the conversion of a key
to the parameter type of `updateHashTable` and back to the key type. -/
structure ScaleJoin (L R K : Type) where
  mJoinPredicate : L → R → Bool
  mLKeyExtractor : L → K
  mRKeyExtractor : R → K
  key_t : K → K
  mID : Nat
  mThreadnum : Nat

/-- `DefaultKeyType`, an `unsigned long`. -/
abbrev DefaultKeyType : Type := BitVec 64

/-- An `unsigned long` passed as a `key_t`, which is an `int`, and back. -/
def DefaultKeyType.key_t (key : DefaultKeyType) : DefaultKeyType :=
  (key.setWidth 32).signExtend 64

namespace ScaleJoin

/-- Conversion to `short`. -/
def short (value : Int) : Int := Int.bmod value (2 ^ 16)

/-- `cntr++; cntr %= mThreadnum`. -/
def nextCounter (mThreadnum : Nat) (cntr : Int) : Int :=
  short (Int.tmod (short (cntr + 1)) mThreadnum)

/-- One side of an instance: `mLTable`, `mLCntr` and `mLOCntr`, or `mRTable`,
`mRCntr` and `mROCntr`. -/
structure Side (K α : Type) where
  table : HashTable K α
  cntr : Int
  oCntr : Int

variable {L R K : Type} [DecidableEq L] [DecidableEq R] [DecidableEq K]

def Side.empty {K α : Type} : Side K α := { table := [], cntr := 0, oCntr := 0 }

/-- The first half of both `process` functions: the element is stored or removed
if it is this instance's turn, and the counter moves on. -/
def Side.update {α : Type} [DecidableEq α] (join : ScaleJoin L R K)
    (side : Side K α) (keyval : K) (element : α) (outdated : Bool) : Side K α :=
  if outdated then
    { side with
      table :=
        if side.oCntr = join.mID then
          side.table.updateHashTable (join.key_t keyval) element outdated
        else side.table
      oCntr := nextCounter join.mThreadnum side.oCntr }
  else
    { side with
      table :=
        if side.cntr = join.mID then
          side.table.updateHashTable (join.key_t keyval) element outdated
        else side.table
      cntr := nextCounter join.mThreadnum side.cntr }

structure State (L R K : Type) where
  left : Side K L
  right : Side K R

def State.empty : State L R K := { left := .empty, right := .empty }

/-- `ScaleJoin::joinTuples`. -/
def joinTuples (join : ScaleJoin L R K) (left : L) (right : R)
    (outdated : Bool) : List (Change (L × R)) :=
  if join.mJoinPredicate left right then [⟨(left, right), outdated⟩] else []

/-- `ScaleJoin::processLeftDataElement`. -/
def processLeftDataElement (join : ScaleJoin L R K) (state : State L R K)
    (left : L) (outdated : Bool) : State L R K × List (Change (L × R)) :=
  let keyval := join.mLKeyExtractor left
  let updated := state.left.update join keyval left outdated
  let rightEqualElements := state.right.table.equal_range keyval
  ({ state with left := updated },
    rightEqualElements.flatMap fun right => joinTuples join left right outdated)

/-- `ScaleJoin::processRightDataElement`. -/
def processRightDataElement (join : ScaleJoin L R K) (state : State L R K)
    (right : R) (outdated : Bool) : State L R K × List (Change (L × R)) :=
  let keyval := join.mRKeyExtractor right
  let updated := state.right.update join keyval right outdated
  let leftEqualElements := state.left.table.equal_range keyval
  ({ state with right := updated },
    leftEqualElements.flatMap fun left => joinTuples join left right outdated)

/-- One element on either channel. -/
def processDataElement (join : ScaleJoin L R K) (state : State L R K) :
    JoinInput L R → State L R K × List (Change (L × R))
  | .left change =>
      processLeftDataElement join state change.data change.outdated
  | .right change =>
      processRightDataElement join state change.data change.outdated

/-- An instance after the elements of both channels, in their order of arrival. -/
def process (join : ScaleJoin L R K) (inputs : List (JoinInput L R)) :
    State L R K × List (Change (L × R)) :=
  Transducer.run (processDataElement join) State.empty inputs

theorem process_concat (join : ScaleJoin L R K) (seen : List (JoinInput L R))
    (input : JoinInput L R) :
    process join (seen ++ [input]) =
      ((processDataElement join (process join seen).1 input).1,
        (process join seen).2 ++
          (processDataElement join (process join seen).1 input).2) :=
  Transducer.run_concat seen input

/-- The instance number `i` of the `threadnum` instances `Pipe::scaleJoin` creates,
with the predicate and the key extractors of a join. -/
def scJoin (join : SHJoin L R K) (key_t : K → K) (threadnum i : Nat) :
    ScaleJoin L R K where
  mJoinPredicate := join.mJoinPredicate
  mLKeyExtractor := join.mLKeyExtractor
  mRKeyExtractor := join.mRKeyExtractor
  key_t := key_t
  mID := i
  mThreadnum := threadnum

/-! ### The round robin -/

/-- The counter after a number of elements. -/
def roundRobin (mThreadnum : Nat) : Nat → Int
  | 0 => 0
  | count + 1 => nextCounter mThreadnum (roundRobin mThreadnum count)

/-- The instance that stores an element of a side, by the number of elements
before it.  From 2^15 + 1 instances on the counters turn negative, and the
elements of those turns are not stored at all. -/
def keeper (mThreadnum index : Nat) : Option Nat :=
  if mThreadnum ≤ 2 ^ 15 then some (index % mThreadnum)
  else if index % 2 ^ 16 < 2 ^ 15 then some (index % 2 ^ 16)
  else none

theorem short_of_small {value : Int} (lower : -(2 ^ 15) ≤ value)
    (upper : value < 2 ^ 15) : short value = value := by
  unfold short
  apply Int.bmod_eq_of_le <;> omega

/-- Up to 2^15 instances the counters go around as they are meant to. -/
theorem roundRobin_few {mThreadnum : Nat} (positive : 0 < mThreadnum)
    (few : mThreadnum ≤ 2 ^ 15) (index : Nat) :
    roundRobin mThreadnum index = (index % mThreadnum : Nat) := by
  induction index with
  | zero => simp [roundRobin]
  | succ index induction =>
      have below := Nat.mod_lt index positive
      unfold roundRobin nextCounter
      rw [induction, ← Nat.mod_add_mod]
      set turn := index % mThreadnum
      by_cases largest : turn + 1 < 2 ^ 15
      · have kept : short ((turn : Int) + 1) = (turn + 1 : Nat) := by
          apply short_of_small <;> push_cast <;> omega
        have small := Nat.mod_lt (turn + 1) positive
        rw [kept, Int.tmod_eq_emod_of_nonneg (by omega), ← Int.natCast_emod]
        apply short_of_small <;> omega
      · -- the one case in which the increment leaves the range of `short`
        have turnIs : turn = 2 ^ 15 - 1 := by omega
        have threads : mThreadnum = 2 ^ 15 := by omega
        rw [turnIs, threads]
        decide

/-- With more instances the remainder has no effect on a `short`. -/
theorem roundRobin_many {mThreadnum : Nat} (many : 2 ^ 15 < mThreadnum)
    (index : Nat) :
    roundRobin mThreadnum index = Int.bmod index (2 ^ 16) := by
  induction index with
  | zero => simp [roundRobin]
  | succ index induction =>
      have lower : -(((2 ^ 16 : Nat) : Int) / 2) ≤
          Int.bmod ((index : Int) + 1) (2 ^ 16) := Int.le_bmod (by decide)
      have upper : Int.bmod ((index : Int) + 1) (2 ^ 16) <
          (((2 ^ 16 : Nat) : Int) + 1) / 2 := Int.bmod_lt (by decide)
      unfold roundRobin nextCounter
      rw [induction, short, short, Int.bmod_add_bmod]
      set value := Int.bmod ((index : Int) + 1) (2 ^ 16) with valueIs
      have unchanged : Int.tmod value mThreadnum = value := by
        rcases Int.le_total 0 value with positive | negative
        · exact Int.tmod_eq_of_lt positive (by omega)
        · have mirrored : Int.tmod (-value) mThreadnum = -value :=
            Int.tmod_eq_of_lt (by omega) (by omega)
          rw [Int.neg_tmod] at mirrored
          omega
      rw [unchanged, valueIs, Int.bmod_bmod]
      push_cast
      rfl

/-- The counter names the instance that stores the element. -/
theorem keeper_eq_some {mThreadnum : Nat} (positive : 0 < mThreadnum)
    (index mID : Nat) :
    keeper mThreadnum index = some mID ↔
      mID < mThreadnum ∧ roundRobin mThreadnum index = mID := by
  unfold keeper
  by_cases few : mThreadnum ≤ 2 ^ 15
  · have below := Nat.mod_lt index positive
    rw [if_pos few, roundRobin_few positive few, Option.some_inj]
    omega
  · rw [if_neg few, roundRobin_many (by omega), Int.bmod_def]
    split
    · rw [Option.some_inj, if_pos (by omega)]
      omega
    · rw [if_neg (by omega)]
      simp only [reduceCtorEq, false_iff]
      omega

end ScaleJoin

end PipeFabric
