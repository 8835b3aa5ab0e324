import Mathlib.Data.UInt
import PipeFabric.Qop.Channels

/-!
# The window base class

The parameters a window operator is constructed with and the buffer both kinds
of windows keep.  `mCurrSize` is an `unsigned int` beside the list and wraps
around at 2^32.  Timestamps are microseconds; an integer stands for
`std::chrono::microseconds`, whose 64 bits no comparison below exceeds.  The
eviction thread of a sliding window (eviction interval other than zero) works on
real time and is left out.
-/

namespace PipeFabric

/-- `mWinType` and `mWinSize`: a range window has a duration, a row window a
number of tuples. -/
inductive WinSize where
  | RangeWindow (size : Int)
  | RowWindow (size : UInt32)
  deriving DecidableEq

/-- The constructors that take an `unsigned int` size: seconds for a range
window, multiplied in 32 bits. -/
def WinSize.ofSeconds (sz : UInt32) : WinSize :=
  .RangeWindow (sz * 1000 * 1000).toNat

/-- What the constructor of a window stores. -/
structure Window (α : Type) where
  mTimestampExtractor : α → Int
  mWinSize : WinSize
  /-- Applied to the window and the arriving tuple, when there is one. -/
  mWindowOpFunc : Option (List α → α → α)

namespace Window

variable {α : Type}

/-- The constructor of row windows, which takes no timestamp extractor. -/
def row (sz : UInt32) (winOpFunc : Option (List α → α → α)) : Window α where
  mTimestampExtractor := fun _ => 0
  mWinSize := .RowWindow sz
  mWindowOpFunc := winOpFunc

/-- The constructor that takes the size of a range window as a duration. -/
def range (func : α → Int) (sz : Int) (winOpFunc : Option (List α → α → α)) :
    Window α where
  mTimestampExtractor := func
  mWinSize := .RangeWindow sz
  mWindowOpFunc := winOpFunc

/-- The constructor that takes the size of a range window in seconds. -/
def rangeSeconds (func : α → Int) (sz : UInt32) (winOpFunc : Option (List α → α → α)) :
    Window α where
  mTimestampExtractor := func
  mWinSize := .ofSeconds sz
  mWindowOpFunc := winOpFunc

/-- The mutable members. -/
structure State (α : Type) where
  mTupleBuf : List α
  mCurrSize : UInt32
  deriving DecidableEq

def State.empty : State α := { mTupleBuf := [], mCurrSize := 0 }

/-- `mTupleBuf.push_back(data); mCurrSize++`. -/
def State.push_back (state : State α) (data : α) : State α :=
  { mTupleBuf := state.mTupleBuf ++ [data], mCurrSize := state.mCurrSize + 1 }

/-- The counter agrees with the buffer, as far as 32 bits can tell. -/
def State.Counted (state : State α) : Prop :=
  state.mCurrSize = UInt32.ofNat state.mTupleBuf.length

theorem State.counted_empty : (State.empty : State α).Counted := rfl

theorem State.Counted.push_back {state : State α} (counted : state.Counted)
    (data : α) : (state.push_back data).Counted := by
  unfold State.Counted State.push_back at *
  simp only [counted, List.length_append, List.length_singleton,
    UInt32.ofNat_add]
  rfl

/-- The loop of both eviction functions: the front tuple is taken off and
published as outdated as long as `expired` holds of it and the counter. -/
def popWhile (expired : α → UInt32 → Bool) : List α → UInt32 → State α × List α
  | [], mCurrSize => ({ mTupleBuf := [], mCurrSize := mCurrSize }, [])
  | tup :: rest, mCurrSize =>
      if expired tup mCurrSize then
        let popped := popWhile expired rest (mCurrSize - 1)
        (popped.1, tup :: popped.2)
      else ({ mTupleBuf := tup :: rest, mCurrSize := mCurrSize }, [])

/-- Every popped tuple leaves the front of the buffer. -/
theorem popWhile_append (expired : α → UInt32 → Bool) (buffer : List α)
    (mCurrSize : UInt32) :
    (popWhile expired buffer mCurrSize).2 ++
      (popWhile expired buffer mCurrSize).1.mTupleBuf = buffer := by
  induction buffer generalizing mCurrSize with
  | nil => rfl
  | cons tup rest induction =>
      unfold popWhile
      split
      · simp only [List.cons_append, induction]
      · rfl

theorem popWhile_counted (expired : α → UInt32 → Bool) (buffer : List α) :
    (popWhile expired buffer (UInt32.ofNat buffer.length)).1.Counted := by
  induction buffer with
  | nil => rfl
  | cons tup rest induction =>
      unfold popWhile
      split
      · have less : UInt32.ofNat (tup :: rest).length - 1 =
            UInt32.ofNat rest.length := by
          rw [List.length_cons, UInt32.ofNat_add]
          exact add_sub_cancel_right _ _
        rw [less]
        exact induction
      · rfl

/-- A condition on the tuple alone pops the longest prefix that satisfies it. -/
theorem popWhile_of_tuple (expired : α → Bool) (buffer : List α)
    (mCurrSize : UInt32) :
    (popWhile (fun tup _ => expired tup) buffer mCurrSize).1.mTupleBuf =
      buffer.dropWhile expired := by
  induction buffer generalizing mCurrSize with
  | nil => rfl
  | cons tup rest induction =>
      unfold popWhile
      rw [List.dropWhile_cons]
      split
      · exact induction _
      · rfl

end Window

end PipeFabric
