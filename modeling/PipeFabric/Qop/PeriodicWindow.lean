import PipeFabric.Library.Transducer
import PipeFabric.Qop.Window

/-!
# Sliding windows with an eviction interval

With an eviction interval other than zero a thread calls the eviction function, and an
arriving tuple evicts nothing.  The thread calls `evictByTime`, whatever the type of the
window is.  Its ticks and the arrivals hold the mutex of the window, so they come one
after the other.
-/

namespace PipeFabric.PeriodicWindow

open ChangeStream Published Window

variable {α : Type}

/-- `WindowParams::WinType`. -/
inductive WinType where
  | RangeWindow
  | RowWindow
  deriving DecidableEq

/-- `WinSizeType`, a variant. -/
inductive WinSizeType where
  | timestamp (size : Int)
  | count (size : UInt32)

/-- What the constructors store.  A timestamp extractor can be unset. -/
structure Parameters (α : Type) where
  mTimestampExtractor : Option (α → Int)
  mWinType : WinType
  mWinSize : WinSizeType
  mWindowOpFunc : Option (List α → α → α)

/-- The constructor with an extractor and an `unsigned int` size. -/
def ofSize (func : Option (α → Int)) (wt : WinType) (sz : UInt32)
    (winOpFunc : Option (List α → α → α)) : Parameters α where
  mTimestampExtractor := func
  mWinType := wt
  mWinSize := if wt = .RangeWindow then .timestamp (sz * 1000 * 1000).toNat else .count sz
  mWindowOpFunc := winOpFunc

/-- The constructor with an extractor and a duration. -/
def ofDuration (func : Option (α → Int)) (wt : WinType) (sz : Int)
    (winOpFunc : Option (List α → α → α)) : Parameters α where
  mTimestampExtractor := func
  mWinType := wt
  mWinSize := .timestamp sz
  mWindowOpFunc := winOpFunc

/-- The constructor without an extractor, which asserts that it makes a row window. -/
def ofCount (wt : WinType) (sz : UInt32) (winOpFunc : Option (List α → α → α)) :
    Option (Parameters α) :=
  if wt = .RowWindow then
    some
      { mTimestampExtractor := none
        mWinType := wt
        mWinSize := .count sz
        mWindowOpFunc := winOpFunc }
  else none

/-- `evictByTime`.  It fails on an empty buffer, without an extractor and for a size that
is not a timestamp. -/
def evictByTime (window : Parameters α) (state : State α) : Option (State α × List α) := do
  let lastWindowElement ← state.mTupleBuf.getLast?
  let timestamp ← window.mTimestampExtractor
  let lastTupleTime := timestamp lastWindowElement
  match window.mWinSize with
  | .count _ => none
  | .timestamp winSize =>
      if lastTupleTime ≥ winSize then
        let accepted_time := lastTupleTime - winSize
        some (popWhile (fun tup _ => timestamp tup ≤ accepted_time) state.mTupleBuf
          state.mCurrSize)
      else some (state, [])

/-- `processDataElement`, with an eviction thread. -/
def processDataElement (window : Parameters α) (state : State α) (input : Change α) :
    State α × List (Published α) :=
  if input.outdated then (state, publishAll [⟨input.data, true⟩])
  else
    let pushed := state.push_back input.data
    match window.mWindowOpFunc with
    | some function =>
        let res := function pushed.mTupleBuf input.data
        (pushed, publishAll [⟨res, false⟩])
    | none => (pushed, publishAll [⟨input.data, false⟩])

/-- An arrival or a tick of `EvictionNotifier`. -/
inductive Event (α : Type) where
  | arrival (input : Change α)
  | tick

/-- One event. -/
def step (window : Parameters α) (state : State α) :
    Event α → Option (State α × List (Published α))
  | .arrival input => some (processDataElement window state input)
  | .tick =>
      (evictByTime window state).map fun evicted =>
        (evicted.1, publishAll (retractAll evicted.2))

theorem processDataElement_buffer (window : Parameters α) (state : State α)
    (input : Change α) :
    (processDataElement window state input).1.mTupleBuf =
      if input.outdated then state.mTupleBuf else state.mTupleBuf ++ [input.data] := by
  unfold processDataElement
  split
  · rfl
  · cases window.mWindowOpFunc with
    | none => rfl
    | some function => rfl

end PipeFabric.PeriodicWindow
