import PipeFabric.Library.Transducer
import PipeFabric.Qop.Window

/-!
# Tumbling windows

A tumbling window collects tuples and retracts all of them at once, followed by a
`WindowExpired` punctuation.  With a window function the arriving tuple's result
is forwarded before the window is evicted, without one the tuple itself is
forwarded after it.
-/

namespace PipeFabric.TumblingWindow

open ChangeStream Published Window

variable {α : Type}

/-- The tuples and the punctuation an expired window publishes. -/
def expire (expired : List α) : List (Published α) :=
  publishAll (retractAll expired) ++ [.punctuation .WindowExpired]

/-- `TumblingWindow::evictByCount`. -/
def evictByCount (winSize : UInt32) (state : State α) :
    State α × List (Published α) :=
  if state.mCurrSize = winSize then
    ({ mTupleBuf := [], mCurrSize := 0 }, expire state.mTupleBuf)
  else (state, [])

/-- `TumblingWindow::evictByTime`.  It is called after a `push_back`, so there are
a first and a last element; the last one is not evicted. -/
def evictByTime (timestamp : α → Int) (winSize : Int) (state : State α) :
    State α × List (Published α) :=
  match state.mTupleBuf.head?, state.mTupleBuf.getLast? with
  | some tup, some lastWindowElement =>
      let lastTupleTime := timestamp lastWindowElement
      if lastTupleTime ≥ winSize then
        let accepted_time := lastTupleTime - winSize
        if timestamp tup ≤ accepted_time then
          ({ mTupleBuf := [lastWindowElement], mCurrSize := 1 },
            expire state.mTupleBuf.dropLast)
        else (state, [])
      else (state, [])
  | _, _ => (state, [])

/-- The function `setupEviction` binds. -/
def mEvictFun (window : Window α) (state : State α) :
    State α × List (Published α) :=
  match window.mWinSize with
  | .RowWindow winSize => evictByCount winSize state
  | .RangeWindow winSize => evictByTime window.mTimestampExtractor winSize state

/-- `TumblingWindow::processDataElement`. -/
def processDataElement (window : Window α) (state : State α)
    (input : Change α) : State α × List (Published α) :=
  if input.outdated then (state, publishAll [⟨input.data, true⟩])
  else
    let pushed := state.push_back input.data
    match window.mWindowOpFunc with
    | some function =>
        let res := function pushed.mTupleBuf input.data
        let evicted := mEvictFun window pushed
        (evicted.1, publishAll [⟨res, false⟩] ++ evicted.2)
    | none =>
        let evicted := mEvictFun window pushed
        (evicted.1, evicted.2 ++ publishAll [⟨input.data, false⟩])

/-- The window after a stream, with everything it has published. -/
def process (window : Window α) (inputs : List (Change α)) :
    State α × List (Published α) :=
  Transducer.run (processDataElement window) State.empty inputs

/-- The window after new tuples only. -/
def processNew (window : Window α) (seen : List α) :
    State α × List (Published α) :=
  process window (insertAll seen)

@[simp] theorem processNew_nil (window : Window α) :
    processNew window [] = (State.empty, []) := rfl

theorem processNew_concat (window : Window α) (seen : List α) (data : α) :
    processNew window (seen ++ [data]) =
      ((processDataElement window (processNew window seen).1 ⟨data, false⟩).1,
        (processNew window seen).2 ++
          (processDataElement window (processNew window seen).1
            ⟨data, false⟩).2) := by
  unfold processNew process
  rw [insertAll_append, insertAll_singleton, Transducer.run_concat]

theorem processNew_mono (window : Window α) {seen inputs : List α}
    (earlier : seen <+: inputs) :
    (processNew window seen).2 <+: (processNew window inputs).2 := by
  obtain ⟨later, rfl⟩ := earlier
  unfold processNew process
  rw [insertAll_append]
  exact Transducer.run_mono (List.prefix_append _ _)

/-- An eviction either keeps the window as it is or expires what it drops. -/
theorem mEvictFun_cases (window : Window α) (state : State α) :
    mEvictFun window state = (state, []) ∨
      ∃ expired, (mEvictFun window state).2 = expire expired ∧
        expired ++ (mEvictFun window state).1.mTupleBuf = state.mTupleBuf := by
  unfold mEvictFun
  split
  · unfold evictByCount
    split
    · exact Or.inr ⟨state.mTupleBuf, rfl, List.append_nil _⟩
    · exact Or.inl rfl
  · unfold evictByTime
    split
    case h_1 tup last first newest =>
      dsimp only
      split
      · split
        · refine Or.inr ⟨state.mTupleBuf.dropLast, rfl, ?_⟩
          exact List.dropLast_append_getLast? last newest
        · exact Or.inl rfl
      · exact Or.inl rfl
    case h_2 => exact Or.inl rfl

theorem changes_expire (expired : List α) :
    changes (expire expired) = retractAll expired := by
  simp [expire]

theorem mEvictFun_counted (window : Window α) {state : State α}
    (counted : state.Counted) : (mEvictFun window state).1.Counted := by
  unfold mEvictFun
  split
  · unfold evictByCount
    split
    · rfl
    · exact counted
  · unfold evictByTime
    split
    · dsimp only
      split
      · split
        · rfl
        · exact counted
      · exact counted
    · exact counted

theorem processNew_counted (window : Window α) (seen : List α) :
    (processNew window seen).1.Counted := by
  induction seen using List.reverseRecOn with
  | nil => exact State.counted_empty
  | append_singleton seen data induction =>
      rw [processNew_concat]
      unfold processDataElement
      have counted := mEvictFun_counted window (induction.push_back data)
      cases window.mWindowOpFunc <;> exact counted

end PipeFabric.TumblingWindow
