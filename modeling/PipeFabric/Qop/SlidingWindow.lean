import PipeFabric.Library.Transducer
import PipeFabric.Qop.Window

/-!
# Sliding windows

Every arriving tuple is appended to the buffer, evicts what has become outdated,
and only then is forwarded, itself or as the result of the window function.

The buffer is the live set of the window: the last tuples of a row window, the
tuples of the last interval of a range window.  A row window of size 2^32 - 1 is
the exception, because its counter never exceeds the size.
-/

namespace PipeFabric.SlidingWindow

open ChangeStream Published Window

variable {α : Type}

/-- `SlidingWindow::evictByCount`. -/
def evictByCount (winSize : UInt32) (state : State α) : State α × List α :=
  popWhile (fun _ mCurrSize => mCurrSize > winSize) state.mTupleBuf state.mCurrSize

/-- `SlidingWindow::evictByTime`.  It is called after a `push_back`, so there is a
last element. -/
def evictByTime (timestamp : α → Int) (winSize : Int) (state : State α) :
    State α × List α :=
  match state.mTupleBuf.getLast? with
  | none => (state, [])
  | some lastWindowElement =>
      let lastTupleTime := timestamp lastWindowElement
      if lastTupleTime ≥ winSize then
        let accepted_time := lastTupleTime - winSize
        popWhile (fun tup _ => timestamp tup ≤ accepted_time) state.mTupleBuf
          state.mCurrSize
      else (state, [])

/-- The function `setupEviction` binds. -/
def mEvictFun (window : Window α) (state : State α) : State α × List α :=
  match window.mWinSize with
  | .RangeWindow winSize => evictByTime window.mTimestampExtractor winSize state
  | .RowWindow winSize => evictByCount winSize state

/-- `SlidingWindow::processDataElement`. -/
def processDataElement (window : Window α) (state : State α)
    (input : Change α) : State α × List (Published α) :=
  if input.outdated then (state, publishAll [⟨input.data, true⟩])
  else
    let evicted := mEvictFun window (state.push_back input.data)
    match window.mWindowOpFunc with
    | some function =>
        let res := function evicted.1.mTupleBuf input.data
        (evicted.1, publishAll (retractAll evicted.2 ++ [⟨res, false⟩]))
    | none =>
        (evicted.1, publishAll (retractAll evicted.2 ++ [⟨input.data, false⟩]))

/-- The window after a stream, with everything it has published. -/
def process (window : Window α) (inputs : List (Change α)) :
    State α × List (Published α) :=
  Transducer.run (processDataElement window) State.empty inputs

/-- What is forwarded for a tuple, given the window it is in. -/
def forwarded (window : Window α) (buffer : List α) (data : α) : α :=
  match window.mWindowOpFunc with
  | some function => function buffer data
  | none => data

theorem processDataElement_new (window : Window α) (state : State α) (data : α) :
    processDataElement window state ⟨data, false⟩ =
      ((mEvictFun window (state.push_back data)).1,
        publishAll (retractAll (mEvictFun window (state.push_back data)).2 ++
          [⟨forwarded window
            (mEvictFun window (state.push_back data)).1.mTupleBuf data,
            false⟩])) := by
  unfold processDataElement forwarded
  cases window.mWindowOpFunc <;> rfl

/-! ### Eviction -/

/-- Evicted tuples leave the front of the buffer. -/
theorem mEvictFun_append (window : Window α) (state : State α) :
    (mEvictFun window state).2 ++ (mEvictFun window state).1.mTupleBuf =
      state.mTupleBuf := by
  unfold mEvictFun
  split
  · unfold evictByTime
    split
    · rfl
    · dsimp only
      split
      · exact popWhile_append _ _ _
      · rfl
  · exact popWhile_append _ _ _

theorem mEvictFun_counted (window : Window α) {state : State α}
    (counted : state.Counted) : (mEvictFun window state).1.Counted := by
  unfold mEvictFun
  split
  · unfold evictByTime
    split
    · exact counted
    · dsimp only
      split
      · rw [counted]
        exact popWhile_counted _ _
      · exact counted
  · unfold evictByCount
    rw [counted]
    exact popWhile_counted _ _

/-- While the counter does not wrap around, a row window pops what exceeds its
size. -/
theorem evictByCount_counted (winSize : UInt32) (buffer : List α)
    (fits : buffer.length < 2 ^ 32) :
    (popWhile (fun _ mCurrSize => mCurrSize > winSize) buffer
      (UInt32.ofNat buffer.length)).1.mTupleBuf =
      buffer.drop (buffer.length - winSize.toNat) := by
  induction buffer with
  | nil => simp [popWhile]
  | cons tup rest induction =>
      have counter : (UInt32.ofNat (tup :: rest).length).toNat =
          rest.length + 1 := by
        rw [UInt32.toNat_ofNat']
        exact Nat.mod_eq_of_lt fits
      unfold popWhile
      by_cases exceeds : winSize.toNat < rest.length + 1
      · have popped : UInt32.ofNat (tup :: rest).length > winSize := by
          rw [gt_iff_lt, UInt32.lt_iff_toNat_lt, counter]
          exact exceeds
        have less : UInt32.ofNat (tup :: rest).length - 1 =
            UInt32.ofNat rest.length := by
          rw [List.length_cons, UInt32.ofNat_add]
          exact add_sub_cancel_right _ _
        have excess : (tup :: rest).length - winSize.toNat =
            (rest.length - winSize.toNat) + 1 := by
          rw [List.length_cons]
          omega
        simp only [popped, decide_true, if_true, less, excess,
          List.drop_succ_cons]
        apply induction
        rw [List.length_cons] at fits
        omega
      · have kept : ¬ UInt32.ofNat (tup :: rest).length > winSize := by
          rw [gt_iff_lt, UInt32.lt_iff_toNat_lt, counter]
          exact exceeds
        have none : (tup :: rest).length - winSize.toNat = 0 := by
          rw [List.length_cons]
          omega
        simp only [kept, decide_false, Bool.false_eq_true, if_false, none,
          List.drop_zero]

/-- A row window whose size is the largest counter value never evicts. -/
theorem evictByCount_largest {winSize : UInt32} (largest : winSize.toNat + 1 = 2 ^ 32)
    (state : State α) : (evictByCount winSize state).1.mTupleBuf = state.mTupleBuf := by
  unfold evictByCount
  cases state.mTupleBuf with
  | nil => rfl
  | cons tup rest =>
      have kept : ¬ state.mCurrSize > winSize := by
        rw [gt_iff_lt, UInt32.lt_iff_toNat_lt]
        have bounded := state.mCurrSize.toNat_lt
        omega
      simp [popWhile, kept]

/-- On a buffer in timestamp order a range window pops exactly the tuples up to
the accepted time. -/
theorem dropWhile_eq_filter (timestamp : α → Int) (accepted_time : Int)
    {buffer : List α}
    (ordered : buffer.Pairwise fun first second =>
      timestamp first ≤ timestamp second) :
    buffer.dropWhile (fun tup => timestamp tup ≤ accepted_time) =
      buffer.filter fun tup => accepted_time < timestamp tup := by
  induction buffer with
  | nil => rfl
  | cons tup rest induction =>
      obtain ⟨first, restOrdered⟩ := List.pairwise_cons.mp ordered
      rw [List.dropWhile_cons, List.filter_cons]
      by_cases expired : timestamp tup ≤ accepted_time
      · have dropped : ¬ accepted_time < timestamp tup := by omega
        simp only [expired, dropped, decide_true, decide_false, if_true,
          Bool.false_eq_true, if_false]
        exact induction restOrdered
      · have kept : accepted_time < timestamp tup := by omega
        have restKept : rest.filter (fun tup => accepted_time < timestamp tup) =
            rest := by
          rw [List.filter_eq_self]
          intro later member
          have after := first later member
          simp only [decide_eq_true_eq]
          omega
        simp only [expired, kept, decide_true, decide_false, if_true,
          Bool.false_eq_true, if_false, restKept]

/-! ### Runs over new tuples -/

/-- The window after new tuples only. -/
def processNew (window : Window α) (seen : List α) :
    State α × List (Published α) :=
  process window (insertAll seen)

@[simp] theorem processNew_nil (window : Window α) :
    processNew window [] = (State.empty, []) := rfl

theorem processNew_concat (window : Window α) (seen : List α) (data : α) :
    processNew window (seen ++ [data]) =
      ((processDataElement window (processNew window seen).1 ⟨data, false⟩).1,
        (processNew window seen).2 ++
          (processDataElement window (processNew window seen).1
            ⟨data, false⟩).2) := by
  unfold processNew process
  rw [insertAll_append, insertAll_singleton, Transducer.run_concat]

theorem processNew_counted (window : Window α) (seen : List α) :
    (processNew window seen).1.Counted := by
  induction seen using List.reverseRecOn with
  | nil => exact State.counted_empty
  | append_singleton seen data induction =>
      rw [processNew_concat, processDataElement_new]
      exact mEvictFun_counted window (induction.push_back data)

/-- The tuples that have left the window and those in its buffer are the tuples
received, in their order. -/
theorem processNew_retractions (window : Window α) (seen : List α) :
    retractions (changes (processNew window seen).2) ++
      (processNew window seen).1.mTupleBuf = seen := by
  induction seen using List.reverseRecOn with
  | nil => rfl
  | append_singleton seen data induction =>
      have evicted := mEvictFun_append window
        ((processNew window seen).1.push_back data)
      rw [processNew_concat, processDataElement_new]
      simp only [changes_append, changes_publishAll, retractions_append,
        retractions_retractAll, retractions_cons_new, retractions_nil,
        List.append_nil, List.append_assoc, evicted]
      unfold State.push_back
      rw [← List.append_assoc, induction]

/-- A row window keeps the last tuples, as many as its size allows. -/
theorem row_buffer {window : Window α} {size : UInt32}
    (row : window.mWinSize = .RowWindow size) (fits : size.toNat + 1 < 2 ^ 32)
    (seen : List α) :
    (processNew window seen).1.mTupleBuf =
      seen.drop (seen.length - size.toNat) := by
  induction seen using List.reverseRecOn with
  | nil => simp [State.empty]
  | append_singleton seen data induction =>
      have counted := (processNew_counted window seen).push_back data
      have short : ((processNew window seen).1.push_back data).mTupleBuf.length <
          2 ^ 32 := by
        simp only [State.push_back, induction, List.length_append,
          List.length_drop, List.length_singleton]
        omega
      rw [processNew_concat, processDataElement_new]
      simp only [mEvictFun, row, evictByCount]
      rw [counted, evictByCount_counted size _ short]
      simp only [State.push_back, induction]
      have room : seen.length - size.toNat ≤ seen.length := Nat.sub_le _ _
      rw [← List.drop_append_of_le_length room, List.drop_drop,
        List.length_drop, List.length_append, List.length_singleton]
      congr 1
      omega

/-- A row window of the largest size keeps everything. -/
theorem largest_row_buffer {window : Window α} {size : UInt32}
    (row : window.mWinSize = .RowWindow size)
    (largest : size.toNat + 1 = 2 ^ 32) (seen : List α) :
    (processNew window seen).1.mTupleBuf = seen := by
  induction seen using List.reverseRecOn with
  | nil => rfl
  | append_singleton seen data induction =>
      rw [processNew_concat, processDataElement_new]
      simp only [mEvictFun, row, evictByCount_largest largest]
      rw [State.push_back, induction]

/-- The tuples of the interval that ends with the last timestamp. -/
def lastInterval (timestamp : α → Int) (size : Int) (seen : List α) : List α :=
  match seen.getLast? with
  | none => []
  | some last => seen.filter fun tup => timestamp last - size < timestamp tup

theorem lastInterval_concat (timestamp : α → Int) (size : Int) (seen : List α)
    (data : α) :
    lastInterval timestamp size (seen ++ [data]) =
      (seen ++ [data]).filter fun tup =>
        timestamp data - size < timestamp tup := by
  unfold lastInterval
  rw [List.getLast?_concat]

/-- Moving the interval forward only drops tuples. -/
theorem filter_lastInterval (timestamp : α → Int) (size : Int) {seen : List α}
    {data : α} (later : ∀ tup ∈ seen, timestamp tup ≤ timestamp data) :
    (lastInterval timestamp size seen).filter
        (fun tup => timestamp data - size < timestamp tup) =
      seen.filter fun tup => timestamp data - size < timestamp tup := by
  induction seen using List.reverseRecOn with
  | nil => rfl
  | append_singleton seen last _ =>
      have lastEarlier : timestamp last ≤ timestamp data := later last (by simp)
      rw [lastInterval_concat, List.filter_filter]
      apply List.filter_congr
      intro tup _
      simp only [Bool.and_eq_left_iff_imp, decide_eq_true_eq]
      omega

/-- A range window keeps the tuples of the last interval when timestamps are not
negative and never decrease. -/
theorem range_buffer {window : Window α} {size : Int}
    (range : window.mWinSize = .RangeWindow size) {seen : List α}
    (positive : ∀ tup ∈ seen, 0 ≤ window.mTimestampExtractor tup)
    (ordered : seen.Pairwise fun first second =>
      window.mTimestampExtractor first ≤ window.mTimestampExtractor second) :
    (processNew window seen).1.mTupleBuf =
      lastInterval window.mTimestampExtractor size seen := by
  induction seen using List.reverseRecOn with
  | nil => rfl
  | append_singleton seen data induction =>
      have ends := List.pairwise_append.mp ordered
      have later : ∀ tup ∈ seen, window.mTimestampExtractor tup ≤
          window.mTimestampExtractor data := by
        intro tup member
        exact ends.2.2 tup member data (List.mem_singleton_self data)
      have buffer := induction
        (fun tup member => positive tup (List.mem_append_left _ member)) ends.1
      have part : ((processNew window seen).1.push_back data).mTupleBuf.Sublist
          (seen ++ [data]) := by
        unfold State.push_back
        apply List.Sublist.append_right
        have suffix := List.sublist_append_right
          (retractions (changes (processNew window seen).2))
          (processNew window seen).1.mTupleBuf
        rwa [processNew_retractions window seen] at suffix
      have kept : ((processNew window seen).1.push_back data).mTupleBuf.filter
          (fun tup => window.mTimestampExtractor data - size <
            window.mTimestampExtractor tup) =
          lastInterval window.mTimestampExtractor size (seen ++ [data]) := by
        rw [lastInterval_concat, State.push_back, buffer, List.filter_append,
          List.filter_append, filter_lastInterval _ _ later]
      have newest : ((processNew window seen).1.push_back data).mTupleBuf.getLast? =
          some data := by
        rw [State.push_back, List.getLast?_concat]
      rw [processNew_concat, processDataElement_new, ← kept]
      simp only [mEvictFun, range, evictByTime, newest]
      by_cases reaches : window.mTimestampExtractor data ≥ size
      · rw [if_pos reaches, popWhile_of_tuple]
        exact dropWhile_eq_filter _ _ (ordered.sublist part)
      · rw [if_neg reaches]
        symm
        rw [List.filter_eq_self]
        intro tup member
        have bounded := positive tup (part.subset member)
        simp only [decide_eq_true_eq]
        omega

end PipeFabric.SlidingWindow
