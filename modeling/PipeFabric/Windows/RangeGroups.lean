import PipeFabric.Library.GroupCut
import PipeFabric.Qop.TumblingWindow

/-!
# The groups of a tumbling range window

A tumbling range window cuts a stream into groups.  A group is closed by the first tuple
that comes a window size or more after the group's first tuple, and is retracted as a
whole before that tuple is forwarded.
-/

namespace PipeFabric.TumblingWindow

open ChangeStream Published Window GroupCut

variable {α : Type}

/-- The tuple comes at least a window size after the first one of its group. -/
def closesRange (timestamp : α → Int) (winSize : Int) (first data : α) : Bool :=
  timestamp first + winSize ≤ timestamp data

/-- A group that was closed: its tuples have been forwarded and then retracted. -/
def closedGroup (group : List α) : List (Published α) :=
  publishAll (insertAll group) ++ expire group

/-- What is published for the groups of a stream. -/
def publishedGroups (groups : List (List α) × List α) : List (Published α) :=
  groups.1.flatMap closedGroup ++ publishAll (insertAll groups.2)

theorem publishedGroups_close (closed : List (List α)) (group : List α) (data : α) :
    publishedGroups (closed ++ [group], [data]) =
      publishedGroups (closed, group) ++ (expire group ++ publishAll [⟨data, false⟩]) := by
  simp only [publishedGroups, closedGroup, List.flatMap_append, List.flatMap_singleton,
    List.append_assoc]
  rfl

theorem publishedGroups_join (closed : List (List α)) (group : List α) (data : α) :
    publishedGroups (closed, group ++ [data]) =
      publishedGroups (closed, group) ++ publishAll [⟨data, false⟩] := by
  simp only [publishedGroups, insertAll_append, publishAll, List.map_append,
    List.append_assoc]
  rfl

/-- The tuple that arrives closes the group in the buffer or joins it. -/
theorem evictByTime_push {timestamp : α → Int} {winSize : Int} (positive : 0 < winSize)
    {state : State α} (nonneg : ∀ tup ∈ state.mTupleBuf, 0 ≤ timestamp tup) (data : α) :
    evictByTime timestamp winSize (state.push_back data) =
      if closesGroup (closesRange timestamp winSize) state.mTupleBuf data then
        ({ mTupleBuf := [data], mCurrSize := 1 }, expire state.mTupleBuf)
      else (state.push_back data, []) := by
  obtain ⟨buffer, size⟩ := state
  cases buffer with
  | nil =>
      have alone : ¬ timestamp data ≤ timestamp data - winSize := by omega
      simp [evictByTime, State.push_back, closesGroup, alone]
  | cons first rest =>
      have early := nonneg first List.mem_cons_self
      have head : (first :: rest ++ [data]).head? = some first := rfl
      have last : (first :: rest ++ [data]).getLast? = some data := List.getLast?_concat
      have front : (first :: rest ++ [data]).dropLast = first :: rest := List.dropLast_concat
      simp only [evictByTime, State.push_back, head, last, front, closesGroup,
        Option.any_some, List.head?_cons, closesRange, decide_eq_true_eq]
      by_cases closing : timestamp first + winSize ≤ timestamp data
      · rw [if_pos (by omega), if_pos (by omega), if_pos closing]
      · rw [if_neg closing]
        split
        · rw [if_neg (by omega)]
        · rfl

variable {window : Window α} {winSize : Int}

/-- The buffer is the open group, and what was published are the groups. -/
theorem processNew_groups (range : window.mWinSize = .RangeWindow winSize)
    (positive : 0 < winSize) (function : window.mWindowOpFunc = none) {seen : List α}
    (nonneg : ∀ tup ∈ seen, 0 ≤ window.mTimestampExtractor tup) :
    (processNew window seen).1.mTupleBuf =
        (cut (closesRange window.mTimestampExtractor winSize) [] seen).2 ∧
      (processNew window seen).2 =
        publishedGroups (cut (closesRange window.mTimestampExtractor winSize) [] seen) := by
  induction seen using List.reverseRecOn with
  | nil => exact ⟨rfl, rfl⟩
  | append_singleton seen data induction =>
      obtain ⟨buffer, outputs⟩ := induction fun tup member =>
        nonneg tup (List.mem_append_left _ member)
      have whole := @flatten_cut α (closesRange window.mTimestampExtractor winSize) [] seen
      have inside : ∀ tup ∈ (processNew window seen).1.mTupleBuf,
          0 ≤ window.mTimestampExtractor tup := by
        intro tup member
        rw [buffer] at member
        apply nonneg tup (List.mem_append_left _ ?_)
        rw [List.nil_append] at whole
        rw [← whole]
        exact List.mem_append_right _ member
      have evicts := evictByTime_push positive inside data
      rw [processNew_concat, cut_concat, ← buffer]
      simp only [processDataElement, Bool.false_eq_true, if_false, function, mEvictFun, range,
        evicts]
      rw [buffer, outputs]
      split
      · exact ⟨rfl, (publishedGroups_close _ _ data).symm⟩
      · refine ⟨?_, (publishedGroups_join _ _ data).symm⟩
        rw [← buffer]
        rfl

/-- A tumbling range window without a window function: its buffer is the open group of
the stream, and each closed group was retracted once, after its last and before the next
tuple was forwarded. -/
theorem tumblingWindow_cutsRanges (range : window.mWinSize = .RangeWindow winSize)
    (positive : 0 < winSize) (function : window.mWindowOpFunc = none) (inputs : List α)
    (nonneg : ∀ tup ∈ inputs, 0 ≤ window.mTimestampExtractor tup) :
    ∃ closed group,
      closed.flatten ++ group = inputs ∧
      IsCut (closesRange window.mTimestampExtractor winSize) (closed, group) ∧
      (process window (insertAll inputs)).1.mTupleBuf = group ∧
      (process window (insertAll inputs)).2 =
        (closed.flatMap fun tuples => publishAll (insertAll tuples) ++
            (publishAll (retractAll tuples) ++ [.punctuation .WindowExpired])) ++
          publishAll (insertAll group) := by
  obtain ⟨buffer, outputs⟩ := processNew_groups range positive function nonneg
  refine ⟨_, _, flatten_cut [] inputs, isCut_cut inputs, buffer, outputs⟩

/-- A window of 3 time units and tuples that are their own timestamps. -/
theorem tumblingWindow_cutsRanges_three :
    (∀ tup ∈ [(0 : Int), 1, 3, 4], 0 ≤ tup) ∧
    ∃ (closed : List (List Int)) (group : List Int),
      closed.flatten ++ group = [0, 1, 3, 4] ∧
      IsCut (closesRange (fun tup => tup) 3) (closed, group) ∧
      (process (Window.range (fun tup => tup) 3 none)
        (insertAll [0, 1, 3, 4])).1.mTupleBuf = group ∧
      (process (Window.range (fun tup => tup) 3 none) (insertAll [0, 1, 3, 4])).2 =
        (closed.flatMap fun tuples => publishAll (insertAll tuples) ++
            (publishAll (retractAll tuples) ++ [.punctuation .WindowExpired])) ++
          publishAll (insertAll group) := by
  have nonneg : ∀ tup ∈ [(0 : Int), 1, 3, 4], 0 ≤ tup := by decide
  have range : (Window.range (fun tup : Int => tup) 3 none).mWinSize = .RangeWindow 3 := rfl
  exact ⟨nonneg, tumblingWindow_cutsRanges range (by decide) rfl _ nonneg⟩

end PipeFabric.TumblingWindow
