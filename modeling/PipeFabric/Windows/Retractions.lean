import PipeFabric.Qop.SlidingWindow
import PipeFabric.Qop.TumblingWindow

/-!
# Retractions under a window function

With a window function the published elements are the function's results, but the
tuples that leave the window are retracted as they arrived.  Whether such a
change stream is well formed is a matter of the contents of the window and of the
function alone; both are described here without the operators.
-/

namespace PipeFabric

open ChangeStream Published

variable {α : Type}

namespace Window

/-- The same window with a window function. -/
def withFunction (window : Window α) (function : List α → α → α) : Window α :=
  { window with mWindowOpFunc := some function }

/-- What a sliding window keeps once a tuple was appended. -/
def slidingKeep (window : Window α) (buffer : List α) : List α :=
  match window.mWinSize with
  | .RowWindow size =>
      if size.toNat + 1 < 2 ^ 32 then buffer.drop (buffer.length - size.toNat)
      else buffer
  | .RangeWindow size =>
      match buffer.getLast? with
      | none => buffer
      | some last =>
          if window.mTimestampExtractor last ≥ size then
            buffer.dropWhile fun tup =>
              window.mTimestampExtractor tup ≤ window.mTimestampExtractor last - size
          else buffer

/-- What a tumbling window keeps once a tuple was appended. -/
def tumblingKeep (window : Window α) (buffer : List α) : List α :=
  match window.mWinSize with
  | .RowWindow size =>
      if buffer.length % 2 ^ 32 = size.toNat then [] else buffer
  | .RangeWindow size =>
      match buffer.head?, buffer.getLast? with
      | some first, some last =>
          if window.mTimestampExtractor last ≥ size ∧
              window.mTimestampExtractor first ≤
                window.mTimestampExtractor last - size then [last]
          else buffer
      | _, _ => buffer

/-- The contents of a window that keeps `keep` of its tuples at every arrival. -/
def contents (keep : List α → List α) (seen : List α) : List α :=
  seen.foldl (fun buffer data => keep (buffer ++ [data])) []

/-- The tuples that have left the window. -/
def departed (keep : List α → List α) (seen : List α) : List α :=
  seen.take (seen.length - (contents keep seen).length)

/-- The results of the window function, which sees the part `view` of the
contents with the arriving tuple. -/
def resultsFrom (keep view : List α → List α) (function : List α → α → α) :
    List α → List α → List α
  | _, [] => []
  | buffer, data :: rest =>
      function (view (buffer ++ [data])) data ::
        resultsFrom keep view function (keep (buffer ++ [data])) rest

/-- A sliding window function sees what is left after the eviction. -/
def slidingResults (window : Window α) (function : List α → α → α)
    (seen : List α) : List α :=
  resultsFrom window.slidingKeep window.slidingKeep function [] seen

/-- A tumbling window function sees the window before it is evicted. -/
def tumblingResults (window : Window α) (function : List α → α → α)
    (seen : List α) : List α :=
  resultsFrom window.tumblingKeep id function [] seen

theorem contents_concat (keep : List α → List α) (seen : List α) (data : α) :
    contents keep (seen ++ [data]) = keep (contents keep seen ++ [data]) := by
  unfold contents
  rw [List.foldl_append]
  rfl

theorem resultsFrom_concat (keep view : List α → List α)
    (function : List α → α → α) (buffer seen : List α) (data : α) :
    resultsFrom keep view function buffer (seen ++ [data]) =
      resultsFrom keep view function buffer seen ++
        [function (view (seen.foldl (fun held tup => keep (held ++ [tup]))
          buffer ++ [data])) data] := by
  induction seen generalizing buffer with
  | nil => rfl
  | cons tup seen induction =>
      simp only [List.cons_append, resultsFrom, induction, List.foldl_cons]

/-- What has left the window and what it still holds are the tuples seen. -/
theorem departed_eq {keep : List α → List α} {seen left : List α}
    (split : left ++ contents keep seen = seen) : departed keep seen = left := by
  unfold departed
  have lengths := congrArg List.length split
  rw [List.length_append] at lengths
  have count : seen.length - (contents keep seen).length = left.length := by
    omega
  rw [count]
  conv_lhs => rw [← split]
  exact List.take_left

end Window

open Window

/-! ### The operators keep these contents -/

namespace SlidingWindow

theorem mEvictFun_buffer (window : Window α) {state : State α}
    (counted : state.Counted)
    (small : ∀ size, window.mWinSize = .RowWindow size →
      size.toNat + 1 < 2 ^ 32 → state.mTupleBuf.length < 2 ^ 32) :
    (mEvictFun window state).1.mTupleBuf =
      window.slidingKeep state.mTupleBuf := by
  unfold mEvictFun slidingKeep
  cases sizeIs : window.mWinSize with
  | RowWindow size =>
      dsimp only
      by_cases fits : size.toNat + 1 < 2 ^ 32
      · rw [if_pos fits, evictByCount, counted]
        exact evictByCount_counted size _ (small size sizeIs fits)
      · rw [if_neg fits]
        have bounded := size.toNat_lt
        exact evictByCount_largest (by omega) state
  | RangeWindow size =>
      dsimp only
      unfold evictByTime
      cases state.mTupleBuf.getLast? with
      | none => rfl
      | some last =>
          dsimp only
          by_cases reaches : window.mTimestampExtractor last ≥ size
          · rw [if_pos reaches, if_pos reaches]
            exact popWhile_of_tuple _ _ _
          · rw [if_neg reaches, if_neg reaches]

theorem processNew_buffer (window : Window α) (seen : List α) :
    (processNew window seen).1.mTupleBuf =
      contents window.slidingKeep seen := by
  induction seen using List.reverseRecOn with
  | nil => rfl
  | append_singleton seen data induction =>
      rw [processNew_concat, processDataElement_new, contents_concat,
        ← induction]
      apply mEvictFun_buffer window
        ((processNew_counted window seen).push_back data)
      intro size row fits
      simp only [State.push_back, row_buffer row fits, List.length_append,
        List.length_drop, List.length_singleton]
      omega

theorem processNew_departed (window : Window α) (seen : List α) :
    retractions (changes (processNew window seen).2) =
      departed window.slidingKeep seen := by
  symm
  apply departed_eq
  rw [← processNew_buffer]
  exact processNew_retractions window seen

theorem processNew_results (window : Window α) (function : List α → α → α)
    (seen : List α) :
    insertions (changes (processNew (window.withFunction function) seen).2) =
      window.slidingResults function seen := by
  induction seen using List.reverseRecOn with
  | nil => rfl
  | append_singleton seen data induction =>
      have buffer := processNew_buffer (window.withFunction function)
        (seen ++ [data])
      unfold slidingResults at *
      rw [resultsFrom_concat, ← induction]
      rw [processNew_concat, processDataElement_new] at buffer ⊢
      rw [buffer, contents_concat]
      simp only [changes_append, changes_publishAll, insertions_append,
        insertions_retractAll, insertions_cons_new, insertions_nil,
        List.nil_append, forwarded, withFunction]
      rfl

end SlidingWindow

namespace TumblingWindow

theorem mEvictFun_buffer (window : Window α) {state : State α}
    (counted : state.Counted) :
    (mEvictFun window state).1.mTupleBuf =
      window.tumblingKeep state.mTupleBuf := by
  unfold mEvictFun tumblingKeep
  cases window.mWinSize with
  | RowWindow size =>
      have counter : state.mCurrSize = size ↔
          state.mTupleBuf.length % 2 ^ 32 = size.toNat := by
        rw [counted, ← UInt32.toNat_inj, UInt32.toNat_ofNat']
      dsimp only
      unfold evictByCount
      by_cases full : state.mTupleBuf.length % 2 ^ 32 = size.toNat
      · rw [if_pos full, if_pos (counter.mpr full)]
      · rw [if_neg full, if_neg fun equal => full (counter.mp equal)]
  | RangeWindow size =>
      dsimp only
      unfold evictByTime
      cases state.mTupleBuf.head? with
      | none => rfl
      | some first =>
          cases state.mTupleBuf.getLast? with
          | none => rfl
          | some last =>
              dsimp only
              by_cases reaches : window.mTimestampExtractor last ≥ size
              · by_cases outside : window.mTimestampExtractor first ≤
                    window.mTimestampExtractor last - size
                · rw [if_pos reaches, if_pos outside,
                    if_pos ⟨reaches, outside⟩]
                · rw [if_pos reaches, if_neg outside,
                    if_neg fun both => outside both.2]
              · rw [if_neg reaches, if_neg fun both => reaches both.1]

/-- What is published for a tuple under a window function. -/
theorem processDataElement_function (window : Window α)
    (function : List α → α → α) (state : State α) (data : α) :
    ∃ expired,
      (processDataElement (window.withFunction function) state
          ⟨data, false⟩).1 = (mEvictFun window (state.push_back data)).1 ∧
      changes (processDataElement (window.withFunction function) state
          ⟨data, false⟩).2 =
        ⟨function (state.push_back data).mTupleBuf data, false⟩ ::
          retractAll expired ∧
      expired ++ (mEvictFun window (state.push_back data)).1.mTupleBuf =
        (state.push_back data).mTupleBuf := by
  rcases mEvictFun_cases window (state.push_back data) with
    kept | ⟨expired, published, split⟩
  · refine ⟨[], rfl, ?_, ?_⟩
    · have unchanged : (mEvictFun (window.withFunction function)
          (state.push_back data)).2 = [] := congrArg Prod.snd kept
      simp [processDataElement, withFunction] at unchanged ⊢
      rw [unchanged]
      rfl
    · rw [kept]
      rfl
  · refine ⟨expired, rfl, ?_, split⟩
    have expiry : (mEvictFun (window.withFunction function)
        (state.push_back data)).2 = expire expired := published
    simp [processDataElement, withFunction] at expiry ⊢
    rw [expiry, changes_expire]

theorem processNew_buffer (window : Window α) (function : List α → α → α)
    (seen : List α) :
    (processNew (window.withFunction function) seen).1.mTupleBuf =
      contents window.tumblingKeep seen := by
  induction seen using List.reverseRecOn with
  | nil => rfl
  | append_singleton seen data induction =>
      obtain ⟨_, nextState, _, _⟩ :=
        processDataElement_function window function
          (processNew (window.withFunction function) seen).1 data
      have counted := processNew_counted (window.withFunction function) seen
      rw [processNew_concat, nextState,
        mEvictFun_buffer window (counted.push_back data), State.push_back,
        induction, contents_concat]

theorem processNew_departed (window : Window α) (function : List α → α → α)
    (seen : List α) :
    retractions (changes (processNew (window.withFunction function) seen).2) =
      departed window.tumblingKeep seen := by
  symm
  apply departed_eq
  rw [← processNew_buffer window function]
  induction seen using List.reverseRecOn with
  | nil => rfl
  | append_singleton seen data induction =>
      obtain ⟨expired, nextState, published, split⟩ :=
        processDataElement_function window function
          (processNew (window.withFunction function) seen).1 data
      rw [processNew_concat, nextState]
      simp only [changes_append, retractions_append, published,
        retractions_cons_new, retractions_retractAll, List.append_assoc, split]
      rw [State.push_back, ← List.append_assoc, induction]

theorem processNew_results (window : Window α) (function : List α → α → α)
    (seen : List α) :
    insertions (changes (processNew (window.withFunction function) seen).2) =
      window.tumblingResults function seen := by
  induction seen using List.reverseRecOn with
  | nil => rfl
  | append_singleton seen data induction =>
      obtain ⟨expired, _, published, _⟩ :=
        processDataElement_function window function
          (processNew (window.withFunction function) seen).1 data
      have buffer := processNew_buffer window function seen
      unfold tumblingResults at *
      rw [resultsFrom_concat, ← induction, processNew_concat]
      simp only [changes_append, insertions_append, published,
        insertions_cons_new, insertions_retractAll, State.push_back, buffer]
      rfl

end TumblingWindow

/-! ### Well formed output -/

variable [DecidableEq α]

end PipeFabric
