import PipeFabric.Qop.SlidingWindow

/-!
# The live set of a sliding window

Without a window function the change stream a sliding window publishes has its
buffer as live elements: the last tuples of a row window, the tuples of the last
interval of a range window.  Tuples are retracted first in, first out.
-/

namespace PipeFabric.SlidingWindow

open ChangeStream Published Window

variable {α : Type}

/-- What the buffer is meant to hold after the tuples seen. -/
def liveTuples (window : Window α) (seen : List α) : List α :=
  match window.mWinSize with
  | .RowWindow size => seen.drop (seen.length - min seen.length size.toNat)
  | .RangeWindow size => lastInterval window.mTimestampExtractor size seen

/-- Sizes and timestamps windows are meant for. -/
def Admissible (window : Window α) (inputs : List α) : Prop :=
  match window.mWinSize with
  | .RowWindow size => 1 ≤ size.toNat
  | .RangeWindow size => 0 < size ∧
      (∀ tup ∈ inputs, 0 ≤ window.mTimestampExtractor tup) ∧
      inputs.Pairwise fun first second =>
        window.mTimestampExtractor first ≤ window.mTimestampExtractor second

/-- A row window needs a counter that can exceed its size, unless the stream is
shorter than that. -/
def CounterFits (window : Window α) (inputs : List α) : Prop :=
  match window.mWinSize with
  | .RowWindow size => size.toNat + 1 < 2 ^ 32 ∨ inputs.length < 2 ^ 32
  | .RangeWindow _ => True

theorem Admissible.truncate {window : Window α} {seen inputs : List α}
    (admissible : Admissible window inputs) (start : seen <+: inputs) :
    Admissible window seen := by
  unfold Admissible at *
  split
  · rename_i size row
    rw [row] at admissible
    exact admissible
  · rename_i size range
    rw [range] at admissible
    obtain ⟨wide, positive, ordered⟩ := admissible
    exact ⟨wide, fun tup member => positive tup (start.subset member),
      ordered.sublist start.sublist⟩

theorem CounterFits.truncate {window : Window α} {seen inputs : List α}
    (fits : CounterFits window inputs) (start : seen <+: inputs) :
    CounterFits window seen := by
  unfold CounterFits at *
  split
  · rename_i size row
    rw [row] at fits
    have shorter := start.length_le
    omega
  · trivial

theorem buffer_eq {window : Window α} {seen : List α}
    (admissible : Admissible window seen) (fits : CounterFits window seen) :
    (processNew window seen).1.mTupleBuf = liveTuples window seen := by
  unfold Admissible at admissible
  unfold CounterFits at fits
  unfold liveTuples
  cases size : window.mWinSize with
  | RowWindow size' =>
      rw [size] at fits
      simp only at fits ⊢
      have count : seen.length - min seen.length size'.toNat =
          seen.length - size'.toNat := by omega
      rw [count]
      have bounded := size'.toNat_lt
      by_cases small : size'.toNat + 1 < 2 ^ 32
      · exact row_buffer size small seen
      · have short : seen.length - size'.toNat = 0 := by omega
        rw [short, List.drop_zero]
        exact largest_row_buffer size (by omega) seen
  | RangeWindow size' =>
      rw [size] at admissible
      obtain ⟨_, positive, ordered⟩ := admissible
      exact range_buffer size positive ordered

/-- The arriving tuple stays in the window. -/
theorem newest_live {window : Window α} {seen : List α} {data : α}
    (admissible : Admissible window (seen ++ [data])) :
    liveTuples window (seen ++ [data]) ≠ [] := by
  unfold Admissible at admissible
  unfold liveTuples
  cases size : window.mWinSize with
  | RowWindow size' =>
      rw [size] at admissible
      simp only [ne_eq, List.drop_eq_nil_iff, List.length_append,
        List.length_singleton] at admissible ⊢
      omega
  | RangeWindow size' =>
      rw [size] at admissible
      have wide := admissible.1
      have newest : window.mTimestampExtractor data - size' <
          window.mTimestampExtractor data := by omega
      simp [lastInterval_concat, List.filter_append, newest]

/-- What is published for a tuple that leaves the buffer non-empty keeps the
stream first in, first out. -/
theorem processNew_ordered {window : Window α}
    (function : window.mWindowOpFunc = none) {seen : List α}
    (nonempty : ∀ earlier, earlier <+: seen → earlier ≠ [] →
      (processNew window earlier).1.mTupleBuf ≠ []) :
    insertions (changes (processNew window seen).2) = seen ∧
      FirstInFirstOut (changes (processNew window seen).2) := by
  induction seen using List.reverseRecOn with
  | nil => exact ⟨rfl, firstInFirstOut_nil⟩
  | append_singleton seen data induction =>
      obtain ⟨arrivals, ordered⟩ := induction fun earlier start =>
        nonempty earlier (start.trans (List.prefix_append _ _))
      have kept := nonempty _ List.prefix_rfl (by simp)
      have split := processNew_retractions window (seen ++ [data])
      rw [processNew_concat, processDataElement_new] at kept split ⊢
      simp only [changes_append, changes_publishAll, retractions_append,
        retractions_retractAll, retractions_cons_new, retractions_nil,
        List.append_nil] at split
      constructor
      · simp only [changes_append, changes_publishAll, insertions_append,
          insertions_retractAll, insertions_cons_new, insertions_nil, arrivals,
          List.nil_append, forwarded, function]
      · simp only [changes_append, changes_publishAll]
        rw [← List.append_assoc]
        apply FirstInFirstOut.concat_new
        apply ordered.append_retractAll
        rw [arrivals]
        -- the buffer still ends with the arriving tuple, so what has left it are
        -- earlier tuples only
        set evicted := mEvictFun window
          ((processNew window seen).1.push_back data) with evictedIs
        obtain ⟨rest, newest, bufferIs⟩ :=
          (List.eq_nil_or_concat evicted.1.mTupleBuf).resolve_left kept
        rw [bufferIs, List.concat_eq_append, ← List.append_assoc] at split
        exact ⟨rest, (List.append_inj' split rfl).1⟩

variable [DecidableEq α]

/-- The buffer and the published changes after the tuples seen. -/
structure LiveSet (window : Window α) (seen : List α) : Prop where
  buffer : (processNew window seen).1.mTupleBuf = liveTuples window seen
  arrivals : insertions (changes (processNew window seen).2) = seen
  balance : (insertions (changes (processNew window seen).2) : Multiset α) -
    (retractions (changes (processNew window seen).2) : Multiset α) =
      ((processNew window seen).1.mTupleBuf : Multiset α)
  ordered : FirstInFirstOut (changes (processNew window seen).2)

theorem liveSet_of_fits {window : Window α}
    (function : window.mWindowOpFunc = none) {seen : List α}
    (admissible : Admissible window seen) (fits : CounterFits window seen) :
    LiveSet window seen := by
  have nonempty : ∀ earlier, earlier <+: seen → earlier ≠ [] →
      (processNew window earlier).1.mTupleBuf ≠ [] := by
    intro earlier start some
    rw [buffer_eq (admissible.truncate start) (fits.truncate start)]
    obtain ⟨before, newest, rfl⟩ :=
      (List.eq_nil_or_concat earlier).resolve_left some
    rw [List.concat_eq_append] at start ⊢
    exact newest_live (admissible.truncate start)
  obtain ⟨arrivals, ordered⟩ := processNew_ordered function nonempty
  refine ⟨buffer_eq admissible fits, arrivals, ?_, ordered⟩
  have split := congrArg (fun list : List α => (list : Multiset α))
    (processNew_retractions window seen)
  rw [arrivals, ← split, ← Multiset.coe_add, Multiset.add_comm,
    Multiset.add_sub_cancel_right]

/-- The largest row window grows beyond its size. -/
theorem not_liveSet_of_largest {window : Window α} {size : UInt32}
    (row : window.mWinSize = .RowWindow size)
    (largest : size.toNat + 1 = 2 ^ 32) {seen : List α}
    (long : 2 ^ 32 ≤ seen.length) : ¬ LiveSet window seen := by
  intro liveSet
  have buffer := liveSet.buffer
  rw [largest_row_buffer row largest, liveTuples, row] at buffer
  have lengths := congrArg List.length buffer
  rw [List.length_drop] at lengths
  omega

/-- Over a stream of new tuples the buffer is the live set after every tuple, as
long as the counter of the window can exceed its size. -/
theorem slidingWindow_liveSet (window : Window α)
    (function : window.mWindowOpFunc = none) (inputs : List α)
    (admissible : Admissible window inputs) :
    (∀ seen, seen <+: inputs → LiveSet window seen) ↔
      CounterFits window inputs := by
  constructor
  · intro liveSets
    unfold CounterFits
    split
    · rename_i size row
      by_contra overflows
      have bounded := size.toNat_lt
      exact not_liveSet_of_largest row (by omega) (by omega)
        (liveSets inputs List.prefix_rfl)
    · trivial
  · intro fits seen start
    exact liveSet_of_fits function (admissible.truncate start)
      (fits.truncate start)

theorem slidingWindow_liveSet_lastInterval :
    (∀ seen, seen <+: [1, 4, 12] → LiveSet (.range id 10 none) seen) ↔
      CounterFits (.range id 10 none) [1, 4, 12] :=
  slidingWindow_liveSet (.range id 10 none) rfl [1, 4, 12] (by
    show (0 : Int) < 10 ∧ (∀ tup ∈ [(1 : Int), 4, 12], 0 ≤ tup) ∧
      [(1 : Int), 4, 12].Pairwise fun first second => first ≤ second
    decide)

/-- 2^32 tuples in a row window of size 2^32 - 1: the counter wraps around to 0
instead of exceeding the size, and the first tuple is not evicted. -/
theorem not_slidingWindow_liveSet :
    Admissible (.row 4294967295 none) (List.replicate (2 ^ 32) 7) ∧
      ¬ LiveSet (.row 4294967295 none) (List.replicate (2 ^ 32) 7) := by
  constructor
  · show 1 ≤ (4294967295 : UInt32).toNat
    decide
  · apply not_liveSet_of_largest rfl (by decide)
    rw [List.length_replicate]

end PipeFabric.SlidingWindow
