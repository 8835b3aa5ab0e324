import PipeFabric.Aggregates.LiveTuples
import PipeFabric.Windows.Leaving

/-!
# Aggregations behind a window

A sliding window retracts the tuples that leave before it forwards the arriving
one, and a tumbling window retracts all of them.  Whether an aggregate is read
while it is empty is therefore a matter of who stays in the window.
-/

namespace PipeFabric

open ChangeStream Published Window

variable {α K : Type}

/-! ### Which histories are held behind a window -/

variable [DecidableEq α] [DecidableEq K] {op : Operator α} {key : α → K}
  {histories : K → List (Change α) → List (Change α)}

/-- An operator never reads an empty aggregate, and the extrema it is asked for
exist. -/
structure NeverFails (op : Operator α) (stream : List (Change α)) : Prop
    extends NeverEmpty op stream where
  minMax : ∀ (V : Type) [LinearOrder V] (column : α → V),
    (op _ _ ((AggrMinMax V).on column) stream).isSome

/-- Where the live tuples are known, only the held histories matter. -/
theorem Evaluates.neverFails_iff (evaluates : Evaluates op key histories)
    {stream : List (Change α)} {held : List α}
    (tracks : AllHeld histories stream → Tracks key histories stream held) :
    NeverFails op stream ↔ AllHeld histories stream := by
  rw [← evaluates.neverEmpty_iff]
  constructor
  · exact fun fails => fails.toNeverEmpty
  · intro never
    have all := (evaluates.neverEmpty_iff stream).mp never
    refine ⟨never, ?_⟩
    intro V _ column
    exact evaluates.isSome_of_incremental
      ((AggrMinMax.incremental V).on column) all
      fun grpKey => (tracks all grpKey).1

omit [DecidableEq α] in
/-- A stream of fewer than 2^32 elements has extrema wherever a value is read. -/
theorem Evaluates.neverFails_iff_of_short (evaluates : Evaluates op key histories)
    {stream : List (Change α)} (short : stream.length < 2 ^ 32) :
    NeverFails op stream ↔ AllHeld histories stream := by
  rw [← evaluates.neverEmpty_iff]
  constructor
  · exact fun fails => fails.toNeverEmpty
  · intro never
    have all := (evaluates.neverEmpty_iff stream).mp never
    exact ⟨never, fun V _ column => evaluates.minMax_isSome all short column⟩

/-- Every tuple that leaves the window leaves behind a tuple with its key besides
the arriving one, and there are fewer than 2^32 tuples with one key. -/
def LeavesCompany (keep : List α → List α) (key : α → K) (tuples : List α) :
    Prop :=
  ∀ seen data, seen ++ [data] <+: tuples →
    (∀ tuple ∈ leaving keep seen data,
      ∃ other ∈ (contents keep (seen ++ [data])).dropLast,
        key other = key tuple) ∧
    (withKey key (key data) (contents keep (seen ++ [data]))).length < 2 ^ 32

/-- No tuple leaves the tumbling window, and it holds fewer than 2^32 tuples with
one key. -/
def NeverClosed (window : Window α) (key : α → K) (tuples : List α) : Prop :=
  contents window.tumblingKeep tuples = tuples ∧
    ∀ grpKey, (withKey key grpKey tuples).length < 2 ^ 32

namespace SlidingWindow

/-- One arrival at a sliding window: the leaving tuples go, the arriving one
comes. -/
theorem tracks_concat (grow : Histories key histories) {window : Window α}
    (plain : window.mWindowOpFunc = none) (positive : window.Positive)
    {seen : List α} (data : α)
    (tracks : Tracks key histories (changes (processNew window seen).2)
      (contents window.slidingKeep seen)) :
    Tracks key histories (changes (processNew window (seen ++ [data])).2)
        (contents window.slidingKeep (seen ++ [data])) ∧
      (AllHeld histories (changes (processNew window (seen ++ [data])).2) ↔
        AllHeld histories (changes (processNew window seen).2) ∧
          (∀ tuple ∈ leaving window.slidingKeep seen data,
            ∃ other ∈ (contents window.slidingKeep (seen ++ [data])).dropLast,
              key other = key tuple) ∧
          (withKey key (key data)
            (contents window.slidingKeep (seen ++ [data]))).length < 2 ^ 32) := by
  obtain ⟨stays, kept⟩ := slidingKeep_concat positive
    (contents window.slidingKeep seen) data
  rw [← contents_concat window.slidingKeep seen data] at kept
  have evicted := mEvictFun_append window
    ((processNew window seen).1.push_back data)
  have after := processNew_buffer window (seen ++ [data])
  rw [processNew_concat, processDataElement_new] at after
  dsimp only at after
  rw [after, State.push_back, processNew_buffer] at evicted
  have left := leaving_eq evicted
  rw [← left, kept, ← List.append_assoc] at evicted
  have split := List.append_inj_left' evicted rfl
  rw [← split] at tracks
  obtain ⟨emptied, held⟩ := tracks.allHeld_retractAll grow
  rw [changes_concat plain, kept, List.dropLast_concat,
    emptied.allHeld_new grow, held, and_assoc]
  exact ⟨(emptied.new grow data).2, Iff.rfl⟩

theorem tracks_processNew (grow : Histories key histories) {window : Window α}
    (plain : window.mWindowOpFunc = none) (positive : window.Positive)
    (tuples : List α) :
    Tracks key histories (changes (processNew window tuples).2)
      (contents window.slidingKeep tuples) := by
  induction tuples using List.reverseRecOn with
  | nil => exact tracks_nil grow
  | append_singleton seen data induction =>
      exact (tracks_concat grow plain positive data induction).1

theorem allHeld_iff (grow : Histories key histories) {window : Window α}
    (plain : window.mWindowOpFunc = none) (positive : window.Positive)
    (tuples : List α) :
    AllHeld histories (changes (processNew window tuples).2) ↔
      LeavesCompany window.slidingKeep key tuples := by
  refine Transducer.forall_arrivals_iff (fun seen =>
    AllHeld histories (changes (processNew window seen).2)) tuples ?_ ?_
  · intro seen start grpKey started
    have empty := List.prefix_nil.mp start
    rw [empty, grow.nil] at started
    exact absurd rfl started
  · intro seen data _
    exact (tracks_concat grow plain positive data
      (tracks_processNew grow plain positive seen)).2

end SlidingWindow

theorem tracks_insertAll (grow : Histories key histories) (tuples : List α) :
    Tracks key histories (insertAll tuples) tuples := by
  induction tuples using List.reverseRecOn with
  | nil => exact tracks_nil grow
  | append_singleton seen data induction =>
      rw [insertAll_append, insertAll_singleton]
      exact (induction.new grow data).2

theorem allHeld_insertAll (grow : Histories key histories) (tuples : List α) :
    AllHeld histories (insertAll tuples) ↔
      ∀ grpKey, (withKey key grpKey tuples).length < 2 ^ 32 := by
  induction tuples using List.reverseRecOn with
  | nil =>
      constructor
      · intro _ _
        exact Nat.two_pow_pos 32
      · intro _ seen start grpKey started
        rw [List.prefix_nil.mp start, grow.nil] at started
        exact absurd rfl started
  | append_singleton seen data induction =>
      rw [insertAll_append, insertAll_singleton,
        (tracks_insertAll grow seen).allHeld_new grow, induction]
      constructor
      · intro every grpKey
        obtain ⟨before, newest⟩ := every
        by_cases same : key data = grpKey
        · rw [← same]
          exact newest
        · rw [withKey_concat_other same]
          exact before grpKey
      · intro all
        refine ⟨?_, all (key data)⟩
        intro grpKey
        refine lt_of_le_of_lt ?_ (all grpKey)
        unfold withKey
        rw [List.filter_append, List.length_append]
        exact Nat.le_add_right _ _

namespace TumblingWindow

omit [DecidableEq α] in
/-- Until a window is closed the tuples pass as they are. -/
theorem changes_full {window : Window α}
    (plain : window.mWindowOpFunc = none) {tuples : List α}
    (full : contents window.tumblingKeep tuples = tuples) :
    changes (processNew window tuples).2 = insertAll tuples := by
  induction tuples using List.reverseRecOn with
  | nil => rfl
  | append_singleton seen data induction =>
      have before := contents_full window.tumblingKeep_suffix full
        (List.prefix_append seen [data])
      have nothing : leaving window.tumblingKeep seen data = [] := by
        apply leaving_eq
        rw [full, before, List.nil_append]
      rw [changes_concat plain, induction before, nothing, insertAll_append,
        insertAll_singleton, retractAll_nil, List.append_nil]

/-- Closing a window retracts all tuples before it, so no history is left with a
live tuple. -/
theorem not_allHeld_of_closed (grow : Histories key histories)
    {window : Window α} (plain : window.mWindowOpFunc = none)
    {seen tuples : List α} {data : α} (start : seen ++ [data] <+: tuples)
    (held : contents window.tumblingKeep seen = seen)
    (gone : contents window.tumblingKeep (seen ++ [data]) ≠ seen ++ [data])
    (some : seen ≠ []) :
    ¬ AllHeld histories (changes (processNew window tuples).2) := by
  intro all
  have whole := all.truncate (changes_mono (processNew_mono window start))
  rw [changes_concat plain, changes_full plain held] at whole
  have inside : seen <+: leaving window.tumblingKeep seen data := by
    rw [contents_concat, held] at gone
    rcases window.tumblingKeep_cases seen data with
      kept | ⟨closed, _⟩ | ⟨closed, _⟩
    · exact absurd kept gone
    · have left : leaving window.tumblingKeep seen data = seen ++ [data] := by
        apply leaving_eq
        rw [contents_concat, held, closed, List.append_nil]
      rw [left]
      exact List.prefix_append _ _
    · have left : leaving window.tumblingKeep seen data = seen := by
        apply leaving_eq
        rw [contents_concat, held, closed]
      rw [left]
  obtain ⟨rest, split⟩ := inside
  have retracted : insertAll seen ++ retractAll seen <+:
      insertAll seen ++ retractAll (leaving window.tumblingKeep seen data) ++
        [⟨data, false⟩] := by
    rw [← split]
    unfold retractAll
    rw [List.map_append, List.append_assoc, List.append_assoc]
    apply (List.prefix_append_right_inj _).mpr
    exact List.prefix_append _ _
  have tracks := tracks_insertAll grow seen
  rw [← List.append_nil seen] at tracks
  have remaining := ((tracks.allHeld_retractAll grow).2.mp
    (by simpa using whole.truncate retracted)).2
  obtain ⟨first, member⟩ := List.exists_mem_of_ne_nil seen some
  obtain ⟨other, present, _⟩ := remaining first member
  exact absurd present List.not_mem_nil

omit [DecidableEq α] in
/-- A window is closed by its first tuple only if it has room for one tuple. -/
theorem first_closed {window : Window α} {tuples : List α}
    (lost : contents window.tumblingKeep tuples ≠ tuples)
    (many : window.mWinSize ≠ .RowWindow 1) :
    ∃ seen data, seen ++ [data] <+: tuples ∧
      contents window.tumblingKeep seen = seen ∧
      contents window.tumblingKeep (seen ++ [data]) ≠ seen ++ [data] ∧
      seen ≠ [] := by
  obtain ⟨seen, data, start, held, gone⟩ := first_leaving lost
  refine ⟨seen, data, start, held, gone, ?_⟩
  intro empty
  subst empty
  rcases window.tumblingKeep_cases [] data with
    kept | ⟨_, size, sizeIs, full⟩ | ⟨last, _⟩
  · exact gone kept
  · apply many
    rw [sizeIs]
    have one : size = 1 := UInt32.toNat_inj.mp full.symm
    rw [one]
  · exact gone last

theorem allHeld_iff (grow : Histories key histories) {window : Window α}
    (plain : window.mWindowOpFunc = none)
    (many : window.mWinSize ≠ .RowWindow 1) (tuples : List α) :
    AllHeld histories (changes (processNew window tuples).2) ↔
      contents window.tumblingKeep tuples = tuples ∧
        ∀ grpKey, (withKey key grpKey tuples).length < 2 ^ 32 := by
  by_cases full : contents window.tumblingKeep tuples = tuples
  · rw [changes_full plain full, allHeld_insertAll grow]
    exact ⟨fun small => ⟨full, small⟩, fun both => both.2⟩
  · obtain ⟨seen, data, start, held, gone, some⟩ := first_closed full many
    constructor
    · intro all
      exact absurd all (not_allHeld_of_closed grow plain start held gone some)
    · intro both
      exact absurd both.1 full

theorem neverFails_iff_of_many (evaluates : Evaluates op key histories)
    {window : Window α} (plain : window.mWindowOpFunc = none)
    (many : window.mWinSize ≠ .RowWindow 1) (tuples : List α) :
    NeverFails op (changes (processNew window tuples).2) ↔
      NeverClosed window key tuples := by
  have held := allHeld_iff evaluates.grow plain many tuples
  rw [evaluates.neverFails_iff, held]
  · rfl
  · intro all
    rw [changes_full plain (held.mp all).1]
    exact tracks_insertAll evaluates.grow tuples

/-! ### Windows for one tuple -/

section

variable {window : Window α} (plain : window.mWindowOpFunc = none)
  (one : window.mWinSize = .RowWindow 1)

omit [DecidableEq α] in
include one in
theorem contents_one (seen : List α) : contents window.tumblingKeep seen = [] := by
  induction seen using List.reverseRecOn with
  | nil => rfl
  | append_singleton seen data induction =>
      rw [contents_concat, induction]
      unfold tumblingKeep
      rw [one]
      rfl

omit [DecidableEq α] in
include plain one in
/-- Every tuple is retracted before it is forwarded. -/
theorem changes_one (seen : List α) (data : α) :
    changes (processNew window (seen ++ [data])).2 =
      changes (processNew window seen).2 ++ [⟨data, true⟩] ++
        [⟨data, false⟩] := by
  have left : leaving window.tumblingKeep seen data = [data] := by
    apply leaving_eq
    rw [contents_one one, contents_one one]
    rfl
  rw [changes_concat plain, left]
  rfl

omit [DecidableEq α] in
include plain one in
/-- An aggregation takes in the retraction of the first tuple. -/
theorem not_allHeld_one (first : α) (rest : List α) :
    ¬ AllHeld (fun (_ : Unit) seen => seen)
      (changes (processNew window (first :: rest)).2) := by
  intro all
  have start : [first] <+: first :: rest := List.prefix_append [first] rest
  have stream := changes_one plain one [] first
  have retracted : [⟨first, true⟩] <+:
      changes (processNew window ([] ++ [first])).2 := by
    rw [stream]
    exact List.prefix_append _ _
  have held := all [⟨first, true⟩]
    (retracted.trans (changes_mono (processNew_mono window start))) ()
    (List.cons_ne_nil _ _)
  exact absurd held.1 (Nat.not_lt_zero _)

include plain one in
theorem neverFails_aggregation_one (tuples : List α) :
    NeverFails Aggregation.published (changes (processNew window tuples).2) ↔
      NeverClosed window (fun _ => ()) tuples := by
  have whole :
      Evaluates Aggregation.published (fun _ : α => ()) fun _ seen => seen :=
    Aggregation.evaluates
  cases tuples with
  | nil =>
      constructor
      · intro _
        exact ⟨rfl, fun _ => Nat.two_pow_pos 32⟩
      · intro _
        refine (whole.neverFails_iff fun _ => tracks_nil whole.grow).mpr ?_
        intro seen start _ started
        exact absurd (List.prefix_nil.mp start) started
  | cons first rest =>
      constructor
      · intro fails
        exact absurd ((whole.neverEmpty_iff _).mp fails.toNeverEmpty)
          (not_allHeld_one plain one first rest)
      · intro closed
        have lost := closed.1
        rw [contents_one one] at lost
        exact absurd lost (List.cons_ne_nil _ _).symm

variable (mGroupByFunc : α → K)

/-- The retraction of a tuple whose group has no history is passed over. -/
theorem tracks_ignored {seen : List (Change α)} {held : List α} {data : α}
    (tracks : Tracks mGroupByFunc (GroupedAggregation.sinceFirst mGroupByFunc)
      seen held)
    (silent : GroupedAggregation.sinceFirst mGroupByFunc (mGroupByFunc data)
      seen = []) :
    Tracks mGroupByFunc (GroupedAggregation.sinceFirst mGroupByFunc)
        (seen ++ [⟨data, true⟩]) held ∧
      (AllHeld (GroupedAggregation.sinceFirst mGroupByFunc)
          (seen ++ [⟨data, true⟩]) ↔
        AllHeld (GroupedAggregation.sinceFirst mGroupByFunc) seen) := by
  have still : GroupedAggregation.sinceFirst mGroupByFunc (mGroupByFunc data)
      (seen ++ [⟨data, true⟩]) = [] :=
    (GroupedAggregation.sinceFirst_self seen ⟨data, true⟩).trans
      (if_pos ⟨silent, rfl⟩)
  constructor
  · intro grpKey
    by_cases same : mGroupByFunc data = grpKey
    · subst same
      rw [still, ← silent]
      exact tracks (mGroupByFunc data)
    · rw [GroupedAggregation.sinceFirst_other seen (by exact same)]
      exact tracks grpKey
  · rw [allHeld_concat (GroupedAggregation.histories_sinceFirst mGroupByFunc)]
    constructor
    · intro both
      exact both.1
    · intro before
      exact ⟨before, fun started => absurd still started⟩

omit [DecidableEq α] in
theorem length_withKey (grpKey : K) (tuples : List α) :
    (withKey mGroupByFunc grpKey tuples).length =
      (tuples.map mGroupByFunc).count grpKey := by
  unfold withKey
  rw [List.count_eq_countP, List.countP_map, List.countP_eq_length_filter]
  rfl

include plain one in
/-- A group with one tuple is read after it.  The retraction of a second tuple takes
the first one. -/
theorem allHeld_one (tuples : List α) :
    (AllHeld (GroupedAggregation.sinceFirst mGroupByFunc)
        (changes (processNew window tuples).2) ↔
      (tuples.map mGroupByFunc).Nodup) ∧
    ((tuples.map mGroupByFunc).Nodup →
      Tracks mGroupByFunc (GroupedAggregation.sinceFirst mGroupByFunc)
        (changes (processNew window tuples).2) tuples) := by
  have grow := GroupedAggregation.histories_sinceFirst mGroupByFunc
  induction tuples using List.reverseRecOn with
  | nil =>
      refine ⟨?_, fun _ => tracks_nil grow⟩
      constructor
      · intro _
        exact List.nodup_nil
      · intro _ part start grpKey started
        rw [List.prefix_nil.mp start] at started
        exact absurd rfl started
  | append_singleton seen data induction =>
      obtain ⟨allHeld, tracksSeen⟩ := induction
      have distinct : ((seen ++ [data]).map mGroupByFunc).Nodup ↔
          (seen.map mGroupByFunc).Nodup ∧
            mGroupByFunc data ∉ seen.map mGroupByFunc := by
        rw [List.map_append, List.map_singleton, ← List.concat_eq_append,
          List.nodup_concat, and_comm]
      rw [changes_one plain one, distinct]
      by_cases before : (seen.map mGroupByFunc).Nodup
      case neg =>
        constructor
        · constructor
          · intro all
            rw [List.append_assoc] at all
            exact absurd (allHeld.mp (all.truncate (List.prefix_append _ _)))
              before
          · intro both
            exact absurd both.1 before
        · intro both
          exact absurd both.1 before
      have held := allHeld.mpr before
      have tracks := tracksSeen before
      by_cases known : mGroupByFunc data ∈ seen.map mGroupByFunc
      · -- the only tuple of the group is taken back
        refine ⟨?_, fun both => absurd known both.2⟩
        constructor
        · intro all
          have one : (withKey mGroupByFunc (mGroupByFunc data) seen).length =
              1 := by
            rw [length_withKey]
            exact List.count_eq_one_of_mem before known
          obtain ⟨wellFormed, liveIs⟩ := tracks (mGroupByFunc data)
          have counted := wellFormed.card_live
          rw [liveIs, Multiset.coe_card, one] at counted
          have started : GroupedAggregation.sinceFirst mGroupByFunc
              (mGroupByFunc data) (changes (processNew window seen).2) ≠ [] := by
            intro empty
            rw [empty, insertions_nil, retractions_nil] at counted
            exact absurd counted (by simp)
          have grown : GroupedAggregation.sinceFirst mGroupByFunc
              (mGroupByFunc data)
              (changes (processNew window seen).2 ++ [⟨data, true⟩]) =
              GroupedAggregation.sinceFirst mGroupByFunc (mGroupByFunc data)
                (changes (processNew window seen).2) ++ [⟨data, true⟩] := by
            rcases grow.self (changes (processNew window seen).2) ⟨data, true⟩
              with grown | ⟨_, silent, _⟩
            · exact grown
            · exact absurd silent started
          have more := (all _ (List.prefix_append _ _) (mGroupByFunc data)
            (by rw [grown]; simp)).1
          rw [grown] at more
          simp only [insertions_append, retractions_append,
            insertions_cons_outdated, retractions_cons_outdated, insertions_nil,
            retractions_nil, List.append_nil, List.length_append,
            List.length_singleton] at more
          omega
        · intro both
          exact absurd known both.2
      · have none := List.count_eq_zero_of_not_mem known
        have silent : GroupedAggregation.sinceFirst mGroupByFunc
            (mGroupByFunc data) (changes (processNew window seen).2) = [] := by
          by_contra started
          have positive := ((tracks.held_iff (mGroupByFunc data)).mp
            (held _ List.prefix_rfl _ started)).1
          rw [length_withKey, none] at positive
          exact Nat.lt_irrefl 0 positive
        obtain ⟨passed, same⟩ := tracks_ignored mGroupByFunc tracks silent
        refine ⟨?_, fun _ => (passed.new grow data).2⟩
        rw [passed.allHeld_new grow data, same, length_withKey, List.map_append,
          List.count_append, none]
        constructor
        · intro _
          exact ⟨before, known⟩
        · intro _
          refine ⟨held, ?_⟩
          rw [List.map_singleton, List.count_singleton_self]
          decide

include plain one in
theorem neverFails_grouped_one (tuples : List α) :
    NeverFails (GroupedAggregation.published mGroupByFunc)
        (changes (processNew window tuples).2) ↔
      (tuples.map mGroupByFunc).Nodup := by
  obtain ⟨held, tracks⟩ := allHeld_one plain one mGroupByFunc tuples
  rw [(GroupedAggregation.evaluates mGroupByFunc).neverFails_iff, held]
  exact fun all => tracks (held.mp all)

end

end TumblingWindow

open TumblingWindow in
/-- Neither aggregation reads an empty aggregate exactly when the histories of its
states have more insertions than retractions, though fewer than 2^32 more, whenever
they have started.  Behind a window without a function this depends on its tuples:
whoever leaves a sliding window must leave company, and a tumbling window must not
be closed, unless it is closed by each tuple and no group gets a second one. -/
theorem window_neverFails (window : Window α) (mGroupByFunc : α → K)
    (tuples : List α) :
    (∀ stream : List (Change α),
      (NeverEmpty Aggregation.published stream ↔
        AllHeld (fun (_ : Unit) seen => seen) stream) ∧
      (NeverEmpty (GroupedAggregation.published mGroupByFunc) stream ↔
        AllHeld (GroupedAggregation.sinceFirst mGroupByFunc) stream) ∧
      (stream.length < 2 ^ 32 →
        (NeverFails Aggregation.published stream ↔
          NeverEmpty Aggregation.published stream) ∧
        (NeverFails (GroupedAggregation.published mGroupByFunc) stream ↔
          NeverEmpty (GroupedAggregation.published mGroupByFunc) stream))) ∧
    (window.mWindowOpFunc = none → window.Positive →
      (NeverFails Aggregation.published
          (changes (SlidingWindow.processNew window tuples).2) ↔
        LeavesCompany window.slidingKeep (fun _ => ()) tuples) ∧
      (NeverFails (GroupedAggregation.published mGroupByFunc)
          (changes (SlidingWindow.processNew window tuples).2) ↔
        LeavesCompany window.slidingKeep mGroupByFunc tuples) ∧
      (NeverFails Aggregation.published
          (changes (TumblingWindow.processNew window tuples).2) ↔
        NeverClosed window (fun _ => ()) tuples) ∧
      (NeverFails (GroupedAggregation.published mGroupByFunc)
          (changes (TumblingWindow.processNew window tuples).2) ↔
        NeverClosed window mGroupByFunc tuples ∨
          window.mWinSize = .RowWindow 1 ∧
            (tuples.map mGroupByFunc).Nodup)) := by
  have whole :
      Evaluates Aggregation.published (fun _ : α => ()) fun _ seen => seen :=
    Aggregation.evaluates
  have grouped := GroupedAggregation.evaluates mGroupByFunc
  refine ⟨?_, ?_⟩
  · intro stream
    refine ⟨whole.neverEmpty_iff stream, grouped.neverEmpty_iff stream, ?_⟩
    intro short
    rw [whole.neverEmpty_iff, grouped.neverEmpty_iff]
    exact ⟨whole.neverFails_iff_of_short short,
      grouped.neverFails_iff_of_short short⟩
  · intro plain positive
    refine ⟨?_, ?_, ?_, ?_⟩
    · rw [whole.neverFails_iff fun _ =>
          SlidingWindow.tracks_processNew whole.grow plain positive tuples,
        SlidingWindow.allHeld_iff whole.grow plain positive]
    · rw [grouped.neverFails_iff fun _ =>
          SlidingWindow.tracks_processNew grouped.grow plain positive tuples,
        SlidingWindow.allHeld_iff grouped.grow plain positive]
    · by_cases one : window.mWinSize = .RowWindow 1
      · exact neverFails_aggregation_one plain one tuples
      · exact neverFails_iff_of_many whole plain one tuples
    · by_cases one : window.mWinSize = .RowWindow 1
      · rw [neverFails_grouped_one plain one]
        constructor
        · intro distinct
          exact Or.inr ⟨one, distinct⟩
        · intro either
          rcases either with ⟨full, _⟩ | ⟨_, distinct⟩
          · rw [← full, contents_one one]
            exact List.nodup_nil
          · exact distinct
      · rw [neverFails_iff_of_many grouped plain one]
        constructor
        · exact Or.inl
        · intro either
          exact either.resolve_right fun both => one both.1

/-- Two tuples pass a tumbling window for three. -/
theorem window_neverFails_filling :
    NeverFails (GroupedAggregation.published fun data : Nat => data % 2)
      (changes (TumblingWindow.processNew (Window.row 3 none) [1, 2]).2) := by
  have claim := window_neverFails (Window.row 3 none)
    (fun data : Nat => data % 2) [1, 2]
  obtain ⟨_, _, _, tumbling⟩ := claim.2 rfl (by decide)
  refine tumbling.mpr (Or.inl ⟨by decide, ?_⟩)
  intro grpKey
  exact lt_of_le_of_lt (List.length_filter_le _ _) (by decide)

/-- A sliding window for one tuple retracts it before the next one comes, and
both aggregations divide by zero. -/
theorem not_window_neverFails :
    (Window.row 1 none : Window Nat).Positive ∧
    changes (SlidingWindow.processNew (Window.row 1 none) [1, 2]).2 =
      [⟨1, false⟩, ⟨1, true⟩, ⟨2, false⟩] ∧
    Aggregation.published _ _ (AggrAvg.on fun _ : Nat => 0)
      (changes (SlidingWindow.processNew (Window.row 1 none) [1, 2]).2) =
        none ∧
    ¬ NeverFails Aggregation.published
      (changes (SlidingWindow.processNew (Window.row 1 none) [1, 2]).2) ∧
    ¬ NeverFails (GroupedAggregation.published fun _ : Nat => ())
      (changes (SlidingWindow.processNew (Window.row 1 none) [1, 2]).2) := by
  refine ⟨by decide, by decide, by decide, ?_, ?_⟩
  · intro fails
    exact absurd (fails.avg fun _ => 0) (by decide)
  · intro fails
    exact absurd (fails.avg fun _ => 0) (by decide)

end PipeFabric
