import PipeFabric.Library.Lockstep
import PipeFabric.Qop.PeriodicWindow

/-!
# Ticks of the eviction thread

A window with an eviction interval beside an ideal one, whose ticks keep exactly the
tuples that are inside of the window.  The two agree as long as ticks find a range window
with a newest tuple and no tuple that has expired behind one that has not.
-/

namespace PipeFabric.PeriodicWindow

open ChangeStream Published Window Lockstep

variable {α : Type}

/-- The timestamp is a window size or more before that of the newest tuple. -/
def expired (timestamp : α → Int) (size : Int) (newest tup : α) : Bool :=
  timestamp tup ≤ timestamp newest - size

/-- The tuples of a buffer that are inside of the window: the last ones in a row window,
those of the last interval in a range window. -/
def inside (window : Parameters α) (buffer : List α) : List α :=
  match window.mWinSize, window.mTimestampExtractor, buffer.getLast? with
  | .count size, _, _ => buffer.drop (buffer.length - size.toNat)
  | .timestamp size, some timestamp, some newest =>
      buffer.filter fun tup => !expired timestamp size newest tup
  | .timestamp _, _, _ => buffer

/-- The ideal window: nothing goes wrong, and a tick keeps what is inside. -/
def ideal (window : Parameters α) (buffer : List α) : Event α → Option (List α × Unit)
  | .arrival input =>
      some (if input.outdated then buffer else buffer ++ [input.data], ())
  | .tick => some (inside window buffer, ())

/-- A tick finds a range window whose buffer has a newest tuple.  No tuple that has
expired stands behind one that has not, and none has expired as long as the timestamps
are smaller than the window size. -/
def TickFits (window : Parameters α) (buffer : List α) : Prop :=
  ∃ timestamp size newest, window.mTimestampExtractor = some timestamp ∧
    window.mWinSize = .timestamp size ∧ buffer.getLast? = some newest ∧
    (buffer.Pairwise fun first second =>
      expired timestamp size newest second → expired timestamp size newest first) ∧
    (timestamp newest < size → ∀ tup ∈ buffer, expired timestamp size newest tup = false)

/-- The condition on an event. -/
def EventFits (window : Parameters α) (buffer : List α) (event : Event α) : Prop :=
  event = .tick → TickFits window buffer

/-- A prefix is all that satisfies the predicate just when it comes first. -/
theorem dropWhile_eq_filter_iff (drops : α → Bool) (buffer : List α) :
    buffer.dropWhile drops = buffer.filter (fun tup => !drops tup) ↔
      buffer.Pairwise fun first second => drops second → drops first := by
  induction buffer with
  | nil => exact iff_of_true rfl List.Pairwise.nil
  | cons tup buffer induction =>
      rw [List.pairwise_cons]
      by_cases here : drops tup = true
      · rw [List.dropWhile_cons_of_pos here, List.filter_cons_of_neg (by simp [here]), induction]
        exact ⟨fun rest => ⟨fun _ _ _ => here, rest⟩, fun both => both.2⟩
      · rw [List.dropWhile_cons_of_neg here, List.filter_cons_of_pos (by simp [here]),
          List.cons.injEq, and_iff_right rfl, @eq_comm _ buffer, List.filter_eq_self]
        constructor
        · intro every
          have none : ∀ second ∈ buffer, ¬ drops second = true := by
            simpa using every
          exact ⟨fun second member dropped => absurd dropped (none second member),
            List.pairwise_of_forall_mem_list fun _ _ second member dropped =>
              absurd dropped (none second member)⟩
        · intro both second member
          have kept : ¬ drops second = true := fun dropped => here (both.1 second member dropped)
          simpa using kept

/-- What a tick leaves in the buffer of a range window. -/
theorem evictByTime_buffer {window : Parameters α} {timestamp : α → Int} {size : Int}
    {newest : α} (state : State α) (extractor : window.mTimestampExtractor = some timestamp)
    (range : window.mWinSize = .timestamp size)
    (last : state.mTupleBuf.getLast? = some newest) :
    (evictByTime window state).map (fun evicted => evicted.1.mTupleBuf) =
      some (if timestamp newest < size then state.mTupleBuf
        else state.mTupleBuf.dropWhile (expired timestamp size newest)) := by
  unfold evictByTime
  rw [last, extractor, range]
  by_cases early : timestamp newest < size
  · simp only [Option.bind_eq_bind, Option.bind_some, if_pos early,
      if_neg (not_le.mpr early), Option.map_some]
  · simp only [Option.bind_eq_bind, Option.bind_some, if_neg early,
      if_pos (not_lt.mp early), Option.map_some, popWhile_of_tuple]
    rfl

/-- A tick that does not fail is one of a range window that is not empty. -/
theorem evictByTime_eq_some {window : Parameters α} {state : State α}
    {evicted : State α × List α} (succeeded : evictByTime window state = some evicted) :
    ∃ timestamp size newest, window.mTimestampExtractor = some timestamp ∧
      window.mWinSize = .timestamp size ∧ state.mTupleBuf.getLast? = some newest := by
  unfold evictByTime at succeeded
  obtain ⟨newest, last, rest⟩ := Option.bind_eq_some_iff.mp succeeded
  obtain ⟨timestamp, extractor, rest⟩ := Option.bind_eq_some_iff.mp rest
  cases sized : window.mWinSize with
  | count size => simp [sized] at rest
  | timestamp size => exact ⟨timestamp, size, newest, extractor, rfl, last⟩

theorem inside_range {window : Parameters α} {timestamp : α → Int} {size : Int}
    {newest : α} {buffer : List α} (extractor : window.mTimestampExtractor = some timestamp)
    (range : window.mWinSize = .timestamp size) (last : buffer.getLast? = some newest) :
    inside window buffer = buffer.filter fun tup => !expired timestamp size newest tup := by
  unfold inside
  rw [extractor, range, last]

/-- A tick leaves exactly what is inside of the window just when it fits. -/
theorem tick_iff (window : Parameters α) (state : State α) :
    (evictByTime window state).map (fun evicted => evicted.1.mTupleBuf) =
        some (inside window state.mTupleBuf) ↔ TickFits window state.mTupleBuf := by
  constructor
  · intro kept
    obtain ⟨evicted, succeeded, _⟩ := Option.map_eq_some_iff.mp kept
    obtain ⟨timestamp, size, newest, extractor, range, last⟩ := evictByTime_eq_some succeeded
    refine ⟨timestamp, size, newest, extractor, range, last, ?_⟩
    rw [evictByTime_buffer state extractor range last, inside_range extractor range last,
      Option.some.injEq] at kept
    by_cases early : timestamp newest < size
    · rw [if_pos early, eq_comm, List.filter_eq_self] at kept
      have fresh : ∀ tup ∈ state.mTupleBuf, expired timestamp size newest tup = false := by
        simpa using kept
      refine ⟨List.pairwise_of_forall_mem_list ?_, fun _ => fresh⟩
      intro _ _ second member late
      exact absurd (fresh second member) (by simp [late])
    · rw [if_neg early] at kept
      exact ⟨(dropWhile_eq_filter_iff _ _).mp kept, fun smaller => absurd smaller early⟩
  · intro fits
    obtain ⟨timestamp, size, newest, extractor, range, last, ordered, fresh⟩ := fits
    rw [evictByTime_buffer state extractor range last, inside_range extractor range last]
    congr 1
    by_cases early : timestamp newest < size
    · rw [if_pos early, eq_comm, List.filter_eq_self]
      intro tup member
      rw [fresh early tup member]
      rfl
    · rw [if_neg early]
      exact (dropWhile_eq_filter_iff _ _).mpr ordered

/-- Every eviction succeeds and leaves the tuples that are inside of the window. -/
def EvictsSafely (window : Parameters α) (events : List (Event α)) : Prop :=
  Agree (step window) (ideal window) (fun next after => next.1.mTupleBuf = after.1)
    State.empty [] events

/-- For every window with an eviction interval and every interleaving of arrivals and
ticks, the evictions are safe and exact just when every tick finds what it expects. -/
theorem periodicEviction_safe (window : Parameters α) (events : List (Event α)) :
    EvictsSafely window events ↔ Along (ideal window) (EventFits window) [] events := by
  apply agree_iff (fun state buffer => state.mTupleBuf = buffer)
  · intro state before event after related legal fits
    subst related
    cases event with
    | arrival input =>
        obtain rfl := Option.some.inj legal
        have buffer := processDataElement_buffer window state input
        exact ⟨_, rfl, buffer, buffer⟩
    | tick =>
        obtain rfl := Option.some.inj legal
        have kept := (tick_iff window state).mpr (fits rfl)
        obtain ⟨evicted, succeeded, buffer⟩ := Option.map_eq_some_iff.mp kept
        exact ⟨_, congrArg (Option.map _) succeeded, buffer, buffer⟩
  · intro state before event after next related legal stepped alike tick
    subst related tick
    obtain rfl := Option.some.inj legal
    obtain ⟨evicted, succeeded, result⟩ := Option.map_eq_some_iff.mp stepped
    subst result
    apply (tick_iff window state).mp
    rw [succeeded]
    exact congrArg some alike
  · rfl

/-- The eviction thread of a range window wakes up before the first tuple. -/
theorem not_evictsSafely :
    ¬ ∀ (window : Parameters Int) (events : List (Event Int)), EvictsSafely window events := by
  intro safe
  obtain ⟨next, stepped, _⟩ :=
    safe (ofDuration (some id) .RangeWindow 10 none) [.tick] _ rfl
  have failed : step (ofDuration (some id) .RangeWindow 10 none) State.empty .tick = none := rfl
  exact absurd (failed.symm.trans stepped) (by simp)

/-- The thread of a row window calls the eviction function of a range window. -/
example : step (ofSize (some id) .RowWindow 2 none) ⟨[1, 2, 3], 3⟩ .tick = none := rfl

end PipeFabric.PeriodicWindow
