import Mathlib.Algebra.Field.Rat
import Mathlib.Algebra.Order.Ring.Rat
import PipeFabric.Aggregates.Median
import PipeFabric.Library.Lockstep

/-!
# The median of the live values

A change keeps the iterator of `AggrMedian` at the lower median just when it does not
have to move between the copies of one value.  Any other move leads to something that is
no median, and the only live value cannot be retracted.
-/

namespace PipeFabric.AggrMedian

open ChangeStream OrderStatistics Lockstep

/-! ### Arrivals -/

section

variable {V R : Type} [LinearOrder V] [LinearOrder R] {arithmetic : ExactMean V R}
  {live : Multiset V} {state : State V} {middle data : V} {copy : Nat}

/-- The members after an arrival and before the iterator moves. -/
def added (live : Multiset V) (state : State V) (data : V) : State V :=
  { state with
    mapElement := state.mapElement.insert data (UInt32.ofNat ((data ::ₘ live).count data))
    total := state.total + 1 }

theorem iterate_arrival (tracks : Tracks live state) (some : live ≠ 0) (data : V) :
    iterate state data false = moveAfter (added live state data) data := by
  have positive := Multiset.card_pos.mpr some
  have total := tracks.total
  unfold iterate added
  rw [if_neg Bool.false_ne_true, tracks.counts data, Multiset.count_cons_self]
  by_cases present : data ∈ live
  · rw [if_pos present, UInt32.ofNat_add]
    rfl
  · rw [if_neg present, Multiset.count_eq_zero_of_notMem present]
    exact if_neg (show ¬ state.total + 1 = 1 by omega)

theorem Points.added (points : Points live state middle copy)
    (small : (data ::ₘ live).card < 2 ^ 31) :
    Points (data ::ₘ live) (added live state data) middle copy where
  counts := points.counts.add data
  small := small
  mapIt := points.mapIt
  elemBefore := points.elemBefore
  inside := Nat.lt_of_lt_of_le points.inside (Multiset.count_le_count_cons middle data live)

/-- The first arrival. -/
theorem tracks_first (tracks : Tracks (0 : Multiset V) state) (data : V) :
    ∃ next, iterate state data false = some next ∧ Tracks (data ::ₘ 0) next := by
  have one : Multiset.count data (data ::ₘ 0) = 1 := by
    rw [Multiset.count_cons_self, Multiset.count_zero]
  have counts : ValueCounters.Counts (state.mapElement.insert data 1) (data ::ₘ 0) := by
    have more := tracks.counts.add data
    rwa [one] at more
  have first : firstKey (state.mapElement.insert data 1).keys = some data := by
    have entries : (state.mapElement.insert data 1).keys.Nonempty :=
      ⟨data, Finmap.mem_keys.mpr (Finmap.mem_insert.mpr (Or.inl rfl))⟩
    obtain ⟨key, found⟩ := exists_firstKey entries
    have member := (firstKey_eq_some found).1
    rw [ValueCounters.Counts.keys counts] at member
    simp only [Multiset.cons_zero, Multiset.toFinset_singleton, Finset.mem_singleton] at member
    rw [found, member]
  have total := tracks.total
  have absent : state.mapElement.lookup data = none := by
    rw [tracks.counts data, if_neg (Multiset.notMem_zero data)]
  refine ⟨{ state with
      mapElement := state.mapElement.insert data 1
      total := state.total + 1
      mapIt := some data
      elemBefore := 0 }, ?_, ?_⟩
  · unfold iterate
    rw [if_neg Bool.false_ne_true, absent]
    simp only [total, Multiset.card_zero, Nat.cast_zero, zero_add, if_true, first]
  · refine ⟨counts, ?_, ?_, ?_⟩
    · rw [Multiset.card_cons, Multiset.card_zero]
      exact Nat.one_lt_two_pow (by decide)
    · rw [Multiset.card_cons, Multiset.card_zero, total]
      rfl
    · intro _
      refine ⟨data, 0, ⟨counts, ?_, rfl, rfl, ?_⟩, ?_⟩
      · rw [Multiset.card_cons, Multiset.card_zero]
        exact Nat.one_lt_two_pow (by decide)
      · rw [one]
        exact Nat.one_pos
      · rw [below_cons, if_neg (lt_irrefl data), Multiset.card_cons, Multiset.card_zero]
        rfl

/-- An arrival left of the lower median leads to an even number of values only from the
first copy, and one that is not left of it to an odd number only from the last copy. -/
def ArrivalFits (live : Multiset V) (middle : V) (copy : Nat) (data : V) : Prop :=
  (live.card % 2 = 1 → data < middle → copy = 0) ∧
    (live.card % 2 = 0 → middle ≤ data → copy + 1 = (data ::ₘ live).count middle)

theorem tracks_arrival (tracks : Tracks live state) (some : live ≠ 0)
    (points : Points live state middle copy)
    (position : below live middle + copy = (live.card - 1) / 2)
    (small : (data ::ₘ live).card < 2 ^ 31) (fits : ArrivalFits live middle copy data) :
    ∃ next, iterate state data false = Option.some next ∧ Tracks (data ::ₘ live) next := by
  have pointsAdded : Points (data ::ₘ live) (added live state data) middle copy :=
    points.added small
  have positive := Multiset.card_pos.mpr some
  have total := tracks.total
  have card := Multiset.card_cons data live
  have shifted := below_cons data middle live
  have totalAdded : (added live state data).total = (data ::ₘ live).card := by
    rw [card, Nat.cast_add, ← total]
    rfl
  rw [iterate_arrival tracks some]
  unfold moveAfter
  simp only [pointsAdded.entry, Option.bind_eq_bind, Option.bind_some]
  by_cases left : data < middle
  · rw [if_pos left] at shifted
    by_cases odd : live.card % 2 = 1
    · rw [if_pos ⟨by omega, left⟩]
      have first := fits.1 odd left
      obtain ⟨previous, moved, present, _, ranks⟩ :=
        pointsAdded.decrement_first first (by omega)
      have copies := Multiset.count_pos.mpr present
      refine ⟨_, moved, pointsAdded.counts, small, totalAdded, fun _ => ?_⟩
      exact ⟨previous, _, ⟨pointsAdded.counts, small, rfl, rfl, by omega⟩, by omega⟩
    · rw [if_neg (by omega), if_neg fun both => both.2 left]
      refine ⟨_, rfl, pointsAdded.counts, small, totalAdded, fun _ => ?_⟩
      exact ⟨middle, copy, pointsAdded, by omega⟩
  · rw [if_neg left] at shifted
    by_cases odd : live.card % 2 = 1
    · rw [if_neg fun both => left both.2, if_neg (by omega)]
      refine ⟨_, rfl, pointsAdded.counts, small, totalAdded, fun _ => ?_⟩
      exact ⟨middle, copy, pointsAdded, by omega⟩
    · rw [if_neg (by omega), if_pos ⟨by omega, left⟩]
      have last := fits.2 (by omega) (not_lt.mp left)
      obtain ⟨next, moved, present, _, ranks⟩ :=
        pointsAdded.increment_last last (by omega)
      refine ⟨_, moved, pointsAdded.counts, small, totalAdded, fun _ => ?_⟩
      exact ⟨next, 0, ⟨pointsAdded.counts, small, rfl, rfl, Multiset.count_pos.mpr present⟩,
        by omega⟩

theorem arrivalFits_of_median (tracks : Tracks live state) (some : live ≠ 0)
    (points : Points live state middle copy)
    (position : below live middle + copy = (live.card - 1) / 2)
    (small : (data ::ₘ live).card < 2 ^ 31) {next : State V}
    (iterated : iterate state data false = Option.some next) {result : R}
    (valued : value arithmetic next = Option.some result)
    (median : IsMedian arithmetic (data ::ₘ live) result) :
    ArrivalFits live middle copy data := by
  have pointsAdded : Points (data ::ₘ live) (added live state data) middle copy :=
    points.added small
  have positive := Multiset.card_pos.mpr some
  have total := tracks.total
  have card := Multiset.card_cons data live
  have shifted := below_cons data middle live
  have inside := pointsAdded.inside
  have totalAdded : (added live state data).total = (data ::ₘ live).card := by
    rw [card, Nat.cast_add, ← total]
    rfl
  rw [iterate_arrival tracks some] at iterated
  unfold moveAfter at iterated
  simp only [pointsAdded.entry, Option.bind_eq_bind, Option.bind_some] at iterated
  constructor
  · intro odd left
    by_contra later
    rw [if_pos ⟨by omega, left⟩] at iterated
    rw [if_pos left] at shifted
    obtain ⟨previous, rfl, _, before⟩ :=
      pointsAdded.decrement_later (Nat.pos_of_ne_zero later) iterated
    have located : AtRank (data ::ₘ live) (((data ::ₘ live).card - 1) / 2) middle (copy - 1) :=
      ⟨by omega, by omega⟩
    exact not_median_of_even valued pointsAdded.counts totalAdded Multiset.cons_ne_zero
      (by omega) rfl before located median
  · intro even right
    by_contra earlier
    rw [if_neg (by rw [not_and]; omega), if_pos ⟨by omega, not_lt.mpr right⟩] at iterated
    rw [if_neg (not_lt.mpr right)] at shifted
    obtain rfl := pointsAdded.increment_earlier (by omega) iterated
    have located : AtRank (data ::ₘ live) ((data ::ₘ live).card / 2) middle (copy + 1) :=
      ⟨by omega, by omega⟩
    have same := mapIt_of_odd valued median totalAdded (by omega) located
    exact absurd (following_eq_some pointsAdded.counts same).2.1 (lt_irrefl middle)

end

/-! ### Retractions -/

section

variable {V R : Type} [LinearOrder V] [LinearOrder R] {arithmetic : ExactMean V R}
  {rest : Multiset V} {state : State V} {middle data : V} {copy : Nat}

theorem iterate_retraction (counts : state.mapElement.Counts (data ::ₘ rest)) :
    iterate state data true = (moveBefore state data).bind fun moved =>
      remove moved data (UInt32.ofNat ((data ::ₘ rest).count data)) := by
  unfold iterate
  rw [if_pos rfl, counts.lookup_mem (Multiset.mem_cons_self data rest)]

/-- Where the iterator is for the change of the map. -/
theorem moveBefore_eq {live : Multiset V} (points : Points live state middle copy)
    (total : state.total = live.card) (data : V) :
    moveBefore state data =
      if live.card % 2 = 1 then
        if data < middle then some state else decrementMap state
      else if data < middle ∨ data = middle ∧ copy + 1 = live.count middle then
        incrementMap state
      else some state := by
  unfold moveBefore
  simp only [points.entry, points.atLastCopy, points.mapIt, Option.bind_eq_bind,
    Option.bind_some, Option.some.injEq, decide_eq_true_eq]
  by_cases same : middle = data
  · subst same
    simp only [if_true, lt_irrefl, if_false, false_or, true_and]
    by_cases odd : live.card % 2 = 1
    · rw [if_pos (by omega), if_pos odd]
    · rw [if_neg (by omega), if_neg odd]
  · have other : ¬ data = middle := fun equal => same equal.symm
    simp only [same, if_false, other, false_and, or_false]
    by_cases left : data < middle
    · by_cases odd : live.card % 2 = 1
      · rw [if_neg (fun both => both.2 left), if_neg (by omega), if_pos odd, if_pos left]
      · rw [if_neg (fun both => both.2 left), if_pos ⟨by omega, left⟩, if_neg odd, if_pos left]
    · by_cases odd : live.card % 2 = 1
      · rw [if_pos ⟨by omega, left⟩, if_pos odd, if_neg left]
      · rw [if_neg (by omega), if_neg (fun both => left both.2), if_neg odd, if_neg left]

/-- The change of the map, which must not take the entry of the iterator. -/
theorem remove_eq (counts : state.mapElement.Counts (data ::ₘ rest))
    (small : (data ::ₘ rest).card < 2 ^ 31) (total : state.total = (data ::ₘ rest).card)
    (some : rest ≠ 0) :
    ∃ mapElement : ValueCounters V, mapElement.Counts rest ∧
      remove state data (UInt32.ofNat ((data ::ₘ rest).count data)) =
        if state.mapIt = Option.some data ∧ data ∉ rest then none
        else Option.some { state with
          mapElement := mapElement
          total := state.total - 1 } := by
  have positive := Multiset.card_pos.mpr some
  have bounded := Multiset.count_le_card data (data ::ₘ rest)
  have copies := Multiset.count_cons_self data rest
  have card := Multiset.card_cons data rest
  have single : UInt32.ofNat ((data ::ₘ rest).count data) = 1 ↔ data ∉ rest := by
    rw [← Multiset.count_eq_zero, ← UInt32.toNat_inj, UInt32.toNat_ofNat',
      Nat.mod_eq_of_lt (by omega), UInt32.toNat_one]
    omega
  unfold remove
  by_cases present : data ∈ rest
  · refine ⟨_, counts.take present, ?_⟩
    rw [if_neg (fun last => single.mp last present), if_neg (fun both => both.2 present), copies,
      UInt32.ofNat_add, show UInt32.ofNat 1 = 1 from rfl, add_sub_cancel_right]
  · refine ⟨_, counts.drop present, ?_⟩
    rw [if_pos (single.mpr present)]
    simp only [present, not_false_eq_true, and_true]
    exact if_neg (show ¬ state.total - 1 = 0 by omega)

/-- A retraction that is not right of the lower median leads to an even number of values
only from the first copy, and one left of it to an odd number only from the last copy.
The only value cannot be retracted. -/
def RetractionFits (live : Multiset V) (middle : V) (copy : Nat) (data : V) : Prop :=
  live.card ≠ 1 ∧ (live.card % 2 = 1 → middle ≤ data → copy = 0) ∧
    (live.card % 2 = 0 → data < middle → copy + 1 = live.count middle)

/-- The state after a retraction, when the iterator has come to a value that stays. -/
theorem tracks_removed (counts : state.mapElement.Counts (data ::ₘ rest))
    (small : (data ::ₘ rest).card < 2 ^ 31) (total : state.total = (data ::ₘ rest).card)
    (some : rest ≠ 0) (mapIt : state.mapIt = Option.some middle)
    (elemBefore : state.elemBefore = Int32.ofNat copy)
    (located : AtRank rest ((rest.card - 1) / 2) middle copy) :
    ∃ next, remove state data (UInt32.ofNat ((data ::ₘ rest).count data)) =
      Option.some next ∧ Tracks rest next := by
  have card := Multiset.card_cons data rest
  obtain ⟨mapElement, counted, removed⟩ := remove_eq counts small total some
  have stays : ¬ (state.mapIt = Option.some data ∧ data ∉ rest) := by
    intro both
    obtain rfl := Option.some.inj (mapIt.symm.trans both.1)
    exact both.2 located.mem
  rw [if_neg stays] at removed
  have less : rest.card < 2 ^ 31 := by omega
  refine ⟨_, removed, counted, less, ?_, fun _ => ?_⟩
  · simp only [total, card]
    omega
  · exact ⟨middle, copy, ⟨counted, less, mapIt, elemBefore, located.2⟩, located.1⟩

theorem tracks_retraction (tracks : Tracks (data ::ₘ rest) state) (some : rest ≠ 0)
    (points : Points (data ::ₘ rest) state middle copy)
    (position : below (data ::ₘ rest) middle + copy = ((data ::ₘ rest).card - 1) / 2)
    (fits : RetractionFits (data ::ₘ rest) middle copy data) :
    ∃ next, iterate state data true = Option.some next ∧ Tracks rest next := by
  have positive := Multiset.card_pos.mpr some
  have total := tracks.total
  have small := tracks.small
  have card := Multiset.card_cons data rest
  have shifted := below_cons data middle rest
  have inside := points.inside
  rw [iterate_retraction tracks.counts, moveBefore_eq points total]
  by_cases odd : (data ::ₘ rest).card % 2 = 1
  · rw [if_pos odd]
    by_cases left : data < middle
    · rw [if_pos left] at shifted
      rw [if_pos left, Option.bind_some]
      rw [Multiset.count_cons_of_ne (ne_of_gt left)] at inside
      exact tracks_removed tracks.counts small total some points.mapIt points.elemBefore
        ⟨by omega, inside⟩
    · rw [if_neg left] at shifted
      have first := fits.2.1 odd (not_lt.mp left)
      obtain ⟨previous, moved, present, before, ranks⟩ :=
        points.decrement_first first (by omega)
      have away : previous < data := before.trans_le (not_lt.mp left)
      have unshifted := below_cons data previous rest
      rw [if_neg (not_lt_of_gt away)] at unshifted
      have copies := Multiset.count_pos.mpr present
      rw [Multiset.count_cons_of_ne (ne_of_lt away)] at copies ranks moved
      rw [if_neg left, moved, Option.bind_some]
      exact tracks_removed tracks.counts small total some rfl rfl ⟨by omega, by omega⟩
  · rw [if_neg odd]
    by_cases left : data < middle
    · rw [if_pos left] at shifted
      have last := fits.2.2 (by omega) left
      obtain ⟨next, moved, present, after, ranks⟩ := points.increment_last last (by omega)
      have away : data < next := left.trans after
      have unshifted := below_cons data next rest
      rw [if_pos away] at unshifted
      have copies := Multiset.count_pos.mpr present
      rw [Multiset.count_cons_of_ne (ne_of_gt away)] at copies
      rw [if_pos (Or.inl left), moved, Option.bind_some]
      have located : AtRank rest ((rest.card - 1) / 2) next 0 := ⟨by omega, copies⟩
      exact tracks_removed tracks.counts small total some rfl rfl located
    · rw [if_neg left] at shifted
      by_cases same : data = middle
      · subst same
        rw [Multiset.count_cons_self] at inside
        by_cases last : copy + 1 = (data ::ₘ rest).count data
        · obtain ⟨next, moved, present, after, ranks⟩ := points.increment_last last (by omega)
          have unshifted := below_cons data next rest
          rw [if_pos after] at unshifted
          have copies := Multiset.count_pos.mpr present
          rw [Multiset.count_cons_of_ne (ne_of_gt after)] at copies
          rw [if_pos (Or.inr ⟨rfl, last⟩), moved, Option.bind_some]
          have located : AtRank rest ((rest.card - 1) / 2) next 0 := ⟨by omega, copies⟩
          exact tracks_removed tracks.counts small total some rfl rfl located
        · rw [if_neg (by rw [not_or]; exact ⟨left, fun both => last both.2⟩), Option.bind_some]
          rw [Multiset.count_cons_self] at last
          exact tracks_removed tracks.counts small total some points.mapIt points.elemBefore
            ⟨by omega, by omega⟩
      · rw [Multiset.count_cons_of_ne (fun equal => same equal.symm)] at inside
        rw [if_neg (by rw [not_or]; exact ⟨left, fun both => same both.1⟩), Option.bind_some]
        exact tracks_removed tracks.counts small total some points.mapIt points.elemBefore
          ⟨by omega, inside⟩

/-- Without the only value nothing is left that the iterator could go back to. -/
theorem iterate_last (tracks : Tracks (data ::ₘ 0) state) : iterate state data true = none := by
  obtain ⟨middle, copy, points, position⟩ := tracks.position Multiset.cons_ne_zero
  have only : middle = data := by
    simpa using points.mem
  subst only
  have first : copy = 0 := by
    rw [Multiset.card_cons, Multiset.card_zero] at position
    omega
  have start : state.elemBefore ≤ 0 := by
    rw [points.elemBefore, first]
    exact (ofNat_le_zero_iff (by omega)).mpr rfl
  have nothing : preceding state.mapElement (some middle) = none := by
    rw [Option.eq_none_iff_forall_ne_some]
    intro previous precedes
    obtain ⟨present, before, _⟩ := preceding_eq_some points.counts precedes
    have same : previous = middle := by
      simpa using present
    exact absurd before (by rw [same]; exact lt_irrefl middle)
  rw [iterate_retraction tracks.counts, moveBefore_eq points tracks.total,
    if_pos (by rw [Multiset.card_cons, Multiset.card_zero]), if_neg (lt_irrefl middle)]
  unfold decrementMap
  rw [if_pos start, points.mapIt, nothing]
  rfl

theorem retractionFits_of_median (tracks : Tracks (data ::ₘ rest) state) (some : rest ≠ 0)
    (points : Points (data ::ₘ rest) state middle copy)
    (position : below (data ::ₘ rest) middle + copy = ((data ::ₘ rest).card - 1) / 2)
    {next : State V} (iterated : iterate state data true = Option.some next) {result : R}
    (valued : value arithmetic next = Option.some result)
    (median : IsMedian arithmetic rest result) :
    RetractionFits (data ::ₘ rest) middle copy data := by
  have positive := Multiset.card_pos.mpr some
  have total := tracks.total
  have card := Multiset.card_cons data rest
  have shifted := below_cons data middle rest
  have inside := points.inside
  rw [iterate_retraction tracks.counts, moveBefore_eq points total] at iterated
  refine ⟨by omega, ?_, ?_⟩
  · intro odd right
    by_contra later
    rw [if_pos odd, if_neg (not_lt.mpr right)] at iterated
    rw [if_neg (not_lt.mpr right)] at shifted
    obtain ⟨moved, decremented, removed⟩ := Option.bind_eq_some_iff.mp iterated
    obtain ⟨previous, rfl, _, before⟩ :=
      points.decrement_later (Nat.pos_of_ne_zero later) decremented
    obtain ⟨mapElement, counted, result⟩ := remove_eq
      (show State.mapElement { state with mapIt := Option.some previous } |>.Counts _
        from tracks.counts) tracks.small total some
    rw [result] at removed
    split at removed
    · exact absurd removed (by simp)
    · obtain rfl := Option.some.inj removed
      have copies : copy - 1 < rest.count middle := by
        rw [Multiset.count_cons] at inside
        split at inside
        · omega
        · omega
      exact not_median_of_even valued counted (by simp only [total, card]; omega) some
        (by omega) rfl before ⟨by omega, copies⟩ median
  · intro even left
    by_contra earlier
    rw [if_neg (by omega), if_pos (Or.inl left)] at iterated
    rw [if_pos left] at shifted
    obtain ⟨moved, incremented, removed⟩ := Option.bind_eq_some_iff.mp iterated
    obtain rfl := points.increment_earlier (by omega) incremented
    obtain ⟨mapElement, counted, result⟩ := remove_eq
      (show State.mapElement { state with mapIt := following state.mapElement middle } |>.Counts _
        from tracks.counts) tracks.small total some
    rw [result] at removed
    split at removed
    · exact absurd removed (by simp)
    · obtain rfl := Option.some.inj removed
      have copies : (data ::ₘ rest).count middle = rest.count middle :=
        Multiset.count_cons_of_ne (ne_of_gt left) rest
      have located : AtRank rest (rest.card / 2) middle (copy + 1) := ⟨by omega, by omega⟩
      have same := mapIt_of_odd valued median (by simp only [total, card]; omega) (by omega)
        located
      exact absurd (following_eq_some points.counts same).2.1 (lt_irrefl middle)

end

/-! ### Runs -/

section

variable {V R : Type} [LinearOrder V] [LinearOrder R]

/-- One call of `iterate` and the value after it. -/
def step (arithmetic : ExactMean V R) (state : State V) (change : Change V) :
    Option (State V × Option R) :=
  (iterate state change.data change.outdated).map fun next => (next, value arithmetic next)

/-- The live values.  A retraction is legal for one of them. -/
def liveStep (live : Multiset V) (change : Change V) : Option (Multiset V × Unit) :=
  if change.outdated = true → change.data ∈ live then some (applyChange live change, ())
  else none

theorem liveStep_eq_some {live : Multiset V} {change : Change V} {after : Multiset V × Unit}
    (legal : liveStep live change = some after) :
    (change.outdated = true → change.data ∈ live) ∧ after.1 = applyChange live change := by
  unfold liveStep at legal
  split at legal
  case isTrue allowed =>
    obtain rfl := Option.some.inj legal
    exact ⟨allowed, rfl⟩
  case isFalse => exact absurd legal (by simp)

/-- After every change the iterator is inside of the map, and over live values there is
a value and it is their median. -/
def MedianTracked (arithmetic : ExactMean V R) (changes : List (Change V)) : Prop :=
  Agree (step arithmetic) liveStep
    (fun next after => after.1 ≠ 0 →
      ∃ result, next.2 = some result ∧ IsMedian arithmetic after.1 result)
    init 0 changes

/-- The first arrival, or a change that moves the lower median off the first copy of its
value to the left, off the last copy to the right, or not at all. -/
def ChangeFits (live : Multiset V) (change : Change V) : Prop :=
  live = 0 ∨ ∃ middle copy, AtRank live ((live.card - 1) / 2) middle copy ∧
    if change.outdated then RetractionFits live middle copy change.data
    else ArrivalFits live middle copy change.data

theorem changeFits_iff {live : Multiset V} {state : State V} {middle : V} {copy : Nat}
    (some : live ≠ 0) (points : Points live state middle copy)
    (position : below live middle + copy = (live.card - 1) / 2) (change : Change V) :
    ChangeFits live change ↔
      if change.outdated then RetractionFits live middle copy change.data
      else ArrivalFits live middle copy change.data := by
  have located : AtRank live ((live.card - 1) / 2) middle copy := ⟨position, points.inside⟩
  constructor
  · intro fits
    obtain ⟨other, copyOther, there, holds⟩ := fits.resolve_left some
    obtain rfl := there.unique located
    have same : copyOther = copy := by
      have first := there.1
      have second := located.1
      omega
    rwa [same] at holds
  · intro holds
    exact Or.inr ⟨middle, copy, located, holds⟩

/-- A change that fits keeps the iterator at the lower median. -/
theorem tracks_step (arithmetic : ExactMean V R) {live : Multiset V} {state : State V}
    {change : Change V} {after : Multiset V × Unit} (tracks : Tracks live state)
    (legal : liveStep live change = some after) (small : after.1.card < 2 ^ 31)
    (fits : ChangeFits live change) :
    ∃ next, step arithmetic state change = some next ∧
      (after.1 ≠ 0 → ∃ result, next.2 = some result ∧ IsMedian arithmetic after.1 result) ∧
        Tracks after.1 next.1 := by
  obtain ⟨data, outdated⟩ := change
  obtain ⟨allowed, reached⟩ := liveStep_eq_some legal
  rw [reached] at small ⊢
  suffices kept : ∃ next, iterate state data outdated = some next ∧
      Tracks (applyChange live ⟨data, outdated⟩) next by
    obtain ⟨next, iterated, tracked⟩ := kept
    exact ⟨(next, value arithmetic next), congrArg (Option.map _) iterated,
      fun some => tracked.value_isMedian some, tracked⟩
  by_cases empty : live = 0
  · subst empty
    cases outdated with
    | false => exact tracks_first tracks data
    | true => exact absurd (allowed rfl) (Multiset.notMem_zero data)
  · obtain ⟨middle, copy, points, position⟩ := tracks.position empty
    have holds := (changeFits_iff empty points position ⟨data, outdated⟩).mp fits
    cases outdated with
    | false => exact tracks_arrival tracks empty points position small holds
    | true =>
        obtain ⟨rest, rfl⟩ := Multiset.exists_cons_of_mem (allowed rfl)
        have erased : applyChange (data ::ₘ rest) ⟨data, true⟩ = rest :=
          Multiset.erase_cons_head data rest
        rw [erased]
        have more : rest ≠ 0 := by
          intro none
          exact holds.1 (by rw [none, Multiset.card_cons, Multiset.card_zero])
        exact tracks_retraction tracks more points position holds

/-- A change after which the median is right fits. -/
theorem changeFits_of_step {arithmetic : ExactMean V R} {live : Multiset V} {state : State V}
    {change : Change V} {after : Multiset V × Unit} {next : State V × Option R}
    (tracks : Tracks live state) (legal : liveStep live change = some after)
    (small : after.1.card < 2 ^ 31) (stepped : step arithmetic state change = some next)
    (right : after.1 ≠ 0 → ∃ result, next.2 = some result ∧
      IsMedian arithmetic after.1 result) : ChangeFits live change := by
  obtain ⟨data, outdated⟩ := change
  by_cases empty : live = 0
  · exact Or.inl empty
  · obtain ⟨moved, iterated, rfl⟩ := Option.map_eq_some_iff.mp stepped
    obtain ⟨middle, copy, points, position⟩ := tracks.position empty
    apply (changeFits_iff empty points position ⟨data, outdated⟩).mpr
    obtain ⟨allowed, reached⟩ := liveStep_eq_some legal
    rw [reached] at small right
    cases outdated with
    | false =>
        obtain ⟨result, valued, median⟩ := right Multiset.cons_ne_zero
        exact arrivalFits_of_median tracks empty points position small iterated valued median
    | true =>
        obtain ⟨rest, rfl⟩ := Multiset.exists_cons_of_mem (allowed rfl)
        have erased : applyChange (data ::ₘ rest) ⟨data, true⟩ = rest :=
          Multiset.erase_cons_head data rest
        rw [erased] at right
        by_cases last : rest = 0
        · subst last
          exact absurd (iterated.symm.trans (iterate_last tracks)) (by simp)
        · obtain ⟨result, valued, median⟩ := right last
          exact retractionFits_of_median tracks last points position iterated valued median

/-- The changes leave fewer than 2^31 values live. -/
theorem along_small {live : Multiset V} {changes : List (Change V)}
    (few : ∀ seen, seen <+: changes → (seen.foldl applyChange live).card < 2 ^ 31) :
    Along liveStep (fun before change => (applyChange before change).card < 2 ^ 31) live
      changes := by
  induction changes generalizing live with
  | nil => trivial
  | cons change changes induction =>
      intro after legal
      refine ⟨few [change] (List.prefix_append [change] changes), ?_⟩
      rw [(liveStep_eq_some legal).2]
      apply induction
      intro seen start
      exact few (change :: seen) (List.cons_prefix_cons.mpr ⟨rfl, start⟩)

/-- While the numbers of values fit into the counters, the median is tracked just when
every change fits. -/
theorem aggrMedian_tracks_iff (arithmetic : ExactMean V R) (changes : List (Change V))
    (few : ∀ seen, seen <+: changes → (live seen).card < 2 ^ 31) :
    MedianTracked arithmetic changes ↔ Along liveStep ChangeFits 0 changes := by
  apply agree_iff_of_assumed
    (fun before change => (applyChange before change).card < 2 ^ 31)
    (fun state before => Tracks before state)
  · intro state before change after tracks legal small fits
    exact tracks_step arithmetic tracks legal ((liveStep_eq_some legal).2 ▸ small) fits
  · intro state before change after next tracks legal small stepped right
    exact changeFits_of_step tracks legal ((liveStep_eq_some legal).2 ▸ small) stepped right
  · exact tracks_init
  · exact along_small few

theorem aggrMedian_tracks_three :
    MedianTracked (.ofField ℚ) [⟨1, false⟩, ⟨2, false⟩, ⟨3, false⟩] ↔
      Along liveStep ChangeFits 0 [⟨(1 : ℚ), false⟩, ⟨2, false⟩, ⟨3, false⟩] :=
  aggrMedian_tracks_iff (.ofField ℚ) [⟨1, false⟩, ⟨2, false⟩, ⟨3, false⟩] (by
    intro seen start
    have short := start.length_le
    have fewer := card_live_le seen
    simp only [List.length_cons, List.length_nil] at short
    omega)

/-- Three copies of one value: the third arrival moves the iterator to the end. -/
theorem not_aggrMedian_tracks :
    ¬ ∀ changes : List (Change ℚ), MedianTracked (.ofField ℚ) changes := by
  intro every
  obtain ⟨first, firstStep, _, agree⟩ := every [⟨5, false⟩, ⟨5, false⟩, ⟨5, false⟩] _ rfl
  obtain ⟨second, secondStep, _, agree⟩ := agree _ rfl
  obtain ⟨third, thirdStep, right, _⟩ := agree _ rfl
  have run : (((step (.ofField ℚ) init ⟨5, false⟩).bind fun next =>
      step (.ofField ℚ) next.1 ⟨5, false⟩).bind fun next =>
        step (.ofField ℚ) next.1 ⟨5, false⟩).map (fun next => next.2) = some none := by
    decide +kernel
  have three : (5 : ℚ) ::ₘ 5 ::ₘ 5 ::ₘ 0 ≠ 0 := Multiset.cons_ne_zero
  obtain ⟨result, valued, _⟩ := right three
  rw [firstStep, Option.bind_some, secondStep, Option.bind_some, thirdStep, Option.map_some,
    valued] at run
  exact absurd run (by simp)

end

end PipeFabric.AggrMedian
