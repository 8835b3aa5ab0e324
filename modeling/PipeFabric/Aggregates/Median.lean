import PipeFabric.Aggregates.Incremental
import PipeFabric.Library.OrderStatistics
import PipeFabric.Qop.AggrMedian

/-!
# The position of the median

What the members of `AggrMedian` stand for, where its two moves lead, and when its value
is the median.  From the first copy of a value the iterator moves to the left as it should,
from the last copy to the right; from any other copy it leaves the value too early.
-/

namespace PipeFabric

open OrderStatistics

namespace AggrMedian

/-! ### Numbers of copies -/

theorem ofNat_le_zero_iff {copy : Nat} (small : copy < 2 ^ 31) :
    Int32.ofNat copy ≤ 0 ↔ copy = 0 := by
  rw [Int32.le_iff_toInt_le, Int32.toInt_ofNat_of_lt small, Int32.toInt_zero]
  omega

theorem toUInt32_succ (copy : Nat) :
    (Int32.ofNat copy + 1).toUInt32 = UInt32.ofNat (copy + 1) := by
  rw [Int32.toUInt32_add, Int32.toUInt32_ofNat', UInt32.ofNat_add]
  rfl

theorem toInt32_pred {second : Nat} (some : 0 < second) :
    (UInt32.ofNat second - 1).toInt32 = Int32.ofNat (second - 1) := by
  obtain ⟨rest, rfl⟩ := Nat.exists_eq_add_of_lt some
  rw [Nat.zero_add, UInt32.ofNat_add, Nat.add_sub_cancel]
  exact congrArg UInt32.toInt32 (add_sub_cancel_right _ _)

theorem ofNat_ne_maxValue {copy : Nat} (small : copy + 1 < 2 ^ 31) :
    Int32.ofNat copy ≠ Int32.maxValue := by
  intro equal
  have values := congrArg Int32.toInt equal
  rw [Int32.toInt_ofNat_of_lt (by omega)] at values
  have largest : Int32.maxValue.toInt = 2 ^ 31 - 1 := by decide
  omega

/-! ### Neighbours -/

section

variable {V : Type} [LinearOrder V] {live : Multiset V}

theorem firstKey_eq_some {keys : Finset V} {key : V} (first : firstKey keys = some key) :
    key ∈ keys ∧ ∀ other ∈ keys, key ≤ other := by
  unfold firstKey at first
  split at first
  case isTrue entries =>
    obtain rfl := Option.some.inj first
    exact ⟨keys.min'_mem entries, fun other member => keys.min'_le other member⟩
  case isFalse => exact absurd first (by simp)

theorem lastKey_eq_some {keys : Finset V} {key : V} (last : lastKey keys = some key) :
    key ∈ keys ∧ ∀ other ∈ keys, other ≤ key := by
  unfold lastKey at last
  split at last
  case isTrue entries =>
    obtain rfl := Option.some.inj last
    exact ⟨keys.max'_mem entries, fun other member => keys.le_max' other member⟩
  case isFalse => exact absurd last (by simp)

theorem exists_firstKey {keys : Finset V} (entries : keys.Nonempty) :
    ∃ key, firstKey keys = some key := ⟨_, dif_pos entries⟩

theorem exists_lastKey {keys : Finset V} (entries : keys.Nonempty) :
    ∃ key, lastKey keys = some key := ⟨_, dif_pos entries⟩

variable {mapElement : ValueCounters V} (counts : mapElement.Counts live)

include counts

/-- The next entry is the next value. -/
theorem following_eq_some {key next : V} (follows : following mapElement key = some next) :
    next ∈ live ∧ key < next ∧ ∀ other ∈ live, key < other → next ≤ other := by
  have first := firstKey_eq_some follows
  simp only [counts.keys, Finset.mem_filter, Multiset.mem_toFinset] at first
  exact ⟨first.1.1, first.1.2, fun other member greater => first.2 other ⟨member, greater⟩⟩

theorem exists_following {key other : V} (member : other ∈ live) (greater : key < other) :
    ∃ next, following mapElement key = some next := by
  apply exists_firstKey
  refine ⟨other, ?_⟩
  rw [Finset.mem_filter, counts.keys, Multiset.mem_toFinset]
  exact ⟨member, greater⟩

theorem preceding_eq_some {key previous : V}
    (precedes : preceding mapElement (some key) = some previous) :
    previous ∈ live ∧ previous < key ∧ ∀ other ∈ live, other < key → other ≤ previous := by
  have last := lastKey_eq_some precedes
  simp only [counts.keys, Finset.mem_filter, Multiset.mem_toFinset] at last
  exact ⟨last.1.1, last.1.2, fun other member less => last.2 other ⟨member, less⟩⟩

theorem exists_preceding {key other : V} (member : other ∈ live) (less : other < key) :
    ∃ previous, preceding mapElement (some key) = some previous := by
  apply exists_lastKey
  refine ⟨other, ?_⟩
  rw [Finset.mem_filter, counts.keys, Multiset.mem_toFinset]
  exact ⟨member, less⟩

end

/-! ### Moves of the iterator -/

section

variable {V : Type} [LinearOrder V] {live : Multiset V} {state : State V}
  {middle : V} {copy : Nat}

/-- The iterator is at this copy of a value. -/
structure Points (live : Multiset V) (state : State V) (middle : V) (copy : Nat) : Prop where
  counts : state.mapElement.Counts live
  small : live.card < 2 ^ 31
  mapIt : state.mapIt = some middle
  elemBefore : state.elemBefore = Int32.ofNat copy
  inside : copy < live.count middle

namespace Points

variable (points : Points live state middle copy)

include points

theorem mem : middle ∈ live :=
  Multiset.count_pos.mp (Nat.lt_of_le_of_lt (Nat.zero_le copy) points.inside)

theorem count_small : live.count middle < 2 ^ 31 :=
  Nat.lt_of_le_of_lt (Multiset.count_le_card middle live) points.small

theorem entry : state.entry = some (middle, UInt32.ofNat (live.count middle)) := by
  unfold State.entry
  rw [points.mapIt, Option.bind_some, points.counts.lookup_mem points.mem]
  rfl

theorem atLastCopy :
    state.atLastCopy (UInt32.ofNat (live.count middle)) =
      some (decide (copy + 1 = live.count middle)) := by
  have inside := points.inside
  have small := points.count_small
  unfold State.atLastCopy
  rw [points.elemBefore, if_neg (ofNat_ne_maxValue (by omega)), toUInt32_succ]
  congr 1
  rw [decide_eq_decide, ge_iff_le, UInt32.le_iff_toNat_le, UInt32.toNat_ofNat',
    UInt32.toNat_ofNat', Nat.mod_eq_of_lt (by omega), Nat.mod_eq_of_lt (by omega)]
  omega

theorem decrement_first (first : copy = 0) (some : 0 < below live middle) :
    ∃ previous, decrementMap state =
        Option.some { state with
          mapIt := Option.some previous
          elemBefore := Int32.ofNat (live.count previous - 1) } ∧
      previous ∈ live ∧ previous < middle ∧
        below live middle = below live previous + live.count previous := by
  obtain ⟨other, member, less⟩ := exists_lt_of_below some
  obtain ⟨previous, precedes⟩ := exists_preceding points.counts member less
  obtain ⟨present, before, adjacent⟩ := preceding_eq_some points.counts precedes
  refine ⟨previous, ?_, present, before, below_of_predecessor before adjacent⟩
  have start : state.elemBefore ≤ 0 := by
    rw [points.elemBefore, first]
    exact (ofNat_le_zero_iff (by omega)).mpr rfl
  unfold decrementMap
  rw [if_pos start, points.mapIt]
  simp only [precedes, Option.bind_eq_bind, Option.bind_some,
    points.counts.lookup_mem present, toInt32_pred (Multiset.count_pos.mpr present)]

/-- From a later copy the iterator goes too far to the left. -/
theorem decrement_later (later : 0 < copy) {moved : State V}
    (succeeded : decrementMap state = some moved) :
    ∃ previous, moved = { state with mapIt := some previous } ∧
      previous ∈ live ∧ previous < middle := by
  have inside := points.inside
  have small := points.count_small
  have positive : ¬ state.elemBefore ≤ 0 := by
    rw [points.elemBefore, ofNat_le_zero_iff (by omega)]
    omega
  unfold decrementMap at succeeded
  rw [if_neg positive, points.mapIt] at succeeded
  obtain ⟨previous, precedes, result⟩ := Option.bind_eq_some_iff.mp succeeded
  obtain ⟨present, before, _⟩ := preceding_eq_some points.counts precedes
  exact ⟨previous, (Option.some.inj result).symm, present, before⟩

theorem increment_last (last : copy + 1 = live.count middle)
    (some : below live middle + live.count middle < live.card) :
    ∃ next, incrementMap state =
        Option.some { state with mapIt := Option.some next, elemBefore := 0 } ∧
      next ∈ live ∧ middle < next ∧
        below live next = below live middle + live.count middle := by
  obtain ⟨other, member, greater⟩ := exists_gt_of_lt_card some
  obtain ⟨next, follows⟩ := exists_following points.counts member greater
  obtain ⟨present, after, adjacent⟩ := following_eq_some points.counts follows
  refine ⟨next, ?_, present, after, below_of_successor after adjacent⟩
  unfold incrementMap
  simp only [points.entry, points.atLastCopy, Option.bind_eq_bind, Option.bind_some, last,
    decide_true, if_true, follows]

/-- From an earlier copy the iterator goes too far to the right. -/
theorem increment_earlier (earlier : copy + 1 < live.count middle) {moved : State V}
    (succeeded : incrementMap state = some moved) :
    moved = { state with mapIt := following state.mapElement middle } := by
  unfold incrementMap at succeeded
  simp only [points.entry, points.atLastCopy, Option.bind_eq_bind, Option.bind_some,
    Nat.ne_of_lt earlier, decide_false, Bool.false_eq_true, if_false] at succeeded
  exact (Option.some.inj succeeded).symm

end Points

end

/-! ### The value -/

section

variable {V R : Type} [LinearOrder V] [LinearOrder R] {arithmetic : ExactMean V R}
  {live : Multiset V} {state : State V} {middle : V} {copy : Nat}

/-- The median: the middle element of an odd number of values, the mean of the two
middle elements of an even number. -/
def IsMedian (arithmetic : ExactMean V R) (live : Multiset V) (result : R) : Prop :=
  if live.card % 2 = 1 then
    ∃ middle, live.sort[live.card / 2]? = some middle ∧ result = arithmetic.whole middle
  else
    ∃ lower upper, live.sort[live.card / 2 - 1]? = some lower ∧
      live.sort[live.card / 2]? = some upper ∧ result = arithmetic.mean lower upper

theorem isMedian_odd (odd : live.card % 2 = 1) (sorted : live.sort[live.card / 2]? = some middle) :
    IsMedian arithmetic live (arithmetic.whole middle) := by
  unfold IsMedian
  rw [if_pos odd]
  exact ⟨middle, sorted, rfl⟩

theorem isMedian_even {lower upper : V} (even : ¬ live.card % 2 = 1)
    (first : live.sort[live.card / 2 - 1]? = some lower)
    (second : live.sort[live.card / 2]? = some upper) :
    IsMedian arithmetic live (arithmetic.mean lower upper) := by
  unfold IsMedian
  rw [if_neg even]
  exact ⟨lower, upper, first, second, rfl⟩

theorem whole_lt_whole (arithmetic : ExactMean V R) {lower upper : V} (less : lower < upper) :
    arithmetic.whole lower < arithmetic.whole upper :=
  (arithmetic.whole_lt_mean less).trans (arithmetic.mean_lt_whole less)

theorem whole_injective (arithmetic : ExactMean V R) {first second : V}
    (same : arithmetic.whole first = arithmetic.whole second) : first = second := by
  rcases lt_trichotomy first second with less | equal | greater
  · exact absurd same (ne_of_lt (whole_lt_whole arithmetic less))
  · exact equal
  · exact absurd same (ne_of_gt (whole_lt_whole arithmetic greater))

theorem whole_le_mean (arithmetic : ExactMean V R) {lower upper : V} (order : lower ≤ upper) :
    arithmetic.whole lower ≤ arithmetic.mean lower upper := by
  rcases lt_or_eq_of_le order with less | same
  · exact le_of_lt (arithmetic.whole_lt_mean less)
  · rw [← same, arithmetic.mean_self]

/-- The state stands for the live values. -/
structure Tracks (live : Multiset V) (state : State V) : Prop where
  counts : state.mapElement.Counts live
  small : live.card < 2 ^ 31
  total : state.total = live.card
  position : live ≠ 0 → ∃ middle copy, Points live state middle copy ∧
    below live middle + copy = (live.card - 1) / 2

theorem tracks_init : Tracks (0 : Multiset V) init where
  counts := ValueCounters.Counts.empty
  small := Nat.two_pow_pos 31
  total := rfl
  position := fun some => absurd rfl some

/-- At the lower median `value` returns the median. -/
theorem Tracks.value_isMedian (tracks : Tracks live state) (some : live ≠ 0) :
    ∃ result, value arithmetic state = Option.some result ∧ IsMedian arithmetic live result := by
  obtain ⟨middle, copy, points, position⟩ := tracks.position some
  have positive := Multiset.card_pos.mpr some
  have inside := points.inside
  have total := tracks.total
  unfold value
  rw [if_neg (by omega)]
  by_cases odd : live.card % 2 = 1
  · rw [if_neg (by omega)]
    refine ⟨arithmetic.whole middle, ?_, isMedian_odd odd ?_⟩
    · simp only [points.entry, Option.bind_eq_bind, Option.bind_some]
    · apply (sort_getElem?_iff live).mpr
      exact ⟨copy, by omega, inside⟩
  · rw [if_pos (by omega)]
    have lower : live.sort[live.card / 2 - 1]? = Option.some middle :=
      (sort_getElem?_iff live).mpr ⟨copy, by omega, inside⟩
    simp only [points.entry, points.atLastCopy, Option.bind_eq_bind, Option.bind_some,
      decide_eq_true_eq]
    by_cases last : copy + 1 = live.count middle
    · obtain ⟨other, member, greater⟩ := exists_gt_of_lt_card
        (show below live middle + live.count middle < live.card by omega)
      obtain ⟨next, follows⟩ := exists_following points.counts member greater
      obtain ⟨present, after, adjacent⟩ := following_eq_some points.counts follows
      have ranks := below_of_successor after adjacent
      refine ⟨arithmetic.mean middle next, ?_, isMedian_even odd lower ?_⟩
      · rw [if_pos last, follows]
        rfl
      · apply (sort_getElem?_iff live).mpr
        exact ⟨0, by omega, Multiset.count_pos.mpr present⟩
    · refine ⟨arithmetic.mean middle middle, ?_, isMedian_even odd lower ?_⟩
      · rw [if_neg last, arithmetic.mean_self]
      · apply (sort_getElem?_iff live).mpr
        exact ⟨copy + 1, by omega, by omega⟩

/-- With an odd number of values a right value comes from the middle element. -/
theorem mapIt_of_odd {result : R} (valued : value arithmetic state = some result)
    (median : IsMedian arithmetic live result) (total : state.total = live.card)
    (odd : live.card % 2 = 1)
    (located : AtRank live (live.card / 2) middle copy) : state.mapIt = some middle := by
  unfold value at valued
  rw [if_neg (by omega), if_neg (by omega)] at valued
  obtain ⟨entry, found, returned⟩ := Option.bind_eq_some_iff.mp valued
  obtain ⟨key, mapIt, counted⟩ := Option.bind_eq_some_iff.mp found
  obtain ⟨second, _, rfl⟩ := Option.map_eq_some_iff.mp counted
  unfold IsMedian at median
  rw [if_pos odd] at median
  obtain ⟨center, sorted, right⟩ := median
  obtain ⟨copyThere, there⟩ := (sort_getElem?_iff live).mp sorted
  have same := whole_injective arithmetic ((Option.some.inj returned).trans right)
  rw [mapIt, same, there.unique located]

/-- With an even number of values nothing left of the lower median gives the median. -/
theorem not_median_of_even {result : R} (valued : value arithmetic state = some result)
    (counts : state.mapElement.Counts live) (total : state.total = live.card)
    (some : live ≠ 0) (even : ¬ live.card % 2 = 1) {previous : V}
    (mapIt : state.mapIt = Option.some previous) (less : previous < middle)
    (located : AtRank live ((live.card - 1) / 2) middle copy) :
    ¬ IsMedian arithmetic live result := by
  intro median
  have positive := Multiset.card_pos.mpr some
  have small : result < arithmetic.whole middle := by
    unfold value at valued
    rw [if_neg (by omega), if_pos (by omega)] at valued
    obtain ⟨entry, found, rest⟩ := Option.bind_eq_some_iff.mp valued
    obtain ⟨key, here, counted⟩ := Option.bind_eq_some_iff.mp found
    obtain ⟨second, _, rfl⟩ := Option.map_eq_some_iff.mp counted
    obtain rfl := Option.some.inj (mapIt.symm.trans here)
    obtain ⟨last, _, returned⟩ := Option.bind_eq_some_iff.mp rest
    cases last with
    | false =>
        obtain rfl := Option.some.inj returned
        exact whole_lt_whole arithmetic less
    | true =>
        obtain ⟨next, follows, averaged⟩ := Option.bind_eq_some_iff.mp returned
        obtain rfl := Option.some.inj averaged
        obtain ⟨_, after, adjacent⟩ := following_eq_some counts follows
        have bounded := adjacent middle located.mem less
        apply lt_of_lt_of_le (arithmetic.mean_lt_whole after)
        rcases lt_or_eq_of_le bounded with before | same
        · exact le_of_lt (whole_lt_whole arithmetic before)
        · rw [same]
  unfold IsMedian at median
  rw [if_neg even] at median
  obtain ⟨lower, upper, first, second, rfl⟩ := median
  obtain ⟨_, lowerRank⟩ := (sort_getElem?_iff live).mp first
  obtain ⟨_, upperRank⟩ := (sort_getElem?_iff live).mp second
  have half : live.card / 2 - 1 = (live.card - 1) / 2 := by omega
  rw [half] at lowerRank
  obtain rfl := lowerRank.unique located
  have order := lowerRank.mono upperRank (by omega)
  exact absurd small (not_lt.mpr (whole_le_mean arithmetic order))

end

end AggrMedian

end PipeFabric
