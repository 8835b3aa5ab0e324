import Mathlib.Algebra.BigOperators.Group.Multiset.Basic
import Mathlib.Algebra.Field.Rat
import Mathlib.Data.Finset.Dedup
import Mathlib.Order.Bounds.Basic
import PipeFabric.Qop.AggregateFunctions

/-!
# Aggregates over the live values

An aggregate function is incremental when its state stands for the multiset of
live values: both kinds of changes keep that relation, and over a multiset that
is not empty the value is the aggregate computed from the multiset.  The counters
restrict this to fewer than 2^32 live values.
-/

namespace PipeFabric

open ChangeStream

variable {α S Out : Type}

/-- `holds` relates the live values to the state of the function, and `spec` to its
value. -/
structure Incremental (aggr : AggregateFunc α S Out)
    (spec : Multiset α → Out → Prop) (holds : Multiset α → S → Prop) : Prop where
  init : holds 0 aggr.init
  insert : ∀ {live state} (data : α), (data ::ₘ live).card < 2 ^ 32 →
    holds live state → ∃ next, aggr.iterate state data false = some next ∧
      holds (data ::ₘ live) next
  retract : ∀ {live state} (data : α), (data ::ₘ live).card < 2 ^ 32 →
    holds (data ::ₘ live) state →
      ∃ next, aggr.iterate state data true = some next ∧ holds live next
  sound : ∀ {live state result}, live.card < 2 ^ 32 → holds live state →
    aggr.value state = some result → spec live result
  total : ∀ {live state}, live ≠ 0 → live.card < 2 ^ 32 → holds live state →
    ∃ result, aggr.value state = some result

/-- Over live values there is a value, and it is the right one. -/
theorem Incremental.value {aggr : AggregateFunc α S Out}
    {spec : Multiset α → Out → Prop} {holds : Multiset α → S → Prop}
    (incremental : Incremental aggr spec holds) {live : Multiset α} {state : S}
    (some : live ≠ 0) (small : live.card < 2 ^ 32) (related : holds live state) :
    ∃ result, aggr.value state = Option.some result ∧ spec live result := by
  obtain ⟨result, valued⟩ := incremental.total some small related
  exact ⟨result, valued, incremental.sound small related valued⟩

/-! ### The functions -/

theorem AggrSum.incremental (N : Type) [AddCommGroup N] :
    Incremental (AggrSum N) (fun live result => result = live.sum)
      (fun live mSum => mSum = live.sum) where
  init := rfl
  insert := by
    intro live mSum data _ sum
    refine ⟨_, rfl, ?_⟩
    rw [sum, Multiset.sum_cons]
    exact add_comm _ _
  retract := by
    intro live mSum data _ sum
    refine ⟨_, rfl, ?_⟩
    rw [sum, Multiset.sum_cons]
    simp
  sound := by
    intro live mSum result _ sum valued
    cases valued
    exact sum
  total := by
    intro live mSum _ _ _
    exact ⟨mSum, rfl⟩

theorem ofNat_card_cons_sub (data : α) (live : Multiset α) :
    UInt32.ofNat (data ::ₘ live).card - 1 = UInt32.ofNat live.card := by
  rw [Multiset.card_cons, UInt32.ofNat_add]
  exact add_sub_cancel_right _ _

theorem AggrCount.incremental (V : Type) :
    Incremental (AggrCount V) (fun live result => result.toNat = live.card)
      (fun live mCount => mCount = UInt32.ofNat live.card) where
  init := rfl
  insert := by
    intro live mCount data _ counted
    refine ⟨_, rfl, ?_⟩
    rw [counted, Multiset.card_cons, UInt32.ofNat_add]
    rfl
  retract := by
    intro live mCount data _ counted
    refine ⟨_, rfl, ?_⟩
    rw [counted, ← ofNat_card_cons_sub data live, sub_eq_add_neg]
    rfl
  sound := by
    intro live mCount result small counted valued
    cases valued
    rw [counted, UInt32.toNat_ofNat', Nat.mod_eq_of_lt small]
  total := by
    intro live mCount _ _ _
    exact ⟨mCount, rfl⟩

theorem AggrAvg.incremental :
    Incremental AggrAvg (fun live result => result = live.sum / live.card)
      (fun live state => state.mCount = UInt32.ofNat live.card ∧
        state.mSum = live.sum) where
  init := ⟨rfl, rfl⟩
  insert := by
    intro live state data _ tracked
    obtain ⟨counted, sum⟩ := tracked
    refine ⟨_, rfl, ?_, ?_⟩
    · simp only [AggrAvg.iterate, Bool.false_eq_true, if_false]
      rw [counted, Multiset.card_cons, UInt32.ofNat_add]
      rfl
    · simp only [AggrAvg.iterate, Bool.false_eq_true, if_false]
      rw [sum, Multiset.sum_cons]
      exact add_comm _ _
  retract := by
    intro live state data _ tracked
    obtain ⟨counted, sum⟩ := tracked
    refine ⟨_, rfl, ?_, ?_⟩
    · simp only [AggrAvg.iterate, if_true]
      rw [counted, ofNat_card_cons_sub]
    · simp only [AggrAvg.iterate, if_true]
      rw [sum, Multiset.sum_cons]
      exact add_sub_cancel_left _ _
  sound := by
    intro live state result small tracked valued
    obtain ⟨counted, sum⟩ := tracked
    simp only [AggrAvg, AggrAvg.value] at valued
    split at valued
    · cases valued
    · cases valued
      rw [sum, counted, UInt32.toNat_ofNat', Nat.mod_eq_of_lt small]
  total := by
    intro live state some small tracked
    obtain ⟨counted, _⟩ := tracked
    have positive : state.mCount ≠ 0 := by
      intro zero
      rw [zero, ← UInt32.toNat_inj, UInt32.toNat_ofNat',
        Nat.mod_eq_of_lt small] at counted
      exact some (Multiset.card_eq_zero.mp counted.symm)
    exact ⟨state.mSum / state.mCount.toNat, if_neg positive⟩

/-- The entries of the map are the live values with their multiplicities. -/
def ValueCounters.Counts {V : Type} [DecidableEq V] (counters : ValueCounters V)
    (live : Multiset V) : Prop :=
  ∀ value, counters.lookup value =
    if value ∈ live then some (UInt32.ofNat (live.count value)) else none

namespace ValueCounters.Counts

variable {V : Type} [DecidableEq V] {counters : ValueCounters V}
  {live : Multiset V} {data : V}

theorem empty : (∅ : ValueCounters V).Counts 0 := fun _ => rfl

theorem lookup_mem (counts : counters.Counts live) (present : data ∈ live) :
    counters.lookup data = some (UInt32.ofNat (live.count data)) := by
  rw [counts data, if_pos present]

theorem lookup_other {value : V} (counts : counters.Counts (data ::ₘ live))
    (other : value ≠ data) :
    counters.lookup value =
      if value ∈ live then some (UInt32.ofNat (live.count value)) else none := by
  rw [counts value, Multiset.count_cons_of_ne other]
  simp only [Multiset.mem_cons, other, false_or]

/-- One copy more. -/
theorem add (counts : counters.Counts live) (data : V) :
    ValueCounters.Counts
      (counters.insert data (UInt32.ofNat ((data ::ₘ live).count data))) (data ::ₘ live) := by
  intro value
  by_cases same : value = data
  · subst same
    rw [Finmap.lookup_insert, if_pos (Multiset.mem_cons_self value live)]
  · rw [Finmap.lookup_insert_of_ne _ same, counts value, Multiset.count_cons_of_ne same]
    simp only [Multiset.mem_cons, same, false_or]

/-- One copy less of a value that stays. -/
theorem take (counts : counters.Counts (data ::ₘ live)) (present : data ∈ live) :
    ValueCounters.Counts (counters.insert data (UInt32.ofNat (live.count data))) live := by
  intro value
  by_cases same : value = data
  · subst same
    rw [Finmap.lookup_insert, if_pos present]
  · rw [Finmap.lookup_insert_of_ne _ same, counts.lookup_other same]

/-- The last copy of a value. -/
theorem drop (counts : counters.Counts (data ::ₘ live)) (absent : data ∉ live) :
    ValueCounters.Counts (counters.erase data) live := by
  intro value
  by_cases same : value = data
  · subst same
    rw [Finmap.lookup_erase, if_neg absent]
  · rw [Finmap.lookup_erase_ne same, counts.lookup_other same]

/-- A value that is live already has an entry, which is incremented. -/
theorem insert_present (counts : counters.Counts live)
    (small : (data ::ₘ live).count data < 2 ^ 32) :
    (counters.count data (UInt32.ofNat (live.count data)) false).Counts
      (data ::ₘ live) := by
  have added : UInt32.ofNat (live.count data) + 1 =
      UInt32.ofNat ((data ::ₘ live).count data) := by
    rw [Multiset.count_cons_self, UInt32.ofNat_add]
    rfl
  have positive : UInt32.ofNat ((data ::ₘ live).count data) ≠ 0 := by
    rw [Ne, ← UInt32.toNat_inj, UInt32.toNat_ofNat',
      Nat.mod_eq_of_lt small, Multiset.count_cons_self]
    exact Nat.succ_ne_zero _
  simp only [ValueCounters.count, Bool.false_eq_true, if_false, added, positive]
  exact counts.add data

/-- A value that is not live gets an entry. -/
theorem insert_absent (counts : counters.Counts live) (absent : data ∉ live) :
    ValueCounters.Counts (counters.insert data 1) (data ::ₘ live) := by
  have entry := counts.add data
  rw [Multiset.count_cons_self, Multiset.count_eq_zero_of_notMem absent] at entry
  exact entry

/-- The entry of a live value is decremented, and removed with its last copy. -/
theorem retract (counts : counters.Counts (data ::ₘ live))
    (small : (data ::ₘ live).count data < 2 ^ 32) :
    (counters.count data (UInt32.ofNat ((data ::ₘ live).count data))
      true).Counts live := by
  rw [Multiset.count_cons_self] at small
  have subtracted : UInt32.ofNat ((data ::ₘ live).count data) + -1 =
      UInt32.ofNat (live.count data) := by
    rw [Multiset.count_cons_self, UInt32.ofNat_add]
    exact add_neg_cancel_right _ _
  have last : UInt32.ofNat (live.count data) = 0 ↔ data ∉ live := by
    rw [← UInt32.toNat_inj, UInt32.toNat_ofNat', Nat.mod_eq_of_lt (by omega)]
    exact Multiset.count_eq_zero
  simp only [ValueCounters.count, if_true, subtracted, last]
  by_cases present : data ∈ live
  · rw [if_neg (not_not_intro present)]
    exact counts.take present
  · rw [if_pos present]
    exact counts.drop present

theorem keys (counts : counters.Counts live) : counters.keys = live.toFinset := by
  ext value
  rw [Finmap.mem_keys, ← Finmap.lookup_isSome, counts value,
    Multiset.mem_toFinset]
  split <;> simp [*]

end ValueCounters.Counts

theorem AggrMinMax.incremental (V : Type) [LinearOrder V] :
    Incremental (AggrMinMax V)
      (fun live result => IsLeast {value | value ∈ live} result)
      (fun live mMap => mMap.Counts live) where
  init := ValueCounters.Counts.empty
  insert := by
    intro live mMap data small counts
    refine ⟨_, rfl, ?_⟩
    unfold AggrMinMax.iterate
    rw [counts data]
    by_cases present : data ∈ live
    · rw [if_pos present]
      exact counts.insert_present ((Multiset.count_le_card _ _).trans_lt small)
    · rw [if_neg present]
      exact counts.insert_absent present
  retract := by
    intro live mMap data small counts
    refine ⟨_, rfl, ?_⟩
    unfold AggrMinMax.iterate
    rw [counts data, if_pos (Multiset.mem_cons_self data live)]
    exact counts.retract ((Multiset.count_le_card _ _).trans_lt small)
  sound := by
    intro live mMap result _ counts valued
    simp only [AggrMinMax, AggrMinMax.value] at valued
    split at valued
    case isTrue entries =>
      cases valued
      have least := mMap.keys.isLeast_min' entries
      have members : (mMap.keys : Set V) = {value | value ∈ live} := by
        ext value
        simp [counts.keys]
      rwa [members] at least
    case isFalse => cases valued
  total := by
    intro live mMap some _ counts
    have entries : mMap.keys.Nonempty := by
      rw [counts.keys, Multiset.toFinset_nonempty]
      exact some
    exact ⟨mMap.keys.min' entries, dif_pos entries⟩

theorem AggrDCount.incremental (V : Type) [DecidableEq V] :
    Incremental (AggrDCount V)
      (fun live result => result = live.toFinset.card)
      (fun live dCountElements => dCountElements.Counts live) where
  init := ValueCounters.Counts.empty
  insert := by
    intro live dCountElements data small counts
    simp only [AggrDCount, AggrDCount.iterate]
    rw [counts data]
    by_cases present : data ∈ live
    · rw [if_pos present]
      exact ⟨_, rfl, counts.insert_present ((Multiset.count_le_card _ _).trans_lt small)⟩
    · rw [if_neg present]
      exact ⟨_, rfl, counts.insert_absent present⟩
  retract := by
    intro live dCountElements data small counts
    simp only [AggrDCount, AggrDCount.iterate]
    rw [counts data, if_pos (Multiset.mem_cons_self data live)]
    exact ⟨_, rfl, counts.retract ((Multiset.count_le_card _ _).trans_lt small)⟩
  sound := by
    intro live dCountElements result _ counts valued
    cases valued
    rw [counts.keys]
  total := by
    intro live dCountElements _ _ _
    exact ⟨_, rfl⟩

/-- The list of `AggrLRecent` holds as many values as are live. -/
theorem AggrLRecent.incremental (V : Type) :
    Incremental (AggrLRecent V) (fun _ _ => True)
      (fun live mData => mData.length = live.card) where
  init := rfl
  insert := by
    intro live mData data _ counted
    refine ⟨_, rfl, ?_⟩
    rw [List.length_append, counted, Multiset.card_cons]
    rfl
  retract := by
    intro live mData data _ counted
    rw [Multiset.card_cons] at counted
    cases mData with
    | nil => cases counted
    | cons first rest => exact ⟨rest, rfl, Nat.succ.inj counted⟩
  sound := fun _ _ _ => trivial
  total := by
    intro live mData some _ counted
    cases mData with
    | nil => exact absurd (Multiset.card_eq_zero.mp counted.symm) some
    | cons first rest => exact ⟨first, rfl⟩

/-! ### Aggregates of several functions -/

theorem Incremental.on {Tin : Type} {aggr : AggregateFunc Tin S Out}
    {spec : Multiset Tin → Out → Prop} {holds : Multiset Tin → S → Prop}
    (incremental : Incremental aggr spec holds) (column : α → Tin) :
    Incremental (aggr.on column) (fun live => spec (live.map column))
      (fun live => holds (live.map column)) where
  init := incremental.init
  insert := by
    intro live state data small related
    rw [Multiset.map_cons]
    apply incremental.insert (column data) _ related
    rwa [← Multiset.map_cons, Multiset.card_map]
  retract := by
    intro live state data small related
    rw [Multiset.map_cons] at related
    apply incremental.retract (column data) _ related
    rwa [← Multiset.map_cons, Multiset.card_map]
  sound := by
    intro live state result small related valued
    apply incremental.sound _ related valued
    rwa [Multiset.card_map]
  total := by
    intro live state some small related
    apply incremental.total _ _ related
    · rwa [Ne, Multiset.map_eq_zero]
    · rwa [Multiset.card_map]

theorem Incremental.both {S' Out' : Type} {aggr : AggregateFunc α S Out}
    {aggr' : AggregateFunc α S' Out'} {spec : Multiset α → Out → Prop}
    {spec' : Multiset α → Out' → Prop} {holds : Multiset α → S → Prop}
    {holds' : Multiset α → S' → Prop}
    (first : Incremental aggr spec holds)
    (second : Incremental aggr' spec' holds') :
    Incremental (aggr.both aggr')
      (fun live result => spec live result.1 ∧ spec' live result.2)
      (fun live state => holds live state.1 ∧ holds' live state.2) where
  init := ⟨first.init, second.init⟩
  insert := by
    intro live state data small both
    obtain ⟨related, related'⟩ := both
    obtain ⟨next, stepped, kept⟩ := first.insert data small related
    obtain ⟨next', stepped', kept'⟩ := second.insert data small related'
    exact ⟨(next, next'), by simp [AggregateFunc.both, stepped, stepped'],
      kept, kept'⟩
  retract := by
    intro live state data small both
    obtain ⟨related, related'⟩ := both
    obtain ⟨next, stepped, kept⟩ := first.retract data small related
    obtain ⟨next', stepped', kept'⟩ := second.retract data small related'
    exact ⟨(next, next'), by simp [AggregateFunc.both, stepped, stepped'],
      kept, kept'⟩
  sound := by
    intro live state result small both valued
    obtain ⟨related, related'⟩ := both
    simp only [AggregateFunc.both, Option.bind_eq_some_iff,
      Option.map_eq_some_iff] at valued
    obtain ⟨left, leftValue, right, rightValue, rfl⟩ := valued
    exact ⟨first.sound small related leftValue,
      second.sound small related' rightValue⟩
  total := by
    intro live state some small both
    obtain ⟨related, related'⟩ := both
    obtain ⟨result, valued⟩ := first.total some small related
    obtain ⟨result', valued'⟩ := second.total some small related'
    exact ⟨(result, result'), by simp [AggregateFunc.both, valued, valued']⟩

/-- The aggregates made of sums, counts, extrema and distinct counts of columns,
with their values over the live tuples. -/
inductive Exact {α : Type} : {S Out : Type} → AggregateFunc α S Out →
    (Multiset α → Out → Prop) → Prop where
  | sum {N : Type} [AddCommGroup N] (column : α → N) :
      Exact ((AggrSum N).on column)
        (fun live result => result = (live.map column).sum)
  | count {V : Type} (column : α → V) :
      Exact ((AggrCount V).on column)
        (fun live result => result.toNat = (live.map column).card)
  | minMax {V : Type} [LinearOrder V] (column : α → V) :
      Exact ((AggrMinMax V).on column)
        (fun live result => IsLeast {value | value ∈ live.map column} result)
  | dCount {V : Type} [DecidableEq V] (column : α → V) :
      Exact ((AggrDCount V).on column)
        (fun live result => result = (live.map column).toFinset.card)
  | both {S Out S' Out' : Type} {aggr : AggregateFunc α S Out}
      {aggr' : AggregateFunc α S' Out'} {spec : Multiset α → Out → Prop}
      {spec' : Multiset α → Out' → Prop} :
      Exact aggr spec → Exact aggr' spec' →
      Exact (aggr.both aggr')
        (fun live result => spec live result.1 ∧ spec' live result.2)

theorem Exact.incremental {aggr : AggregateFunc α S Out}
    {spec : Multiset α → Out → Prop} (exact : Exact aggr spec) :
    ∃ holds, Incremental aggr spec holds := by
  induction exact with
  | sum column => exact ⟨_, (AggrSum.incremental _).on column⟩
  | count column => exact ⟨_, (AggrCount.incremental _).on column⟩
  | minMax column => exact ⟨_, (AggrMinMax.incremental _).on column⟩
  | dCount column => exact ⟨_, (AggrDCount.incremental _).on column⟩
  | both _ _ first second =>
      obtain ⟨holds, left⟩ := first
      obtain ⟨holds', right⟩ := second
      exact ⟨_, left.both right⟩

/-- One more change of a well formed stream is iterated into the state. -/
theorem Incremental.iterate_live [DecidableEq α] {aggr : AggregateFunc α S Out}
    {spec : Multiset α → Out → Prop} {holds : Multiset α → S → Prop}
    (incremental : Incremental aggr spec holds)
    {seen : List (Change α)} {change : Change α} {state : S}
    (wellFormed : WellFormed (seen ++ [change]))
    (before : (live seen).card < 2 ^ 32)
    (after : (live (seen ++ [change])).card < 2 ^ 32)
    (related : holds (live seen) state) :
    ∃ next, aggr.iterate state change.data change.outdated = some next ∧
      holds (live (seen ++ [change])) next := by
  obtain ⟨data, outdated⟩ := change
  cases outdated with
  | false =>
      rw [live_concat_new] at after ⊢
      exact incremental.insert data after related
  | true =>
      have present := ((wellFormed_concat_outdated _ _).mp wellFormed).2
      rw [live_concat_outdated]
      apply incremental.retract data
      · rwa [Multiset.cons_erase present]
      · rwa [Multiset.cons_erase present]

/-- Over a well formed history the state stands for the live tuples. -/
theorem Incremental.replay [DecidableEq α] {aggr : AggregateFunc α S Out}
    {spec : Multiset α → Out → Prop} {holds : Multiset α → S → Prop}
    (incremental : Incremental aggr spec holds) {changes : List (Change α)}
    (wellFormed : WellFormed changes)
    (small : ∀ earlier, earlier <+: changes → (live earlier).card < 2 ^ 32) :
    ∃ state, aggr.replay changes = some state ∧ holds (live changes) state := by
  induction changes using List.reverseRecOn with
  | nil => exact ⟨aggr.init, rfl, incremental.init⟩
  | append_singleton changes change induction =>
      obtain ⟨state, replayed, related⟩ :=
        induction (wellFormed.truncate (List.prefix_append _ _))
          fun earlier start => small earlier (start.trans (List.prefix_append _ _))
      have after := small _ List.prefix_rfl
      have before := small _ (List.prefix_append changes [change])
      rw [AggregateFunc.replay_concat, replayed, Option.bind_some]
      exact incremental.iterate_live wellFormed before after related

end PipeFabric
