import Mathlib.Order.OrderDual
import PipeFabric.Aggregates.Incremental

/-!
# Aggregates that count values

The maps of `AggrMinMax` and `AggrDCount` hold the live values with their numbers of
copies, whatever the order of insertions and retractions, as long as the copies of no
value fill a counter.  The list of `AggrLRecent` holds the values that were not taken off
its front.
-/

namespace PipeFabric

open ChangeStream

section

variable {V : Type} [LinearOrder V]

/-- No value has as many live copies as an `unsigned int` has values. -/
def CountersFit (changes : List (Change V)) : Prop :=
  ∀ seen, seen <+: changes → ∀ value, (live seen).count value < 2 ^ 32

theorem CountersFit.truncate {seen changes : List (Change V)} (fits : CountersFit changes)
    (start : seen <+: changes) : CountersFit seen :=
  fun earlier before => fits earlier (before.trans start)

/-- The map of `AggrMinMax`, with the values in any order. -/
theorem AggrMinMax.replay_live {W : Type} [LinearOrder W] {column : V → W}
    (injective : Function.Injective column) {changes : List (Change V)}
    (wellFormed : WellFormed changes) (fits : CountersFit changes) :
    ∃ mMap : ValueCounters W, ((AggrMinMax W).on column).replay changes = some mMap ∧
      mMap.Counts ((live changes).map column) := by
  induction changes using List.reverseRecOn with
  | nil => exact ⟨∅, rfl, ValueCounters.Counts.empty⟩
  | append_singleton changes change induction =>
      obtain ⟨mMap, replayed, counts⟩ :=
        induction (wellFormed.truncate (List.prefix_append _ _))
          (fits.truncate (List.prefix_append _ _))
      refine ⟨AggrMinMax.iterate mMap (column change.data) change.outdated, ?_, ?_⟩
      · rw [AggregateFunc.replay_concat, replayed]
        rfl
      · have small := fits (changes ++ [change]) List.prefix_rfl change.data
        have before := fits changes (List.prefix_append _ _) change.data
        rw [← Multiset.count_map_eq_count' column _ injective] at small before
        obtain ⟨data, outdated⟩ := change
        unfold AggrMinMax.iterate
        rw [counts (column data)]
        cases outdated with
        | false =>
            rw [live_concat_new, Multiset.map_cons] at small ⊢
            by_cases present : column data ∈ (live changes).map column
            · rw [if_pos present]
              exact counts.insert_present small
            · rw [if_neg present]
              exact counts.insert_absent present
        | true =>
            have present := ((wellFormed_concat_outdated _ _).mp wellFormed).2
            rw [live_concat_outdated]
            obtain ⟨rest, split⟩ := Multiset.exists_cons_of_mem present
            rw [split, Multiset.map_cons] at counts before
            rw [split, Multiset.map_cons, if_pos (Multiset.mem_cons_self _ _),
              Multiset.erase_cons_head]
            exact counts.retract before

theorem AggrMinMax.value_isLeast {mMap : ValueCounters V} {live : Multiset V}
    (counts : mMap.Counts live) (some : live ≠ 0) :
    ∃ result, (AggrMinMax V).value mMap = Option.some result ∧
      IsLeast {value | value ∈ live} result := by
  have entries : mMap.keys.Nonempty := by
    rw [counts.keys, Multiset.toFinset_nonempty]
    exact some
  refine ⟨mMap.keys.min' entries, dif_pos entries, ?_⟩
  have least := mMap.keys.isLeast_min' entries
  have members : (mMap.keys : Set V) = {value | value ∈ live} := by
    ext value
    simp [counts.keys]
  rwa [members] at least

/-- The table of `AggrDCount`. -/
theorem AggrDCount.replay_live {changes : List (Change V)} (wellFormed : WellFormed changes)
    (fits : CountersFit changes) :
    ∃ dCountElements : ValueCounters V, (AggrDCount V).replay changes = some dCountElements ∧
      dCountElements.Counts (live changes) := by
  induction changes using List.reverseRecOn with
  | nil => exact ⟨∅, rfl, ValueCounters.Counts.empty⟩
  | append_singleton changes change induction =>
      obtain ⟨dCountElements, replayed, counts⟩ :=
        induction (wellFormed.truncate (List.prefix_append _ _))
          (fits.truncate (List.prefix_append _ _))
      have small := fits (changes ++ [change]) List.prefix_rfl change.data
      have before := fits changes (List.prefix_append _ _) change.data
      rw [AggregateFunc.replay_concat, replayed, Option.bind_some]
      obtain ⟨data, outdated⟩ := change
      simp only [AggrDCount, AggrDCount.iterate]
      rw [counts data]
      cases outdated with
      | false =>
          rw [live_concat_new] at small ⊢
          by_cases present : data ∈ live changes
          · rw [if_pos present]
            exact ⟨_, rfl, counts.insert_present small⟩
          · rw [if_neg present]
            exact ⟨_, rfl, counts.insert_absent present⟩
      | true =>
          have present := ((wellFormed_concat_outdated _ _).mp wellFormed).2
          rw [live_concat_outdated]
          obtain ⟨rest, split⟩ := Multiset.exists_cons_of_mem present
          rw [split] at counts before
          rw [split, if_pos (Multiset.mem_cons_self _ _), Multiset.erase_cons_head]
          exact ⟨_, rfl, counts.retract before⟩

/-- The arrival that fills the counter of a value erases its entry. -/
theorem AggrDCount.iterate_full {dCountElements : ValueCounters V} {live : Multiset V}
    {data : V} (counts : dCountElements.Counts live)
    (full : (data ::ₘ live).count data = 2 ^ 32) :
    (AggrDCount V).iterate dCountElements data false = some (dCountElements.erase data) := by
  rw [Multiset.count_cons_self] at full
  have present : data ∈ live := Multiset.count_pos.mp (by omega)
  have zero : UInt32.ofNat (live.count data) + 1 = 0 := by
    have next : UInt32.ofNat (live.count data) + 1 = UInt32.ofNat (live.count data + 1) := by
      rw [UInt32.ofNat_add]
      rfl
    rw [next, full]
    rfl
  simp only [AggrDCount, AggrDCount.iterate]
  rw [counts data, if_pos present]
  simp only [ValueCounters.count, Bool.false_eq_true, if_false, zero, if_true]

omit [LinearOrder V] in
/-- With retractions in the order of insertions the list holds what was inserted and not
retracted. -/
theorem AggrLRecent.replay_ordered {changes : List (Change V)}
    (ordered : FirstInFirstOut changes) :
    (AggrLRecent V).replay changes =
      some ((insertions changes).drop (retractions changes).length) := by
  induction changes using List.reverseRecOn with
  | nil => rfl
  | append_singleton changes change induction =>
      have before : FirstInFirstOut changes := fun earlier start =>
        ordered earlier (start.trans (List.prefix_append _ _))
      have inside := ordered _ List.prefix_rfl
      rw [AggregateFunc.replay_concat, induction before, Option.bind_some]
      obtain ⟨data, outdated⟩ := change
      cases outdated with
      | false =>
          have bounded := (before changes List.prefix_rfl).length_le
          simp only [insertions_append, insertions_cons_new, insertions_nil,
            retractions_append, retractions_cons_new, retractions_nil, List.append_nil]
          rw [List.drop_append_of_le_length bounded]
          rfl
      | true =>
          have bounded := inside.length_le
          simp only [insertions_append, insertions_cons_outdated, insertions_nil,
            retractions_append, retractions_cons_outdated, retractions_nil, List.append_nil,
            List.length_append, List.length_singleton] at bounded ⊢
          rw [List.drop_eq_getElem_cons (by omega)]
          rfl

/-- What the aggregates promise after some changes. -/
structure CountsExactly (changes : List (Change V)) : Prop where
  minimum : ∃ mMap, (AggrMinMax V).replay changes = some mMap ∧
    (live changes ≠ 0 → ∃ result, (AggrMinMax V).value mMap = some result ∧
      IsLeast {value | value ∈ live changes} result)
  maximum : ∃ mMap, ((AggrMinMax Vᵒᵈ).on OrderDual.toDual).replay changes = some mMap ∧
    (live changes ≠ 0 → ∃ result, (AggrMinMax Vᵒᵈ).value mMap = some (OrderDual.toDual result) ∧
      IsGreatest {value | value ∈ live changes} result)
  distinct : ∃ dCountElements, (AggrDCount V).replay changes = some dCountElements ∧
    (AggrDCount V).value dCountElements = some (live changes).toFinset.card
  leastRecent : FirstInFirstOut changes →
    ∃ mData, (AggrLRecent V).replay changes = some mData ∧
      (live changes ≠ 0 → ∃ result, (AggrLRecent V).value mData = some result ∧
        (insertions changes)[(retractions changes).length]? = some result)

theorem countsExactly_of_fits {changes : List (Change V)} (wellFormed : WellFormed changes)
    (fits : CountersFit changes) : CountsExactly changes where
  minimum := by
    obtain ⟨mMap, replayed, counts⟩ :=
      AggrMinMax.replay_live Function.injective_id wellFormed fits
    rw [Multiset.map_id] at counts
    exact ⟨mMap, replayed, AggrMinMax.value_isLeast counts⟩
  maximum := by
    obtain ⟨mMap, replayed, counts⟩ :=
      AggrMinMax.replay_live OrderDual.toDual.injective wellFormed fits
    refine ⟨mMap, replayed, fun some => ?_⟩
    have filled : (live changes).map OrderDual.toDual ≠ 0 := by
      intro none
      exact some (Multiset.map_eq_zero.mp none)
    obtain ⟨result, valued, member, least⟩ := AggrMinMax.value_isLeast counts filled
    obtain ⟨value, present, same⟩ := Multiset.mem_map.mp member
    refine ⟨value, ?_, present, ?_⟩
    · rw [valued, same]
    · intro other here
      have bounded := least (Multiset.mem_map_of_mem OrderDual.toDual here)
      rw [← same] at bounded
      exact OrderDual.toDual_le_toDual.mp bounded
  distinct := by
    obtain ⟨dCountElements, replayed, counts⟩ := AggrDCount.replay_live wellFormed fits
    refine ⟨dCountElements, replayed, ?_⟩
    simp only [AggrDCount, counts.keys]
  leastRecent := by
    intro ordered
    refine ⟨_, AggrLRecent.replay_ordered ordered, fun some => ?_⟩
    have balance := wellFormed.card_live
    have positive := Multiset.card_pos.mpr some
    have present : (retractions changes).length < (insertions changes).length := by omega
    refine ⟨(insertions changes)[(retractions changes).length], ?_,
      List.getElem?_eq_getElem present⟩
    simp only [AggrLRecent, List.head?_drop, List.getElem?_eq_getElem present]

/-- A right number of distinct values means that no counter has been filled. -/
theorem fits_of_countsExactly {changes : List (Change V)} (wellFormed : WellFormed changes)
    (exact : ∀ seen, seen <+: changes → CountsExactly seen) : CountersFit changes := by
  induction changes using List.reverseRecOn with
  | nil =>
      intro seen start value
      rw [List.prefix_nil.mp start, live_nil, Multiset.count_zero]
      exact Nat.two_pow_pos 32
  | append_singleton changes change induction =>
      have earlier := wellFormed.truncate (List.prefix_append changes [change])
      have fits := induction earlier fun seen start =>
        exact seen (start.trans (List.prefix_append _ _))
      intro seen start value
      rcases List.prefix_concat_iff.mp start with whole | inside
      · subst whole
        have before := fits changes List.prefix_rfl value
        obtain ⟨data, outdated⟩ := change
        cases outdated with
        | true =>
            rw [live_concat_outdated]
            exact Nat.lt_of_le_of_lt (Multiset.count_le_of_le value (Multiset.erase_le _ _))
              before
        | false =>
            rw [live_concat_new]
            by_contra overflow
            have more := Multiset.count_cons value data (live changes)
            have same : value = data := by
              by_contra other
              rw [if_neg other] at more
              omega
            subst same
            rw [if_pos rfl] at more
            have full : (value ::ₘ live changes).count value = 2 ^ 32 := by omega
            obtain ⟨table, replayed, counts⟩ := AggrDCount.replay_live earlier fits
            obtain ⟨next, reached, valued⟩ := (exact _ List.prefix_rfl).distinct
            rw [AggregateFunc.replay_concat, replayed, Option.bind_some,
              AggrDCount.iterate_full counts full] at reached
            obtain rfl := Option.some.inj reached
            have present : value ∈ live changes := Multiset.count_pos.mp (by omega)
            have distinct := Option.some.inj valued
            rw [live_concat_new, Finmap.keys_erase, counts.keys, Multiset.toFinset_cons,
              Finset.insert_eq_of_mem (Multiset.mem_toFinset.mpr present)] at distinct
            have fewer := Finset.card_erase_lt_of_mem (Multiset.mem_toFinset.mpr present)
            omega
      · exact fits seen inside value

/-- The aggregates are right after every change just when no value ever has 2^32 live
copies. -/
theorem countingMaps_exact (changes : List (Change V)) (wellFormed : WellFormed changes) :
    (∀ seen, seen <+: changes → CountsExactly seen) ↔
      ∀ seen, seen <+: changes → ∀ value, (live seen).count value < 2 ^ 32 := by
  constructor
  · exact fits_of_countsExactly wellFormed
  · intro fits seen start
    exact countsExactly_of_fits (wellFormed.truncate start) (CountersFit.truncate fits start)

end

theorem countingMaps_exact_duplicates :
    (∀ seen, seen <+: [⟨(3 : Int), false⟩, ⟨3, false⟩, ⟨3, true⟩] → CountsExactly seen) ↔
      ∀ seen, seen <+: [⟨(3 : Int), false⟩, ⟨3, false⟩, ⟨3, true⟩] →
        ∀ value, (live seen).count value < 2 ^ 32 :=
  countingMaps_exact [⟨3, false⟩, ⟨3, false⟩, ⟨3, true⟩] (by decide)

theorem not_exact_of_copies (data : Int) {arrived : Nat} (many : 2 ^ 32 ≤ arrived) :
    ¬ ∀ seen, seen <+: insertAll (List.replicate arrived data) → CountsExactly seen := by
  intro exact
  have wellFormed := wellFormed_insertAll (List.replicate arrived data)
  have fits := fits_of_countsExactly wellFormed exact _ List.prefix_rfl data
  have balance := wellFormed.count_live data
  rw [insertions_insertAll, retractions_insertAll, List.count_nil, Nat.add_zero,
    List.count_replicate_self] at balance
  omega

/-- 2^32 copies of one value: the last one takes the counter to zero and the entry out of
the map. -/
theorem not_countingMaps_exact :
    WellFormed (insertAll (List.replicate (2 ^ 32) (7 : Int))) ∧
      ¬ ∀ seen, seen <+: insertAll (List.replicate (2 ^ 32) (7 : Int)) → CountsExactly seen :=
  ⟨wellFormed_insertAll _, not_exact_of_copies 7 (Nat.le_refl _)⟩

end PipeFabric
