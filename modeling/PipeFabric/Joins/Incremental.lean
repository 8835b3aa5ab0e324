import Mathlib.Data.Multiset.Bind
import PipeFabric.Qop.SHJoin

/-!
# The symmetric hash join as an incremental view

The results published as new, minus those published as outdated, are meant to be
all matching pairs of live elements.  A retraction removes every stored copy of
its element, so this holds as long as no element is joined with partners of which
a copy was live when the partner was last retracted.
-/

namespace PipeFabric.SHJoin

open ChangeStream JoinInput

variable {L R K : Type} [DecidableEq L] [DecidableEq R] [DecidableEq K]

omit [DecidableEq L] [DecidableEq R] in
/-- All matching pairs. -/
def joined (join : SHJoin L R K) (lefts : Multiset L) (rights : Multiset R) :
    Multiset (L × R) :=
  (lefts ×ˢ rights).filter fun pair => join.Matches pair.1 pair.2

/-- The published results amount to the join of the live elements. -/
def Balanced (join : SHJoin L R K) (seen : List (JoinInput L R)) : Prop :=
  (insertions (process join seen).2 : Multiset (L × R)) =
    (retractions (process join seen).2 : Multiset (L × R)) +
      joined join (live (lefts seen)) (live (rights seen))

instance (join : SHJoin L R K) (seen : List (JoinInput L R)) :
    Decidable (Balanced join seen) :=
  inferInstanceAs (Decidable (_ = _))

/-- The partners of an arriving element are stored as often as they are live:
none of their copies was live when they were last retracted. -/
def PartnersStored (join : SHJoin L R K) (seen : List (JoinInput L R)) :
    JoinInput L R → Prop
  | .left change => ∀ right, join.Matches change.data right →
      insertedSince right (rights seen) = (live (rights seen)).count right
  | .right change => ∀ left, join.Matches left change.data →
      insertedSince left (lefts seen) = (live (lefts seen)).count left

/-! ### Hash tables -/

/-- A hash table holds every element of its side as often as it was inserted since
it was last retracted. -/
structure Stores {α : Type} [DecidableEq α] (key : α → K)
    (hashTable : HashTable K α) (changes : List (Change α)) : Prop where
  keyed : hashTable.Keyed key
  copies : ∀ data, hashTable.elements.count data = insertedSince data changes

theorem Stores.update {α : Type} [DecidableEq α] {key : α → K}
    {hashTable : HashTable K α} {changes : List (Change α)}
    (stores : Stores key hashTable changes) (change : Change α) :
    Stores key
      (hashTable.updateHashTable (key change.data) change.data change.outdated)
      (changes ++ [change]) := by
  refine ⟨stores.keyed.updateHashTable _ _, ?_⟩
  intro data
  obtain ⟨element, outdated⟩ := change
  rw [insertedSince_concat, ← stores.copies]
  cases outdated with
  | false =>
      dsimp only
      rw [HashTable.elements_insert, List.count_cons]
      by_cases same : element = data <;> simp [same]
  | true =>
      dsimp only
      rw [stores.keyed.elements_remove]
      by_cases same : element = data
      · subst same
        rw [if_pos rfl, if_pos rfl]
        apply List.count_eq_zero_of_not_mem
        simp
      · rw [if_neg same]
        apply List.count_filter
        simpa using Ne.symm same

theorem process_stores (join : SHJoin L R K) (seen : List (JoinInput L R)) :
    Stores join.mLKeyExtractor (process join seen).1.mLTable (lefts seen) ∧
      Stores join.mRKeyExtractor (process join seen).1.mRTable (rights seen) := by
  induction seen using List.reverseRecOn with
  | nil =>
      exact ⟨⟨HashTable.keyed_nil _, fun _ => rfl⟩,
        ⟨HashTable.keyed_nil _, fun _ => rfl⟩⟩
  | append_singleton seen input induction =>
      obtain ⟨leftStores, rightStores⟩ := induction
      rw [process_concat, lefts_append, rights_append]
      cases input with
      | left change =>
          rw [lefts_left, rights_left, List.append_nil]
          exact ⟨leftStores.update change, rightStores⟩
      | right change =>
          rw [lefts_right, rights_right, List.append_nil]
          exact ⟨leftStores, rightStores.update change⟩

omit [DecidableEq K] in
/-- What a probe finds is what is live if the copies agree. -/
theorem Stores.filter_eq_iff {α : Type} [DecidableEq α] {key : α → K}
    {hashTable : HashTable K α} {changes : List (Change α)}
    (stores : Stores key hashTable changes) (matching : α → Prop)
    [DecidablePred matching] :
    (hashTable.elements.filter matching : Multiset α) =
        (live changes).filter matching ↔
      ∀ data, matching data →
        insertedSince data changes = (live changes).count data := by
  rw [Multiset.ext]
  apply forall_congr'
  intro data
  rw [Multiset.coe_count, Multiset.count_filter]
  by_cases match' : matching data
  · rw [List.count_filter (by simpa using match'), stores.copies,
      if_pos match']
    exact ⟨fun equal _ => equal, fun equal => equal match'⟩
  · rw [if_neg match', List.count_eq_zero_of_not_mem (by simp [match'])]
    exact ⟨fun _ present => absurd present match', fun _ => rfl⟩

/-! ### Probing -/

/-- The results of one probe. -/
def resultsFor {α : Type} (pairs : List α) (outdated : Bool) : List (Change α) :=
  pairs.map fun pair => ⟨pair, outdated⟩

theorem insertions_resultsFor {α : Type} (pairs : List α) (outdated : Bool) :
    insertions (resultsFor pairs outdated) = if outdated then [] else pairs := by
  induction pairs with
  | nil => cases outdated <;> rfl
  | cons pair pairs induction =>
      unfold resultsFor at *
      cases outdated <;> simpa using induction

theorem retractions_resultsFor {α : Type} (pairs : List α) (outdated : Bool) :
    retractions (resultsFor pairs outdated) = if outdated then pairs else [] := by
  induction pairs with
  | nil => cases outdated <;> rfl
  | cons pair pairs induction =>
      unfold resultsFor at *
      cases outdated <;> simpa using induction

omit [DecidableEq R] in
/-- A left element is joined with the stored right elements that match it. -/
theorem processLeftDataElement_published (join : SHJoin L R K)
    {state : State L R K} (keyed : state.mRTable.Keyed join.mRKeyExtractor)
    (left : L) (outdated : Bool) :
    (processLeftDataElement join state left outdated).2 =
      resultsFor
        ((state.mRTable.elements.filter fun right => join.Matches left right).map
          (Prod.mk left)) outdated := by
  unfold processLeftDataElement joinTuples resultsFor
  dsimp only
  rw [keyed.probe, List.map_map]
  congr 1
  apply List.filter_congr
  intro right _
  rw [Bool.eq_iff_iff, decide_eq_true_iff, decide_eq_true_iff]
  exact and_congr_left fun _ => eq_comm

omit [DecidableEq L] in
/-- A right element is joined with the stored left elements that match it. -/
theorem processRightDataElement_published (join : SHJoin L R K)
    {state : State L R K} (keyed : state.mLTable.Keyed join.mLKeyExtractor)
    (right : R) (outdated : Bool) :
    (processRightDataElement join state right outdated).2 =
      resultsFor
        ((state.mLTable.elements.filter fun left => join.Matches left right).map
          fun left => (left, right)) outdated := by
  unfold processRightDataElement joinTuples resultsFor
  dsimp only
  rw [keyed.probe, List.map_map]
  rfl

/-! ### One more element -/

omit [DecidableEq L] [DecidableEq R] in
theorem joined_cons_left (join : SHJoin L R K) (left : L) (lefts : Multiset L)
    (rights : Multiset R) :
    joined join (left ::ₘ lefts) rights =
      (rights.filter fun right => join.Matches left right).map (Prod.mk left) +
        joined join lefts rights := by
  unfold joined
  rw [Multiset.cons_product, Multiset.filter_add, Multiset.filter_map]
  rfl

omit [DecidableEq L] [DecidableEq R] in
theorem joined_cons_right (join : SHJoin L R K) (right : R) (lefts : Multiset L)
    (rights : Multiset R) :
    joined join lefts (right ::ₘ rights) =
      (lefts.filter fun left => join.Matches left right).map
          (fun left => (left, right)) +
        joined join lefts rights := by
  unfold joined
  rw [Multiset.product_cons, Multiset.filter_add, Multiset.filter_map]
  rfl

omit [DecidableEq L] [DecidableEq R] [DecidableEq K] in
/-- A balance survives an element exactly when the probe finds what the element
adds to the join or takes from it. -/
theorem balance_step_iff {α : Type} {changes : List (Change α)}
    {before : Multiset α} (after partners : Multiset α) (found : List α)
    (outdated : Bool)
    (balance : (insertions changes : Multiset α) = retractions changes + before)
    (next : if outdated then before = partners + after
      else after = partners + before) :
    ((insertions (changes ++ resultsFor found outdated) : Multiset α) =
        retractions (changes ++ resultsFor found outdated) + after) ↔
      (found : Multiset α) = partners := by
  rw [insertions_append, retractions_append, insertions_resultsFor,
    retractions_resultsFor, ← Multiset.coe_add, ← Multiset.coe_add, balance]
  cases outdated with
  | false =>
      simp only [Bool.false_eq_true, if_false, Multiset.coe_nil, add_zero]
        at next ⊢
      rw [next, add_assoc, add_right_inj, add_comm before, add_left_inj]
  | true =>
      simp only [if_true, Multiset.coe_nil, add_zero] at next ⊢
      rw [next, add_assoc, add_right_inj, add_left_inj, eq_comm]

theorem balanced_concat_left (join : SHJoin L R K)
    {seen : List (JoinInput L R)} (change : Change L)
    (wellFormed : WellFormed (lefts seen ++ [change]))
    (balanced : Balanced join seen) :
    Balanced join (seen ++ [.left change]) ↔
      PartnersStored join seen (.left change) := by
  obtain ⟨_, stores⟩ := process_stores join seen
  have next := wellFormed.live_concat
  unfold Balanced at *
  simp only [process_concat, processDataElement, lefts_append, rights_append,
    lefts_left, rights_left, List.append_nil]
  rw [processLeftDataElement_published join stores.keyed]
  have step := balance_step_iff
    (joined join (live (lefts seen ++ [change])) (live (rights seen)))
    (((live (rights seen)).filter fun right =>
      join.Matches change.data right).map (Prod.mk change.data))
    ((((process join seen).1.mRTable.elements.filter fun right =>
      join.Matches change.data right)).map (Prod.mk change.data))
    change.outdated balanced (by
      split at next <;> rename_i flag
      · rw [if_pos flag, next, joined_cons_left]
      · rw [if_neg flag, next, joined_cons_left])
  rw [step, ← Multiset.map_coe,
    (Multiset.map_injective (Prod.mk_right_injective change.data)).eq_iff,
    stores.filter_eq_iff]
  rfl

theorem balanced_concat_right (join : SHJoin L R K)
    {seen : List (JoinInput L R)} (change : Change R)
    (wellFormed : WellFormed (rights seen ++ [change]))
    (balanced : Balanced join seen) :
    Balanced join (seen ++ [.right change]) ↔
      PartnersStored join seen (.right change) := by
  obtain ⟨stores, _⟩ := process_stores join seen
  have next := wellFormed.live_concat
  unfold Balanced at *
  simp only [process_concat, processDataElement, lefts_append, rights_append,
    lefts_right, rights_right, List.append_nil]
  rw [processRightDataElement_published join stores.keyed]
  have step := balance_step_iff
    (joined join (live (lefts seen)) (live (rights seen ++ [change])))
    (((live (lefts seen)).filter fun left =>
      join.Matches left change.data).map fun left => (left, change.data))
    ((((process join seen).1.mLTable.elements.filter fun left =>
      join.Matches left change.data)).map fun left => (left, change.data))
    change.outdated balanced (by
      split at next <;> rename_i flag
      · rw [if_pos flag, next, joined_cons_right]
      · rw [if_neg flag, next, joined_cons_right])
  rw [step, ← Multiset.map_coe,
    (Multiset.map_injective (Prod.mk_left_injective change.data)).eq_iff,
    stores.filter_eq_iff]
  rfl

/-- Where every outdated element retracts a live one of its side, the published
results amount to the join of the live elements after every element exactly when
no arriving element has a partner of which a copy was live at its last
retraction. -/
theorem shJoin_incremental (join : SHJoin L R K) (inputs : List (JoinInput L R))
    (leftWellFormed : WellFormed (lefts inputs))
    (rightWellFormed : WellFormed (rights inputs)) :
    (∀ seen, seen <+: inputs → Balanced join seen) ↔
      ∀ seen input, seen ++ [input] <+: inputs →
        PartnersStored join seen input := by
  refine Transducer.forall_arrivals_iff
    (fun inputs => ∀ seen, seen <+: inputs → Balanced join seen) inputs ?_ ?_
  · intro seen start
    rw [List.prefix_nil.mp start]
    rfl
  · intro seen input start
    have leftPart := leftWellFormed.truncate (lefts_mono start)
    have rightPart := rightWellFormed.truncate (rights_mono start)
    have last : Balanced join seen →
        (Balanced join (seen ++ [input]) ↔ PartnersStored join seen input) := by
      intro balanced
      cases input with
      | left change =>
          apply balanced_concat_left join change _ balanced
          simpa using leftPart
      | right change =>
          apply balanced_concat_right join change _ balanced
          simpa using rightPart
    constructor
    · intro every
      have before : ∀ earlier, earlier <+: seen → Balanced join earlier :=
        fun earlier part => every earlier (part.trans (List.prefix_append _ _))
      exact ⟨before, (last (before seen List.prefix_rfl)).mp
        (every _ List.prefix_rfl)⟩
    · intro every earlier part
      obtain ⟨before, stored⟩ := every
      rcases List.prefix_concat_iff.mp part with whole | inside
      · rw [whole]
        exact (last (before seen List.prefix_rfl)).mpr stored
      · exact before earlier inside

theorem shJoin_incremental_distinct :
    (∀ seen, seen <+: [.left ⟨1, false⟩, .right ⟨1, false⟩, .left ⟨1, true⟩] →
      Balanced (⟨fun _ _ => true, id, id⟩ : SHJoin Nat Nat Nat) seen) ↔
      ∀ seen input, seen ++ [input] <+:
          [.left ⟨1, false⟩, .right ⟨1, false⟩, .left ⟨1, true⟩] →
        PartnersStored (⟨fun _ _ => true, id, id⟩ : SHJoin Nat Nat Nat) seen
          input :=
  shJoin_incremental ⟨fun _ _ => true, id, id⟩ _ (by decide) (by decide)

/-- A left element arrives twice and is retracted once: the remaining copy is not
joined with the right element that arrives next. -/
theorem not_shJoin_incremental :
    WellFormed (lefts [(.left ⟨1, false⟩ : JoinInput Nat Nat), .left ⟨1, false⟩,
        .left ⟨1, true⟩, .right ⟨1, false⟩]) ∧
      ¬ Balanced (⟨fun _ _ => true, id, id⟩ : SHJoin Nat Nat Nat)
        [.left ⟨1, false⟩, .left ⟨1, false⟩, .left ⟨1, true⟩,
          .right ⟨1, false⟩] := by
  decide

end PipeFabric.SHJoin
