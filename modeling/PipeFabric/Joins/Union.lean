import Mathlib.Algebra.BigOperators.Group.Finset.Piecewise
import Mathlib.Algebra.Order.Group.Multiset
import PipeFabric.Joins.Shares

/-!
# The union of the scale join instances

All instances together join an arriving element with the live elements of the
other side that some instance keeps, comparing its key with what `key_t` made of
theirs.  The symmetric hash join compares the keys themselves.
-/

namespace PipeFabric.ScaleJoin

open ChangeStream JoinInput

variable {L R K : Type} [DecidableEq L] [DecidableEq R] [DecidableEq K]

/-- Everything the instances publish. -/
def union (join : SHJoin L R K) (key_t : K → K) (threadnum : Nat)
    (inputs : List (JoinInput L R)) : Multiset (Change (L × R)) :=
  Finset.sum (Finset.range threadnum) fun i =>
    ((process (scJoin join key_t threadnum i) inputs).2 : Multiset _)

/-- What an instance publishes for one element. -/
def shareResults (join : SHJoin L R K) (key_t : K → K) (threadnum i : Nat)
    (seen : List (JoinInput L R)) : JoinInput L R → List (Change (L × R))
  | .left change =>
      ((share threadnum i (rights seen)).filter fun right =>
        key_t (join.mRKeyExtractor right) = join.mLKeyExtractor change.data ∧
          join.mJoinPredicate change.data right = true).map fun right =>
        ⟨(change.data, right), change.outdated⟩
  | .right change =>
      ((share threadnum i (lefts seen)).filter fun left =>
        key_t (join.mLKeyExtractor left) = join.mRKeyExtractor change.data ∧
          join.mJoinPredicate left change.data = true).map fun left =>
        ⟨(left, change.data), change.outdated⟩

/-- What all instances publish for one element. -/
def keptResults (join : SHJoin L R K) (key_t : K → K) (threadnum : Nat)
    (seen : List (JoinInput L R)) : JoinInput L R → List (Change (L × R))
  | .left change =>
      ((numbered (rights seen)).filter fun entry =>
        (keeper threadnum entry.2).isSome = true ∧
          key_t (join.mRKeyExtractor entry.1) =
            join.mLKeyExtractor change.data ∧
          join.mJoinPredicate change.data entry.1 = true).map fun entry =>
        ⟨(change.data, entry.1), change.outdated⟩
  | .right change =>
      ((numbered (lefts seen)).filter fun entry =>
        (keeper threadnum entry.2).isSome = true ∧
          key_t (join.mLKeyExtractor entry.1) =
            join.mRKeyExtractor change.data ∧
          join.mJoinPredicate entry.1 change.data = true).map fun entry =>
        ⟨(entry.1, change.data), change.outdated⟩

/-- What the symmetric hash join publishes for one element. -/
def liveResults (join : SHJoin L R K) (seen : List (JoinInput L R)) :
    JoinInput L R → List (Change (L × R))
  | .left change =>
      ((numbered (rights seen)).filter fun entry =>
        join.Matches change.data entry.1).map fun entry =>
        ⟨(change.data, entry.1), change.outdated⟩
  | .right change =>
      ((numbered (lefts seen)).filter fun entry =>
        join.Matches entry.1 change.data).map fun entry =>
        ⟨(entry.1, change.data), change.outdated⟩

omit [DecidableEq L] [DecidableEq R] [DecidableEq K] in
/-- Every kept element is in the share of exactly one instance. -/
theorem sum_share {α β : Type} {threadnum : Nat} (positive : 0 < threadnum)
    (changes : List (Change α)) (found : α → Prop) [DecidablePred found]
    (result : α → β) :
    (Finset.sum (Finset.range threadnum) fun i =>
      (((share threadnum i changes).filter found).map result : Multiset β)) =
      ((((numbered changes).filter fun entry =>
        (keeper threadnum entry.2).isSome = true ∧ found entry.1).map
          fun entry => result entry.1 : List β) : Multiset β) := by
  unfold share
  generalize numbered changes = entries
  induction entries with
  | nil => simp
  | cons entry entries induction =>
      have split : ∀ i, (((((entry :: entries).filter fun other =>
          keeper threadnum other.2 = some i).map Prod.fst).filter found).map
            result : Multiset β) =
          (if keeper threadnum entry.2 = some i ∧ found entry.1 then
            {result entry.1} else 0) +
          ((((entries.filter fun other =>
            keeper threadnum other.2 = some i).map Prod.fst).filter found).map
              result : Multiset β) := by
        intro i
        rw [List.filter_cons]
        by_cases turn : keeper threadnum entry.2 = some i
        · by_cases here : found entry.1
          · simp only [turn, decide_true, if_true, List.map_cons,
              List.filter_cons, here, and_self, ← Multiset.cons_coe,
              Multiset.singleton_add]
          · simp [turn, here]
        · simp [turn]
      rw [Finset.sum_congr rfl fun i _ => split i, Finset.sum_add_distrib,
        induction, List.filter_cons]
      cases turn : keeper threadnum entry.2 with
      | none => simp
      | some mID =>
          have member : mID ∈ Finset.range threadnum := by
            rw [Finset.mem_range]
            exact ((keeper_eq_some positive _ _).mp turn).1
          by_cases here : found entry.1
          · simp only [Option.some_inj, here, and_true, Option.isSome_some,
              decide_true, if_true, List.map_cons, ← Multiset.cons_coe]
            rw [Finset.sum_ite_eq, if_pos member, Multiset.singleton_add]
          · simp [here]

/-- What one instance publishes for one element. -/
theorem processDataElement_published (join : SHJoin L R K) (key_t : K → K)
    {threadnum i : Nat} (running : i < threadnum)
    {seen : List (JoinInput L R)} (leftOrderly : Orderly (lefts seen))
    (rightOrderly : Orderly (rights seen)) (input : JoinInput L R) :
    ((processDataElement (scJoin join key_t threadnum i)
      (process (scJoin join key_t threadnum i) seen).1 input).2 :
        Multiset (Change (L × R))) =
      shareResults join key_t threadnum i seen input := by
  obtain ⟨left, right⟩ := process_holds (scJoin join key_t threadnum i)
    running leftOrderly rightOrderly
  cases input with
  | left change =>
      simp only [processDataElement, processLeftDataElement, joinTuples]
      rw [right.keyed.probe, ← Multiset.map_coe, ← Multiset.filter_coe,
        right.elements]
      rfl
  | right change =>
      simp only [processDataElement, processRightDataElement, joinTuples]
      rw [left.keyed.probe, ← Multiset.map_coe, ← Multiset.filter_coe,
        left.elements]
      rfl

theorem union_concat {join : SHJoin L R K} {key_t : K → K} {threadnum : Nat}
    (positive : 0 < threadnum) {seen : List (JoinInput L R)}
    (leftOrderly : Orderly (lefts seen)) (rightOrderly : Orderly (rights seen))
    (input : JoinInput L R) :
    union join key_t threadnum (seen ++ [input]) =
      union join key_t threadnum seen +
        (keptResults join key_t threadnum seen input :
          Multiset (Change (L × R))) := by
  unfold union
  rw [Finset.sum_congr rfl fun i _ => by
    rw [process_concat, ← Multiset.coe_add], Finset.sum_add_distrib]
  congr 1
  rw [Finset.sum_congr rfl fun i member =>
    processDataElement_published join key_t (Finset.mem_range.mp member)
      leftOrderly rightOrderly input]
  cases input with
  | left change => exact sum_share positive _ _ _
  | right change => exact sum_share positive _ _ _

omit [DecidableEq K] in
/-- With distinct live elements a hash table of the symmetric hash join holds the
live elements. -/
theorem stores_elements {α : Type} [DecidableEq α] {key : α → K}
    {hashTable : HashTable K α} {changes : List (Change α)}
    (stores : SHJoin.Stores key hashTable changes) (orderly : Orderly changes) :
    (hashTable.elements : Multiset α) =
      ((numbered changes).map Prod.fst : List α) := by
  rw [numbered_map_fst, ← orderly.ordered.live_eq]
  ext data
  rw [Multiset.coe_count, stores.copies, orderly.insertedSince_eq_count]

theorem shJoin_concat {join : SHJoin L R K} {seen : List (JoinInput L R)}
    (leftOrderly : Orderly (lefts seen)) (rightOrderly : Orderly (rights seen))
    (input : JoinInput L R) :
    ((SHJoin.process join (seen ++ [input])).2 : Multiset (Change (L × R))) =
      ((SHJoin.process join seen).2 : Multiset (Change (L × R))) +
        (liveResults join seen input : Multiset (Change (L × R))) := by
  obtain ⟨left, right⟩ := SHJoin.process_stores join seen
  rw [SHJoin.process_concat, ← Multiset.coe_add]
  congr 1
  cases input with
  | left change =>
      simp only [SHJoin.processDataElement]
      rw [SHJoin.processLeftDataElement_published join right.keyed]
      unfold SHJoin.resultsFor liveResults
      rw [List.map_map, ← Multiset.map_coe, ← Multiset.filter_coe,
        stores_elements right rightOrderly, Multiset.filter_coe,
        Multiset.map_coe, List.filter_map, List.map_map]
      rfl
  | right change =>
      simp only [SHJoin.processDataElement]
      rw [SHJoin.processRightDataElement_published join left.keyed]
      unfold SHJoin.resultsFor liveResults
      rw [List.map_map, ← Multiset.map_coe, ← Multiset.filter_coe,
        stores_elements left leftOrderly, Multiset.filter_coe,
        Multiset.map_coe, List.filter_map, List.map_map]
      rfl

/-! ### Comparison with the symmetric hash join -/

/-- An arriving element finds the same partners among the kept elements as among
the live ones. -/
def FindsPartners (join : SHJoin L R K) (key_t : K → K) (threadnum : Nat)
    (seen : List (JoinInput L R)) : JoinInput L R → Prop
  | .left change => ∀ entry ∈ numbered (rights seen),
      join.mJoinPredicate change.data entry.1 = true →
        ((keeper threadnum entry.2).isSome = true ∧
            key_t (join.mRKeyExtractor entry.1) =
              join.mLKeyExtractor change.data ↔
          join.mLKeyExtractor change.data = join.mRKeyExtractor entry.1)
  | .right change => ∀ entry ∈ numbered (lefts seen),
      join.mJoinPredicate entry.1 change.data = true →
        ((keeper threadnum entry.2).isSome = true ∧
            key_t (join.mLKeyExtractor entry.1) =
              join.mRKeyExtractor change.data ↔
          join.mLKeyExtractor entry.1 = join.mRKeyExtractor change.data)

omit [DecidableEq K] [DecidableEq L] [DecidableEq R] in
theorem map_filter_eq_iff {α β : Type} {entries : List α} {result : α → β}
    (distinct : (entries.map result).Nodup) (first second : α → Prop)
    [DecidablePred first] [DecidablePred second] :
    (((entries.filter first).map result : List β) : Multiset β) =
        (entries.filter second).map result ↔
      ∀ entry ∈ entries, first entry ↔ second entry := by
  constructor
  · have one : ∀ (some other : α → Prop) [DecidablePred some]
        [DecidablePred other],
        (((entries.filter some).map result : List β) : Multiset β) =
          (entries.filter other).map result →
        ∀ entry ∈ entries, some entry → other entry := by
      intro some other _ _ equal entry member holds
      have found : result entry ∈ (entries.filter some).map result :=
        List.mem_map_of_mem (List.mem_filter.mpr ⟨member, by simpa using holds⟩)
      rw [← Multiset.mem_coe, equal, Multiset.mem_coe] at found
      obtain ⟨twin, twinFound, same⟩ := List.mem_map.mp found
      obtain ⟨twinMember, twinHolds⟩ := List.mem_filter.mp twinFound
      have entryIs := List.inj_on_of_nodup_map distinct twinMember member same
      subst entryIs
      simpa using twinHolds
    intro equal entry member
    exact ⟨one first second equal entry member,
      one second first equal.symm entry member⟩
  · intro agree
    congr 2
    apply List.filter_congr
    intro entry member
    simpa using agree entry member

omit [DecidableEq K] [DecidableEq L] [DecidableEq R] in
theorem numbered_nodup {α β : Type} [DecidableEq α] {changes : List (Change α)}
    (orderly : Orderly changes) {result : α → β}
    (injective : Function.Injective result) :
    ((numbered changes).map fun entry => result entry.1).Nodup := by
  have distinct := orderly.distinct changes List.prefix_rfl
  rw [orderly.ordered.live_eq, ← numbered_map_fst, Multiset.coe_nodup]
    at distinct
  have mapped := distinct.map injective
  rwa [List.map_map] at mapped

/-- The instances agree with the symmetric hash join on one element. -/
theorem results_eq_iff (join : SHJoin L R K) (key_t : K → K) (threadnum : Nat)
    {seen : List (JoinInput L R)} (leftOrderly : Orderly (lefts seen))
    (rightOrderly : Orderly (rights seen)) (input : JoinInput L R) :
    (keptResults join key_t threadnum seen input :
        Multiset (Change (L × R))) = liveResults join seen input ↔
      FindsPartners join key_t threadnum seen input := by
  cases input with
  | left change =>
      have injective : Function.Injective fun right : R =>
          (⟨(change.data, right), change.outdated⟩ : Change (L × R)) := by
        intro first second equal
        simpa using equal
      unfold keptResults liveResults
      rw [map_filter_eq_iff (numbered_nodup rightOrderly injective)]
      apply forall₂_congr
      intro entry _
      unfold SHJoin.Matches
      grind
  | right change =>
      have injective : Function.Injective fun left : L =>
          (⟨(left, change.data), change.outdated⟩ : Change (L × R)) := by
        intro first second equal
        simpa using equal
      unfold keptResults liveResults
      rw [map_filter_eq_iff (numbered_nodup leftOrderly injective)]
      apply forall₂_congr
      intro entry _
      unfold SHJoin.Matches
      grind

/-- The keys of a published pair agree. -/
def SameKey (join : SHJoin L R K) (change : Change (L × R)) : Prop :=
  join.mLKeyExtractor change.data.1 = join.mRKeyExtractor change.data.2

instance (join : SHJoin L R K) : DecidablePred (SameKey join) :=
  fun _ => inferInstanceAs (Decidable (_ = _))

omit [DecidableEq L] [DecidableEq R] in
theorem liveResults_sameKey (join : SHJoin L R K) (seen : List (JoinInput L R))
    (input : JoinInput L R) :
    ∀ change ∈ liveResults join seen input, SameKey join change := by
  intro change member
  cases input with
  | left arrived =>
      obtain ⟨entry, found, rfl⟩ := List.mem_map.mp member
      have agrees := (List.mem_filter.mp found).2
      simp only [decide_eq_true_eq] at agrees
      exact agrees.1
  | right arrived =>
      obtain ⟨entry, found, rfl⟩ := List.mem_map.mp member
      have agrees := (List.mem_filter.mp found).2
      simp only [decide_eq_true_eq] at agrees
      exact agrees.1

omit [DecidableEq L] [DecidableEq R] in
/-- With equal keys the instances publish nothing the symmetric hash join does not
publish. -/
theorem keptResults_filter_le (join : SHJoin L R K) (key_t : K → K)
    (threadnum : Nat) (seen : List (JoinInput L R)) (input : JoinInput L R) :
    (keptResults join key_t threadnum seen input :
        Multiset (Change (L × R))).filter (SameKey join) ≤
      liveResults join seen input := by
  rw [Multiset.filter_coe, Multiset.coe_le]
  apply List.Sublist.subperm
  cases input with
  | left arrived =>
      unfold keptResults liveResults
      rw [List.filter_map, List.filter_filter]
      apply List.Sublist.map
      apply List.monotone_filter_right
      intro entry
      simp only [Function.comp, Bool.and_eq_true, decide_eq_true_eq]
      exact fun holds => ⟨holds.1, holds.2.2.2⟩
  | right arrived =>
      unfold keptResults liveResults
      rw [List.filter_map, List.filter_filter]
      apply List.Sublist.map
      apply List.monotone_filter_right
      intro entry
      simp only [Function.comp, Bool.and_eq_true, decide_eq_true_eq]
      exact fun holds => ⟨holds.1, holds.2.2.2⟩

omit [DecidableEq K] [DecidableEq L] [DecidableEq R] in
/-- Equal sums have equal parts when one part cannot make up for another. -/
theorem eq_and_eq_of_add_eq {α : Type} [DecidableEq α]
    {first second third fourth : Multiset α} (kept : α → Prop)
    [DecidablePred kept] (all : ∀ element ∈ third + fourth, kept element)
    (below : first.filter kept ≤ third) (below' : second.filter kept ≤ fourth)
    (sum : first + second = third + fourth) :
    first = third ∧ second = fourth := by
  have firstKept : first.filter kept = first := by
    rw [Multiset.filter_eq_self]
    intro element member
    exact all element (sum ▸ Multiset.mem_add.mpr (Or.inl member))
  have secondKept : second.filter kept = second := by
    rw [Multiset.filter_eq_self]
    intro element member
    exact all element (sum ▸ Multiset.mem_add.mpr (Or.inr member))
  rw [firstKept, Multiset.le_iff_count] at below
  rw [secondKept, Multiset.le_iff_count] at below'
  have counts := fun element => congrArg (Multiset.count element) sum
  simp only [Multiset.count_add] at counts
  constructor <;> ext element
  · have := below element
    have := below' element
    have := counts element
    omega
  · have := below element
    have := below' element
    have := counts element
    omega

/-! ### Whole streams -/

variable {join : SHJoin L R K} {key_t : K → K} {threadnum : Nat}
  {seen : List (JoinInput L R)}

theorem union_nil : union join key_t threadnum [] = 0 := by
  unfold union
  apply Finset.sum_eq_zero
  intro i _
  rfl

theorem shJoin_sameKey (leftOrderly : Orderly (lefts seen))
    (rightOrderly : Orderly (rights seen)) :
    ∀ change ∈ ((SHJoin.process join seen).2 : Multiset (Change (L × R))),
      SameKey join change := by
  induction seen using List.reverseRecOn with
  | nil =>
      intro change member
      cases member
  | append_singleton seen input induction =>
      rw [lefts_append] at leftOrderly
      rw [rights_append] at rightOrderly
      have left := leftOrderly.truncate (List.prefix_append _ _)
      have right := rightOrderly.truncate (List.prefix_append _ _)
      intro change member
      rw [shJoin_concat left right, Multiset.mem_add] at member
      rcases member with earlier | last
      · exact induction left right change earlier
      · exact liveResults_sameKey join seen input change last

theorem union_filter_le (positive : 0 < threadnum)
    (leftOrderly : Orderly (lefts seen))
    (rightOrderly : Orderly (rights seen)) :
    (union join key_t threadnum seen).filter (SameKey join) ≤
      ((SHJoin.process join seen).2 : Multiset (Change (L × R))) := by
  induction seen using List.reverseRecOn with
  | nil =>
      rw [union_nil, Multiset.filter_zero]
      exact Multiset.zero_le _
  | append_singleton seen input induction =>
      rw [lefts_append] at leftOrderly
      rw [rights_append] at rightOrderly
      have left := leftOrderly.truncate (List.prefix_append _ _)
      have right := rightOrderly.truncate (List.prefix_append _ _)
      rw [union_concat positive left right, shJoin_concat left right,
        Multiset.filter_add]
      exact add_le_add (induction left right)
        (keptResults_filter_le join key_t threadnum seen input)

/-- Over distinct elements that are retracted first in, first out, the instances
together publish what the symmetric hash join publishes exactly when every element
finds its partners among the kept ones. -/
theorem union_eq_iff (positive : 0 < threadnum)
    (inputs : List (JoinInput L R)) (leftOrderly : Orderly (lefts inputs))
    (rightOrderly : Orderly (rights inputs)) :
    union join key_t threadnum inputs =
        ((SHJoin.process join inputs).2 : Multiset (Change (L × R))) ↔
      ∀ seen input, seen ++ [input] <+: inputs →
        FindsPartners join key_t threadnum seen input := by
  refine Transducer.forall_arrivals_iff (fun inputs =>
    union join key_t threadnum inputs =
      ((SHJoin.process join inputs).2 : Multiset (Change (L × R))))
    inputs union_nil ?_
  intro seen input start
  have whole := leftOrderly.truncate (lefts_mono start)
  have whole' := rightOrderly.truncate (rights_mono start)
  rw [lefts_append] at whole
  rw [rights_append] at whole'
  have left := whole.truncate (List.prefix_append _ _)
  have right := whole'.truncate (List.prefix_append _ _)
  rw [union_concat positive left right, shJoin_concat left right,
    ← results_eq_iff join key_t threadnum left right input]
  constructor
  · intro sum
    apply eq_and_eq_of_add_eq (SameKey join) _ (union_filter_le positive left right)
      (keptResults_filter_le join key_t threadnum seen input) sum
    intro change member
    rcases Multiset.mem_add.mp member with earlier | last
    · exact shJoin_sameKey left right change earlier
    · exact liveResults_sameKey join seen input change last
  · intro every
    obtain ⟨before, last⟩ := every
    rw [before, last]

/-- The statement for keys of the default type, which `key_t` cuts off to 32 bits. -/
theorem scaleJoin_eq_shJoin {L R : Type} [DecidableEq L] [DecidableEq R]
    (join : SHJoin L R DefaultKeyType) (threadnum : Nat)
    (positive : 1 ≤ threadnum) (inputs : List (JoinInput L R))
    (leftOrderly : Orderly (lefts inputs))
    (rightOrderly : Orderly (rights inputs)) :
    union join DefaultKeyType.key_t threadnum inputs =
        ((SHJoin.process join inputs).2 : Multiset (Change (L × R))) ↔
      ∀ seen input, seen ++ [input] <+: inputs →
        FindsPartners join DefaultKeyType.key_t threadnum seen input :=
  union_eq_iff positive inputs leftOrderly rightOrderly

/-- A join of two elements by the elements themselves. -/
def keysJoin : SHJoin DefaultKeyType DefaultKeyType DefaultKeyType where
  mJoinPredicate := fun _ _ => true
  mLKeyExtractor := id
  mRKeyExtractor := id

theorem scaleJoin_eq_shJoin_small :
    union keysJoin DefaultKeyType.key_t 2
        [.left ⟨5, false⟩, .right ⟨5, false⟩, .left ⟨5, true⟩] =
        ((SHJoin.process keysJoin
          [.left ⟨5, false⟩, .right ⟨5, false⟩, .left ⟨5, true⟩]).2 :
          Multiset (Change (DefaultKeyType × DefaultKeyType))) ↔
      ∀ seen input, seen ++ [input] <+:
          [.left ⟨5, false⟩, .right ⟨5, false⟩, .left ⟨5, true⟩] →
        FindsPartners keysJoin DefaultKeyType.key_t 2 seen input :=
  scaleJoin_eq_shJoin keysJoin 2 (by decide) _ (by decide) (by decide)

/-- One instance and one pair with the key 2^31: the left element is stored under
the key 2^64 - 2^31, and the right one does not find it. -/
theorem not_scaleJoin_eq_shJoin :
    Orderly (lefts [(.left ⟨0x80000000, false⟩ :
        JoinInput DefaultKeyType DefaultKeyType), .right ⟨0x80000000, false⟩]) ∧
      Orderly (rights [(.left ⟨0x80000000, false⟩ :
        JoinInput DefaultKeyType DefaultKeyType), .right ⟨0x80000000, false⟩]) ∧
      union keysJoin DefaultKeyType.key_t 1
          [.left ⟨0x80000000, false⟩, .right ⟨0x80000000, false⟩] ≠
        ((SHJoin.process keysJoin
          [.left ⟨0x80000000, false⟩, .right ⟨0x80000000, false⟩]).2 :
          Multiset (Change (DefaultKeyType × DefaultKeyType))) := by
  decide

end PipeFabric.ScaleJoin
