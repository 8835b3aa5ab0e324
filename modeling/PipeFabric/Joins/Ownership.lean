import PipeFabric.Joins.Union

/-!
# Who owns an element

The instances of a scale join divide the live elements of a side among themselves: every
one of them is stored by the instance whose turn it was, and that instance also retracts
it.  From 2^15 + 1 instances on, an element whose turn is beyond the range of the counters
is stored by nobody.
-/

namespace PipeFabric.ScaleJoin

open ChangeStream JoinInput

variable {L R K α : Type} [DecidableEq L] [DecidableEq R] [DecidableEq K]

/-- The left side of every instance. -/
def leftSides (join : SHJoin L R K) (key_t : K → K) (threadnum : Nat)
    (seen : List (JoinInput L R)) (i : Nat) : Side K L :=
  (process (scJoin join key_t threadnum i) seen).1.left

/-- The right side of every instance. -/
def rightSides (join : SHJoin L R K) (key_t : K → K) (threadnum : Nat)
    (seen : List (JoinInput L R)) (i : Nat) : Side K R :=
  (process (scJoin join key_t threadnum i) seen).1.right

omit [DecidableEq K] in
/-- The instances together store the live elements, and one instance each of them. -/
structure Partitioned [DecidableEq α] (threadnum : Nat) (sides : Nat → Side K α)
    (changes : List (Change α)) : Prop where
  union : (Finset.sum (Finset.range threadnum) fun i =>
    ((sides i).table.elements : Multiset α)) = live changes
  single : ∀ data ∈ live changes, ∃! i, i < threadnum ∧ data ∈ (sides i).table.elements

omit [DecidableEq K] in
/-- The instance whose turn it is to remove an element is the one that stores it. -/
def RemovedByOwner (threadnum : Nat) (sides : Nat → Side K α) (data : α) : Prop :=
  ∀ i, i < threadnum → ((sides i).oCntr = i ↔ data ∈ (sides i).table.elements)

/-! ### One side -/

section

variable {join : SHJoin L R K} {key_t : K → K} {threadnum : Nat} {key : α → K}
  {sides : Nat → Side K α} {changes : List (Change α)}

omit [DecidableEq L] [DecidableEq R] [DecidableEq K] in
theorem mem_elements_iff {i : Nat} {side : Side K α}
    (holds : Holds (scJoin join key_t threadnum i) key side changes) (data : α) :
    data ∈ side.table.elements ↔
      ∃ index, (data, index) ∈ numbered changes ∧ keeper threadnum index = some i := by
  rw [← Multiset.mem_coe, holds.elements, Multiset.mem_coe]
  unfold share
  rw [List.mem_map]
  constructor
  · intro stored
    obtain ⟨entry, member, rfl⟩ := stored
    obtain ⟨present, turn⟩ := List.mem_filter.mp member
    exact ⟨entry.2, present, of_decide_eq_true turn⟩
  · intro stored
    obtain ⟨index, present, turn⟩ := stored
    exact ⟨(data, index), List.mem_filter.mpr ⟨present, decide_eq_true turn⟩, rfl⟩

omit [DecidableEq L] [DecidableEq R] [DecidableEq K] in
/-- A live element has one number. -/
theorem numbered_unique [DecidableEq α] (orderly : Orderly changes) {data : α}
    {first second : Nat} (one : (data, first) ∈ numbered changes)
    (other : (data, second) ∈ numbered changes) : first = second := by
  have distinct := orderly.distinct changes List.prefix_rfl
  rw [orderly.ordered.live_eq, ← numbered_map_fst, Multiset.coe_nodup] at distinct
  exact congrArg Prod.snd (List.inj_on_of_nodup_map distinct one other rfl)

omit [DecidableEq L] [DecidableEq R] [DecidableEq K] in
theorem mem_live_iff [DecidableEq α] (orderly : Orderly changes) (data : α) :
    data ∈ live changes ↔ ∃ index, (data, index) ∈ numbered changes := by
  rw [orderly.ordered.live_eq, ← numbered_map_fst, Multiset.mem_coe, List.mem_map]
  constructor
  · intro present
    obtain ⟨entry, member, rfl⟩ := present
    exact ⟨entry.2, member⟩
  · intro present
    obtain ⟨index, member⟩ := present
    exact ⟨(data, index), member, rfl⟩

omit [DecidableEq L] [DecidableEq R] [DecidableEq K] in
/-- The live elements are divided among the instances just when each of them has a
keeper. -/
theorem partitioned_iff [DecidableEq α] (positive : 0 < threadnum)
    (holds : ∀ i, i < threadnum →
      Holds (scJoin join key_t threadnum i) key (sides i) changes)
    (orderly : Orderly changes) :
    Partitioned threadnum sides changes ↔
      ∀ entry ∈ numbered changes, (keeper threadnum entry.2).isSome = true := by
  constructor
  · intro partitioned entry member
    have present := (mem_live_iff orderly entry.1).mpr ⟨entry.2, member⟩
    obtain ⟨i, both, _⟩ := partitioned.single entry.1 present
    obtain ⟨index, there, turn⟩ := (mem_elements_iff (holds i both.1) entry.1).mp both.2
    rw [numbered_unique orderly member there, turn]
    rfl
  · intro kept
    constructor
    · rw [Finset.sum_congr rfl fun i member =>
        (holds i (Finset.mem_range.mp member)).elements]
      have shares := sum_share positive changes (fun _ => True) id
      simp only [decide_true, List.filter_true, List.map_id, id_eq, and_true] at shares
      have parts : ∀ i, share (scJoin join key_t threadnum i).mThreadnum
          (scJoin join key_t threadnum i).mID changes = share threadnum i changes :=
        fun _ => rfl
      simp only [parts]
      rw [shares, List.filter_eq_self.mpr fun entry member => by simpa using kept entry member,
        orderly.ordered.live_eq, ← numbered_map_fst]
    · intro data present
      obtain ⟨index, member⟩ := (mem_live_iff orderly data).mp present
      obtain ⟨i, turn⟩ := Option.isSome_iff_exists.mp (kept _ member)
      have running := ((keeper_eq_some positive _ _).mp turn).1
      refine ⟨i, ⟨running, (mem_elements_iff (holds i running) data).mpr ⟨index, member, turn⟩⟩, ?_⟩
      intro other stored
      obtain ⟨again, there, turnOther⟩ :=
        (mem_elements_iff (holds other stored.1) data).mp stored.2
      rw [numbered_unique orderly there member] at turnOther
      exact Option.some.inj (turnOther.symm.trans turn)

omit [DecidableEq L] [DecidableEq R] [DecidableEq K] in
/-- The retracted element is the first live one, so it is its keeper's turn. -/
theorem removedByOwner [DecidableEq α] {data : α}
    (holds : ∀ i, i < threadnum →
      Holds (scJoin join key_t threadnum i) key (sides i) changes)
    (orderly : Orderly (changes ++ [⟨data, true⟩])) : RemovedByOwner threadnum sides data := by
  have first := numbered_concat_outdated orderly.ordered
  have before := orderly.truncate (List.prefix_append changes [⟨data, true⟩])
  have here : (data, (retractions changes).length) ∈ numbered changes := by
    rw [first]
    exact List.mem_cons_self
  intro i running
  have turn : (sides i).oCntr = i ↔ keeper threadnum (retractions changes).length = some i := by
    have counter : (sides i).oCntr = roundRobin threadnum (retractions changes).length :=
      (holds i running).oCntr
    rw [counter, keeper_eq_some (Nat.zero_lt_of_lt running), and_iff_right running]
  rw [turn, mem_elements_iff (holds i running)]
  constructor
  · intro mine
    exact ⟨_, here, mine⟩
  · intro stored
    obtain ⟨index, member, mine⟩ := stored
    rwa [numbered_unique before here member]

omit [DecidableEq L] [DecidableEq R] [DecidableEq K] in
theorem index_lt {entry : α × Nat} (member : entry ∈ numbered changes) :
    entry.2 < (insertions changes).length := by
  have inside := (List.drop_subset _ _) member
  obtain ⟨_, bounded, _⟩ := List.mem_zipIdx inside
  omega

omit [DecidableEq L] [DecidableEq R] [DecidableEq K] in
/-- The insertion with a given number. -/
theorem exists_insertion {count : Nat} (more : count < (insertions changes).length) :
    ∃ seen data, seen ++ [⟨data, false⟩] <+: changes ∧ (insertions seen).length = count := by
  induction changes using List.reverseRecOn with
  | nil => exact absurd more (Nat.not_lt_zero count)
  | append_singleton changes change induction =>
      by_cases earlier : count < (insertions changes).length
      · obtain ⟨seen, data, start, counted⟩ := induction earlier
        exact ⟨seen, data, start.trans (List.prefix_append _ _), counted⟩
      · obtain ⟨data, outdated⟩ := change
        cases outdated with
        | false =>
            refine ⟨changes, data, List.prefix_rfl, ?_⟩
            simp only [insertions_append, insertions_cons_new, insertions_nil,
              List.length_append, List.length_singleton] at more
            omega
        | true =>
            simp only [insertions_append, insertions_cons_outdated, insertions_nil,
              List.append_nil] at more
            exact absurd more earlier

end

/-- Few insertions or few instances leave every element with a keeper. -/
theorem keeper_isSome {threadnum index : Nat} (few : threadnum ≤ 2 ^ 15 ∨ index < 2 ^ 15) :
    (keeper threadnum index).isSome = true := by
  unfold keeper
  by_cases small : threadnum ≤ 2 ^ 15
  · rw [if_pos small]
    rfl
  · rw [if_neg small, if_pos (by omega)]
    rfl

theorem keeper_eq_none {threadnum : Nat} (many : 2 ^ 15 < threadnum) :
    keeper threadnum (2 ^ 15) = none := by
  unfold keeper
  rw [if_neg (by omega), if_neg (by decide)]

/-! ### Whole streams -/

section

variable {join : SHJoin L R K} {key_t : K → K} {threadnum : Nat}
  {inputs : List (JoinInput L R)}

/-- In every state the live elements of both sides are divided among the instances, and
every retraction is applied by the owner of the element. -/
structure OwnershipKept (join : SHJoin L R K) (key_t : K → K) (threadnum : Nat)
    (inputs : List (JoinInput L R)) : Prop where
  left : ∀ seen, seen <+: inputs →
    Partitioned threadnum (leftSides join key_t threadnum seen) (lefts seen)
  right : ∀ seen, seen <+: inputs →
    Partitioned threadnum (rightSides join key_t threadnum seen) (rights seen)
  leftOutdated : ∀ seen data, seen ++ [.left ⟨data, true⟩] <+: inputs →
    RemovedByOwner threadnum (leftSides join key_t threadnum seen) data
  rightOutdated : ∀ seen data, seen ++ [.right ⟨data, true⟩] <+: inputs →
    RemovedByOwner threadnum (rightSides join key_t threadnum seen) data

theorem holds_left {seen : List (JoinInput L R)} (leftOrderly : Orderly (lefts seen))
    (rightOrderly : Orderly (rights seen)) (i : Nat) (running : i < threadnum) :
    Holds (scJoin join key_t threadnum i) join.mLKeyExtractor
      (leftSides join key_t threadnum seen i) (lefts seen) :=
  (process_holds (scJoin join key_t threadnum i) running leftOrderly rightOrderly).1

theorem holds_right {seen : List (JoinInput L R)} (leftOrderly : Orderly (lefts seen))
    (rightOrderly : Orderly (rights seen)) (i : Nat) (running : i < threadnum) :
    Holds (scJoin join key_t threadnum i) join.mRKeyExtractor
      (rightSides join key_t threadnum seen i) (rights seen) :=
  (process_holds (scJoin join key_t threadnum i) running leftOrderly rightOrderly).2

theorem ownershipKept_of_few (positive : 0 < threadnum)
    (leftOrderly : Orderly (lefts inputs)) (rightOrderly : Orderly (rights inputs))
    (few : threadnum ≤ 2 ^ 15 ∨ (insertions (lefts inputs)).length ≤ 2 ^ 15 ∧
      (insertions (rights inputs)).length ≤ 2 ^ 15) :
    OwnershipKept join key_t threadnum inputs where
  left := by
    intro seen start
    have leftSeen := leftOrderly.truncate (lefts_mono start)
    have rightSeen := rightOrderly.truncate (rights_mono start)
    apply (partitioned_iff positive (holds_left leftSeen rightSeen) leftSeen).mpr
    intro entry member
    have counted := (insertions_mono (lefts_mono start)).length_le
    have inside := index_lt member
    exact keeper_isSome (few.imp_right fun both => by omega)
  right := by
    intro seen start
    have leftSeen := leftOrderly.truncate (lefts_mono start)
    have rightSeen := rightOrderly.truncate (rights_mono start)
    apply (partitioned_iff positive (holds_right leftSeen rightSeen) rightSeen).mpr
    intro entry member
    have counted := (insertions_mono (rights_mono start)).length_le
    have inside := index_lt member
    exact keeper_isSome (few.imp_right fun both => by omega)
  leftOutdated := by
    intro seen data start
    have arrived := leftOrderly.truncate (lefts_mono start)
    have before := (List.prefix_append seen [.left ⟨data, true⟩]).trans start
    rw [lefts_append, lefts_left] at arrived
    exact removedByOwner (holds_left (leftOrderly.truncate (lefts_mono before))
      (rightOrderly.truncate (rights_mono before))) arrived
  rightOutdated := by
    intro seen data start
    have arrived := rightOrderly.truncate (rights_mono start)
    have before := (List.prefix_append seen [.right ⟨data, true⟩]).trans start
    rw [rights_append, rights_right] at arrived
    exact removedByOwner (holds_right (leftOrderly.truncate (lefts_mono before))
      (rightOrderly.truncate (rights_mono before))) arrived

omit [DecidableEq L] [DecidableEq R] [DecidableEq K] in
/-- Nobody stores the element whose turn is 2^15. -/
theorem not_partitioned [DecidableEq α] {key : α → K} {sides : Nat → Side K α}
    {changes : List (Change α)} {data : α} (many : 2 ^ 15 < threadnum)
    (holds : ∀ i, i < threadnum → Holds (scJoin join key_t threadnum i) key (sides i)
      (changes ++ [⟨data, false⟩]))
    (orderly : Orderly (changes ++ [⟨data, false⟩]))
    (counted : (insertions changes).length = 2 ^ 15) :
    ¬ Partitioned threadnum sides (changes ++ [⟨data, false⟩]) := by
  intro partitioned
  have kept := (partitioned_iff (by omega) holds orderly).mp partitioned
  have before := orderly.truncate (List.prefix_append changes [⟨data, false⟩])
  have last : (data, 2 ^ 15) ∈ numbered (changes ++ [⟨data, false⟩]) := by
    rw [numbered_concat_new before.ordered, counted]
    exact List.mem_append_right _ (List.mem_singleton_self _)
  have stored := kept _ last
  rw [keeper_eq_none many] at stored
  exact Bool.false_ne_true stored

theorem few_of_ownershipKept (leftOrderly : Orderly (lefts inputs))
    (rightOrderly : Orderly (rights inputs))
    (kept : OwnershipKept join key_t threadnum inputs) :
    threadnum ≤ 2 ^ 15 ∨ (insertions (lefts inputs)).length ≤ 2 ^ 15 ∧
      (insertions (rights inputs)).length ≤ 2 ^ 15 := by
  by_contra many
  rw [not_or, not_and_or, not_le, not_le, not_le] at many
  obtain ⟨instances, full⟩ := many
  rcases full with leftFull | rightFull
  · obtain ⟨changes, data, start, counted⟩ := exists_insertion leftFull
    obtain ⟨seen, before, same⟩ := List.prefix_filterMap_iff.mp start
    have leftSeen := leftOrderly.truncate start
    have partitioned := kept.left seen before
    have holds : ∀ i, i < threadnum → Holds (scJoin join key_t threadnum i)
        join.mLKeyExtractor (leftSides join key_t threadnum seen i) (lefts seen) :=
      holds_left (leftOrderly.truncate (lefts_mono before))
        (rightOrderly.truncate (rights_mono before))
    unfold lefts at partitioned holds
    rw [← same] at partitioned holds
    exact not_partitioned instances holds leftSeen counted partitioned
  · obtain ⟨changes, data, start, counted⟩ := exists_insertion rightFull
    obtain ⟨seen, before, same⟩ := List.prefix_filterMap_iff.mp start
    have rightSeen := rightOrderly.truncate start
    have partitioned := kept.right seen before
    have holds : ∀ i, i < threadnum → Holds (scJoin join key_t threadnum i)
        join.mRKeyExtractor (rightSides join key_t threadnum seen i) (rights seen) :=
      holds_right (leftOrderly.truncate (lefts_mono before))
        (rightOrderly.truncate (rights_mono before))
    unfold rights at partitioned holds
    rw [← same] at partitioned holds
    exact not_partitioned instances holds rightSeen counted partitioned

/-- Over distinct elements that are retracted first in, first out, ownership is kept just
when the counters suffice for the instances or for the insertions of each side. -/
theorem scaleJoin_ownership (join : SHJoin L R K) (key_t : K → K) (threadnum : Nat)
    (positive : 1 ≤ threadnum) (inputs : List (JoinInput L R))
    (leftOrderly : Orderly (lefts inputs)) (rightOrderly : Orderly (rights inputs)) :
    OwnershipKept join key_t threadnum inputs ↔
      threadnum ≤ 2 ^ 15 ∨ (insertions (lefts inputs)).length ≤ 2 ^ 15 ∧
        (insertions (rights inputs)).length ≤ 2 ^ 15 := by
  constructor
  · exact few_of_ownershipKept leftOrderly rightOrderly
  · exact ownershipKept_of_few positive leftOrderly rightOrderly

end

theorem scaleJoin_ownership_two :
    OwnershipKept keysJoin DefaultKeyType.key_t 2
        [.left ⟨5, false⟩, .right ⟨5, false⟩, .left ⟨6, false⟩, .left ⟨5, true⟩] ↔
      2 ≤ 2 ^ 15 ∨
        (insertions (lefts [(.left ⟨5, false⟩ : JoinInput DefaultKeyType DefaultKeyType),
          .right ⟨5, false⟩, .left ⟨6, false⟩, .left ⟨5, true⟩])).length ≤ 2 ^ 15 ∧
        (insertions (rights [(.left ⟨5, false⟩ : JoinInput DefaultKeyType DefaultKeyType),
          .right ⟨5, false⟩, .left ⟨6, false⟩, .left ⟨5, true⟩])).length ≤ 2 ^ 15 :=
  scaleJoin_ownership keysJoin DefaultKeyType.key_t 2 (by decide) _ (by decide) (by decide)

/-- New elements on the left side. -/
def leftArrivals (elements : List Nat) : List (JoinInput Nat Nat) :=
  (insertAll elements).map .left

theorem lefts_leftArrivals (elements : List Nat) :
    lefts (leftArrivals elements) = insertAll elements := by
  unfold lefts leftArrivals
  rw [List.filterMap_map]
  exact List.filterMap_some

theorem rights_leftArrivals (elements : List Nat) : rights (leftArrivals elements) = [] := by
  unfold rights leftArrivals
  rw [List.filterMap_map]
  exact List.filterMap_eq_nil_iff.mpr fun _ _ => rfl

/-- A join of numbers by the numbers themselves. -/
def numbersJoin : SHJoin Nat Nat DefaultKeyType where
  mJoinPredicate := fun _ _ => true
  mLKeyExtractor := fun number => BitVec.ofNat 64 number
  mRKeyExtractor := fun number => BitVec.ofNat 64 number

/-- 2^15 + 1 instances and as many elements: the last element is stored by nobody. -/
theorem not_scaleJoin_ownership :
    Orderly (lefts (leftArrivals (List.range (2 ^ 15 + 1)))) ∧
      Orderly (rights (leftArrivals (List.range (2 ^ 15 + 1)))) ∧
      ¬ OwnershipKept numbersJoin DefaultKeyType.key_t (2 ^ 15 + 1)
        (leftArrivals (List.range (2 ^ 15 + 1))) := by
  have leftOrderly : Orderly (lefts (leftArrivals (List.range (2 ^ 15 + 1)))) := by
    rw [lefts_leftArrivals]
    exact orderly_insertAll List.nodup_range
  have rightOrderly : Orderly (rights (leftArrivals (List.range (2 ^ 15 + 1)))) := by
    rw [rights_leftArrivals]
    decide
  refine ⟨leftOrderly, rightOrderly, fun kept => ?_⟩
  have few := few_of_ownershipKept leftOrderly rightOrderly kept
  rw [lefts_leftArrivals, insertions_insertAll, List.length_range] at few
  omega

end PipeFabric.ScaleJoin
