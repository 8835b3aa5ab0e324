import PipeFabric.Joins.Union
import PipeFabric.Joins.Wiring
import PipeFabric.Library.ArrivalOrder

/-!
# How often the wired instances publish a pair

A pair is published by the instance that stores its left tuple if the right one
arrives there later, and by the instance that stores its right tuple if the left
one arrives there later.  The two instances get the tuples in orders that have
nothing to do with each other.
-/

namespace PipeFabric.Wiring

open ChangeStream JoinInput ArrivalOrder ScaleJoin

variable {L R K : Type}

/-- The arrival of a left tuple. -/
def leftArrival (left : L) : JoinInput L R := .left ⟨left, false⟩

/-- The arrival of a right tuple. -/
def rightArrival (right : R) : JoinInput L R := .right ⟨right, false⟩

theorem mem_lefts {seen : List (JoinInput L R)} {change : Change L} :
    change ∈ lefts seen ↔ .left change ∈ seen := by
  unfold lefts
  rw [List.mem_filterMap]
  constructor
  · rintro ⟨input, member, equal⟩
    cases input with
    | left other =>
        simp only [Option.some_inj] at equal
        rwa [← equal]
    | right other => cases equal
  · intro member
    exact ⟨_, member, rfl⟩

theorem mem_rights {seen : List (JoinInput L R)} {change : Change R} :
    change ∈ rights seen ↔ .right change ∈ seen := by
  unfold rights
  rw [List.mem_filterMap]
  constructor
  · rintro ⟨input, member, equal⟩
    cases input with
    | left other => cases equal
    | right other =>
        simp only [Option.some_inj] at equal
        rwa [← equal]
  · intro member
    exact ⟨_, member, rfl⟩

theorem mem_insertAll {α : Type} {data : α} {elements : List α} :
    ⟨data, false⟩ ∈ insertAll elements ↔ data ∈ elements := by
  unfold insertAll
  simp

/-- An instance holds the tuples that have arrived and are its own by position. -/
theorem mem_share_insertAll {α : Type} {threadnum i position : Nat}
    {part all : List α} (start : part <+: all) (distinct : all.Nodup) {data : α}
    (at' : all[position]? = some data) :
    data ∈ share threadnum i (insertAll part) ↔
      keeper threadnum position = some i ∧ data ∈ part := by
  have only : ∀ other, part[other]? = some data → other = position := by
    intro other found
    have inAll : all[other]? = some data := by
      obtain ⟨inPart, _⟩ := List.getElem?_eq_some_iff.mp found
      obtain ⟨rest, rfl⟩ := start
      rw [List.getElem?_append_left inPart]
      exact found
    obtain ⟨bound, value⟩ := List.getElem?_eq_some_iff.mp inAll
    obtain ⟨bound', value'⟩ := List.getElem?_eq_some_iff.mp at'
    exact (distinct.getElem_inj_iff).mp (value.trans value'.symm)
  unfold share numbered
  rw [insertions_insertAll, retractions_insertAll, List.length_nil,
    List.drop_zero, List.mem_map]
  constructor
  · rintro ⟨⟨element, other⟩, found, rfl⟩
    obtain ⟨member, turn⟩ := List.mem_filter.mp found
    have place := List.mem_zipIdx_iff_getElem?.mp member
    rw [only other place] at turn
    exact ⟨by simpa using turn, List.mem_of_getElem? place⟩
  · rintro ⟨turn, member⟩
    obtain ⟨other, place⟩ := List.mem_iff_getElem?.mp member
    refine ⟨(data, position), List.mem_filter.mpr ⟨?_, by simpa using turn⟩, rfl⟩
    rw [List.mem_zipIdx_iff_getElem?, ← only other place]
    exact place

theorem share_nodup {α : Type} {threadnum i : Nat} {part : List α}
    (distinct : part.Nodup) : (share threadnum i (insertAll part)).Nodup := by
  apply List.Nodup.sublist (share_sublist threadnum i (insertAll part))
  rw [insertions_insertAll, retractions_insertAll]
  exact distinct

/-- A list without duplicates keeps what it selects once. -/
theorem count_map_selected {α β : Type} [DecidableEq α] [DecidableEq β] {f : α → β}
    (injective : Function.Injective f) {elements : List α} (distinct : elements.Nodup)
    (selected : α → Bool) (element : α) :
    ((elements.filter selected).map f).count (f element) =
      if element ∈ elements ∧ selected element = true then 1 else 0 := by
  rw [List.count_map_of_injective _ _ injective]
  by_cases found : selected element = true
  · rw [List.count_filter found, distinct.count]
    simp [found]
  · rw [if_neg fun both => found both.2]
    apply List.count_eq_zero_of_not_mem
    intro member
    exact found (List.mem_filter.mp member).2

variable [DecidableEq L] [DecidableEq R] [DecidableEq K]

/-- A left tuple is joined with a stored right tuple at its own arrival. -/
theorem count_shareResults_left {join : SHJoin L R K} {key_t : K → K}
    {threadnum i : Nat} {seen : List (JoinInput L R)}
    (distinct : (share threadnum i (rights seen)).Nodup) (left other : L)
    (right : R) :
    (shareResults join key_t threadnum i seen (leftArrival other)).count
        ⟨(left, right), false⟩ =
      if other = left ∧ right ∈ share threadnum i (rights seen) ∧
          key_t (join.mRKeyExtractor right) = join.mLKeyExtractor left ∧
          join.mJoinPredicate left right = true then 1 else 0 := by
  unfold shareResults leftArrival
  dsimp only
  by_cases same : other = left
  · subst same
    have injective : Function.Injective fun right : R =>
        (⟨(other, right), false⟩ : Change (L × R)) := by
      intro first second equal
      simpa using equal
    rw [count_map_selected injective distinct]
    simp
  · rw [if_neg fun all => same all.1]
    apply List.count_eq_zero_of_not_mem
    intro member
    obtain ⟨_, _, equal⟩ := List.mem_map.mp member
    simp only [Change.mk.injEq, Prod.mk.injEq] at equal
    exact same equal.1.1

/-- A right tuple is joined with a stored left tuple at its own arrival. -/
theorem count_shareResults_right {join : SHJoin L R K} {key_t : K → K}
    {threadnum i : Nat} {seen : List (JoinInput L R)}
    (distinct : (share threadnum i (lefts seen)).Nodup) (left : L)
    (right other : R) :
    (shareResults join key_t threadnum i seen (rightArrival other)).count
        ⟨(left, right), false⟩ =
      if other = right ∧ left ∈ share threadnum i (lefts seen) ∧
          key_t (join.mLKeyExtractor left) = join.mRKeyExtractor right ∧
          join.mJoinPredicate left right = true then 1 else 0 := by
  unfold shareResults rightArrival
  dsimp only
  by_cases same : other = right
  · subst same
    have injective : Function.Injective fun left : L =>
        (⟨(left, other), false⟩ : Change (L × R)) := by
      intro first second equal
      simpa using equal
    rw [count_map_selected injective distinct]
    simp
  · rw [if_neg fun all => same all.1]
    apply List.count_eq_zero_of_not_mem
    intro member
    obtain ⟨_, _, equal⟩ := List.mem_map.mp member
    simp only [Change.mk.injEq, Prod.mk.injEq] at equal
    exact same equal.1.2

omit [DecidableEq L] [DecidableEq R] [DecidableEq K] in
/-- Over distinct tuples the next arrival is a new tuple that has not arrived. -/
theorem fresh_arrival {α : Type} {part all : List α} {change : Change α}
    (distinct : all.Nodup) (start : insertAll part ++ [change] <+: insertAll all) :
    ∃ data, change = ⟨data, false⟩ ∧ data ∉ part := by
  obtain ⟨whole, inside, equal⟩ := prefix_insertAll start
  have nodup := distinct.sublist inside.sublist
  obtain ⟨before, last, rfl⟩ : ∃ before last, whole = before ++ [last] := by
    rcases List.eq_nil_or_concat whole with empty | ⟨before, last, whole'⟩
    · rw [empty] at equal
      simp at equal
    · exact ⟨before, last, by rw [whole', List.concat_eq_append]⟩
  rw [insertAll_append, insertAll_singleton] at equal
  obtain ⟨same, newest⟩ := List.append_inj' equal rfl
  refine ⟨last, List.singleton_inj.mp newest, ?_⟩
  intro member
  have twice : last ∈ before := by
    rw [← mem_insertAll, ← same, mem_insertAll]
    exact member
  rw [List.nodup_append] at nodup
  exact nodup.2.2 last twice last (List.mem_singleton_self last) rfl

/-- How often one instance publishes a matching pair. -/
theorem count_process {join : SHJoin L R K} {key_t : K → K} {threadnum i : Nat}
    (running : i < threadnum) {allLefts : List L} {allRights : List R}
    (distinctLefts : allLefts.Nodup) (distinctRights : allRights.Nodup)
    {leftAt rightAt : Nat} {left : L} {right : R}
    (leftIs : allLefts[leftAt]? = some left)
    (rightIs : allRights[rightAt]? = some right)
    (matching : join.Matches left right) {seen : List (JoinInput L R)}
    (leftPart : lefts seen <+: insertAll allLefts)
    (rightPart : rights seen <+: insertAll allRights) :
    (process (scJoin join key_t threadnum i) seen).2.count
        ⟨(left, right), false⟩ =
      (if keeper threadnum rightAt = some i ∧
          key_t (join.mRKeyExtractor right) = join.mLKeyExtractor left ∧
          Before seen (rightArrival right) (leftArrival left) then 1 else 0) +
      (if keeper threadnum leftAt = some i ∧
          key_t (join.mLKeyExtractor left) = join.mRKeyExtractor right ∧
          Before seen (leftArrival left) (rightArrival right) then 1 else 0) := by
  induction seen using List.reverseRecOn with
  | nil =>
      rw [if_neg fun all => not_before_nil all.2.2,
        if_neg fun all => not_before_nil all.2.2]
      rfl
  | append_singleton seen input induction =>
      have leftBefore := (lefts_mono (List.prefix_append seen [input])).trans
        leftPart
      have rightBefore := (rights_mono (List.prefix_append seen [input])).trans
        rightPart
      have earlier := induction leftBefore rightBefore
      obtain ⟨leftSeen, leftStart, leftsAre⟩ := prefix_insertAll leftBefore
      obtain ⟨rightSeen, rightStart, rightsAre⟩ := prefix_insertAll rightBefore
      have leftOrderly : Orderly (lefts seen) := by
        rw [leftsAre]
        exact orderly_insertAll (distinctLefts.sublist leftStart.sublist)
      have rightOrderly : Orderly (rights seen) := by
        rw [rightsAre]
        exact orderly_insertAll (distinctRights.sublist rightStart.sublist)
      have leftShare : (share threadnum i (lefts seen)).Nodup := by
        rw [leftsAre]
        exact share_nodup (distinctLefts.sublist leftStart.sublist)
      have rightShare : (share threadnum i (rights seen)).Nodup := by
        rw [rightsAre]
        exact share_nodup (distinctRights.sublist rightStart.sublist)
      have leftStored : left ∈ share threadnum i (lefts seen) ↔
          keeper threadnum leftAt = some i ∧ leftArrival left ∈ seen := by
        rw [leftsAre, mem_share_insertAll leftStart distinctLefts leftIs,
          ← mem_insertAll, ← leftsAre, mem_lefts]
        rfl
      have rightStored : right ∈ share threadnum i (rights seen) ↔
          keeper threadnum rightAt = some i ∧ rightArrival right ∈ seen := by
        rw [rightsAre, mem_share_insertAll rightStart distinctRights rightIs,
          ← mem_insertAll, ← rightsAre, mem_rights]
        rfl
      have published := congrArg (Multiset.count ⟨(left, right), false⟩)
        (processDataElement_published join key_t running leftOrderly
          rightOrderly input)
      rw [Multiset.coe_count, Multiset.coe_count] at published
      rw [process_concat, List.count_append, published, earlier]
      rw [lefts_append] at leftPart
      rw [rights_append] at rightPart
      cases input with
      | left change =>
          rw [lefts_left, leftsAre] at leftPart
          obtain ⟨other, new, absent⟩ := fresh_arrival distinctLefts leftPart
          subst new
          have arrival : JoinInput.left ⟨other, false⟩ =
              (leftArrival other : JoinInput L R) := rfl
          rw [arrival, count_shareResults_left rightShare]
          have notRight : (leftArrival other : JoinInput L R) ≠
              rightArrival right := by
            intro equal
            cases equal
          by_cases same : other = left
          · subst same
            have gone : (leftArrival other : JoinInput L R) ∉ seen := by
              intro member
              apply absent
              rw [← mem_insertAll, ← leftsAre, mem_lefts]
              exact member
            rw [if_neg fun all => not_before_of_absent gone all.2.2,
              if_neg fun all => not_before_of_first_absent gone all.2.2,
              if_neg fun all : keeper threadnum leftAt = some i ∧ _ ∧
                Before (seen ++ [leftArrival other]) (leftArrival other) _ =>
                not_before_concat_first gone notRight all.2.2,
              Nat.add_zero, Nat.zero_add, Nat.add_zero]
            apply if_congr _ rfl rfl
            rw [before_concat_second gone, rightStored]
            constructor
            · intro found
              obtain ⟨_, ⟨kept, arrived⟩, sameKey, _⟩ := found
              exact ⟨kept, sameKey, arrived⟩
            · intro stored
              obtain ⟨kept, sameKey, arrived⟩ := stored
              exact ⟨rfl, ⟨kept, arrived⟩, sameKey, matching.2⟩
          · have different : (leftArrival other : JoinInput L R) ≠
                leftArrival left := by
              intro equal
              unfold leftArrival at equal
              simp only [JoinInput.left.injEq, Change.mk.injEq] at equal
              exact same equal.1
            simp only [before_concat_other different,
              before_concat_other notRight]
            rw [if_neg fun all : other = left ∧ _ => same all.1, Nat.add_zero]
      | right change =>
          rw [rights_right, rightsAre] at rightPart
          obtain ⟨other, new, absent⟩ := fresh_arrival distinctRights rightPart
          subst new
          have arrival : JoinInput.right ⟨other, false⟩ =
              (rightArrival other : JoinInput L R) := rfl
          rw [arrival, count_shareResults_right leftShare]
          have notLeft : (rightArrival other : JoinInput L R) ≠
              leftArrival left := by
            intro equal
            cases equal
          by_cases same : other = right
          · subst same
            have gone : (rightArrival other : JoinInput L R) ∉ seen := by
              intro member
              apply absent
              rw [← mem_insertAll, ← rightsAre, mem_rights]
              exact member
            rw [if_neg fun all => not_before_of_first_absent gone all.2.2,
              if_neg fun all => not_before_of_absent gone all.2.2,
              if_neg fun all : keeper threadnum rightAt = some i ∧ _ ∧
                Before (seen ++ [rightArrival other]) (rightArrival other) _ =>
                not_before_concat_first gone notLeft all.2.2,
              Nat.add_zero, Nat.zero_add, Nat.zero_add]
            apply if_congr _ rfl rfl
            rw [before_concat_second gone, leftStored]
            constructor
            · intro found
              obtain ⟨_, ⟨kept, arrived⟩, sameKey, _⟩ := found
              exact ⟨kept, sameKey, arrived⟩
            · intro stored
              obtain ⟨kept, sameKey, arrived⟩ := stored
              exact ⟨rfl, ⟨kept, arrived⟩, sameKey, matching.2⟩
          · have different : (rightArrival other : JoinInput L R) ≠
                rightArrival right := by
              intro equal
              unfold rightArrival at equal
              simp only [JoinInput.right.injEq, Change.mk.injEq] at equal
              exact same equal.1
            simp only [before_concat_other different,
              before_concat_other notLeft]
            rw [if_neg fun all : other = right ∧ _ => same all.1, Nat.add_zero]

omit [DecidableEq L] [DecidableEq R] [DecidableEq K] in
/-- At most one instance stores the element at a position. -/
theorem sum_keeper {threadnum : Nat} (positive : 0 < threadnum) (position : Nat)
    (condition : Nat → Prop) [DecidablePred condition]
    [Decidable (∃ i, keeper threadnum position = some i ∧ condition i)] :
    (∑ i ∈ Finset.range threadnum,
      if keeper threadnum position = some i ∧ condition i then 1 else 0) =
      if ∃ i, keeper threadnum position = some i ∧ condition i then 1 else 0 := by
  rcases (keeper threadnum position).eq_none_or_eq_some with
    stored | ⟨mID, stored⟩
  · simp only [stored]
    rw [if_neg (by simp)]
    apply Finset.sum_eq_zero
    intro i _
    exact if_neg (by simp)
  · have running := ((keeper_eq_some positive position mID).mp stored).1
    rw [Finset.sum_eq_single_of_mem mID (Finset.mem_range.mpr running)]
    · apply if_congr _ rfl rfl
      simp [stored]
    · intro i _ other
      apply if_neg
      intro both
      rw [stored] at both
      exact other (Option.some_inj.mp both.1).symm

/-- The instance that stores the left tuple gets the right one later. -/
def FoundByRight (threadnum : Nat) (state : State L R K) (leftAt : Nat)
    (left : L) (right : R) : Prop :=
  ∃ i, keeper threadnum leftAt = some i ∧
    Before (state.received i) (leftArrival left) (rightArrival right)

/-- The instance that stores the right tuple gets the left one later. -/
def FoundByLeft (threadnum : Nat) (state : State L R K) (rightAt : Nat)
    (left : L) (right : R) : Prop :=
  ∃ i, keeper threadnum rightAt = some i ∧
    Before (state.received i) (rightArrival right) (leftArrival left)

/-- A pair is published exactly once if its key survives `key_t` and exactly one of
the two stored tuples is found by the other one. -/
theorem count_published_iff {join : SHJoin L R K} {key_t : K → K}
    {threadnum : Nat} (positive : 0 < threadnum) {lefts : List L}
    {rights : List R} (distinctLefts : lefts.Nodup)
    (distinctRights : rights.Nodup) {state : State L R K}
    (delivered : Delivered join key_t threadnum lefts rights state)
    (finished : Finished threadnum state) {leftAt rightAt : Nat} {left : L}
    {right : R} (leftIs : lefts[leftAt]? = some left)
    (rightIs : rights[rightAt]? = some right)
    (matching : join.Matches left right) :
    (∑ i ∈ Finset.range threadnum,
        (state.published i).count ⟨(left, right), false⟩) = 1 ↔
      key_t (join.mLKeyExtractor left) = join.mLKeyExtractor left ∧
        Xor (FoundByRight threadnum state leftAt left right)
          (FoundByLeft threadnum state rightAt left right) := by
  classical
  have counted : ∀ i ∈ Finset.range threadnum,
      (state.published i).count ⟨(left, right), false⟩ =
        (if keeper threadnum rightAt = some i ∧
            key_t (join.mRKeyExtractor right) = join.mLKeyExtractor left ∧
            Before (state.received i) (rightArrival right) (leftArrival left)
          then 1 else 0) +
        (if keeper threadnum leftAt = some i ∧
            key_t (join.mLKeyExtractor left) = join.mRKeyExtractor right ∧
            Before (state.received i) (leftArrival left) (rightArrival right)
          then 1 else 0) := by
    intro i member
    have running := Finset.mem_range.mp member
    obtain ⟨leftsAre, rightsAre⟩ := delivered.finished finished running
    rw [delivered.published i]
    apply count_process running distinctLefts distinctRights leftIs rightIs
      matching
    · rw [leftsAre]
    · rw [rightsAre]
  have sameKey : join.mRKeyExtractor right = join.mLKeyExtractor left :=
    matching.1.symm
  rw [Finset.sum_congr rfl counted, Finset.sum_add_distrib,
    sum_keeper positive rightAt, sum_keeper positive leftAt, sameKey]
  unfold FoundByRight FoundByLeft
  by_cases survives :
      key_t (join.mLKeyExtractor left) = join.mLKeyExtractor left
  · simp only [survives, true_and]
    by_cases first : ∃ i, keeper threadnum leftAt = some i ∧
        Before (state.received i) (leftArrival left) (rightArrival right)
    · rw [if_pos first]
      simp [first, Xor]
    · rw [if_neg first]
      simp [first, Xor]
  · simp [survives]

/-- The statement for every run of the wired instances: every matching pair is
published as new exactly once, by one instance. -/
theorem scaleJoin_exactlyOnce (join : SHJoin L R K) (key_t : K → K)
    (threadnum : Nat) (positive : 0 < threadnum) (lefts : List L)
    (rights : List R) (distinctLefts : lefts.Nodup)
    (distinctRights : rights.Nodup) (state : State L R K)
    (reached : TransitionSystem.Reachable (step join key_t threadnum)
      (initial lefts rights) state)
    (finished : Finished threadnum state) :
    (∀ left ∈ lefts, ∀ right ∈ rights, join.Matches left right →
      (∑ i ∈ Finset.range threadnum,
        (state.published i).count ⟨(left, right), false⟩) = 1) ↔
      ∀ leftAt rightAt left right, lefts[leftAt]? = some left →
        rights[rightAt]? = some right → join.Matches left right →
        key_t (join.mLKeyExtractor left) = join.mLKeyExtractor left ∧
          Xor (FoundByRight threadnum state leftAt left right)
            (FoundByLeft threadnum state rightAt left right) := by
  have delivered : Delivered join key_t threadnum lefts rights state :=
    reached.invariant (delivered_initial positive)
      fun _ _ _ before _ stepped => before.step stepped
  constructor
  · intro once leftAt rightAt left right leftIs rightIs matching
    rw [← count_published_iff positive distinctLefts distinctRights delivered
      finished leftIs rightIs matching]
    exact once left (List.mem_of_getElem? leftIs) right
      (List.mem_of_getElem? rightIs) matching
  · intro condition left leftMember right rightMember matching
    obtain ⟨leftAt, leftIs⟩ := List.mem_iff_getElem?.mp leftMember
    obtain ⟨rightAt, rightIs⟩ := List.mem_iff_getElem?.mp rightMember
    rw [count_published_iff positive distinctLefts distinctRights delivered
      finished leftIs rightIs matching]
    exact condition leftAt rightAt left right leftIs rightIs matching

theorem scaleJoin_exactlyOnce_single :
    ∃ state : State DefaultKeyType DefaultKeyType DefaultKeyType,
      state.received 1 = [rightArrival 5, leftArrival 5] ∧
      ((∀ left ∈ [(5 : DefaultKeyType)], ∀ right ∈ [(5 : DefaultKeyType)],
        keysJoin.Matches left right →
        (∑ i ∈ Finset.range 2,
          (state.published i).count ⟨(left, right), false⟩) = 1) ↔
        ∀ leftAt rightAt left right,
          [(5 : DefaultKeyType)][leftAt]? = some left →
          [(5 : DefaultKeyType)][rightAt]? = some right →
          keysJoin.Matches left right →
          DefaultKeyType.key_t (keysJoin.mLKeyExtractor left) =
              keysJoin.mLKeyExtractor left ∧
            Xor (FoundByRight 2 state leftAt left right)
              (FoundByLeft 2 state rightAt left right)) :=
  ⟨(TransitionSystem.run (step keysJoin DefaultKeyType.key_t 2)
      (initial [5] [5]) [.push, .dequeue 0, .push, .deliver, .deliver,
        .dequeue 1]).get (by decide), by decide,
    scaleJoin_exactlyOnce keysJoin DefaultKeyType.key_t 2 (by decide) [5] [5]
      (by decide) (by decide) _
      (TransitionSystem.Execution.of_run (Option.some_get _).symm)
      ⟨by decide, by decide, by decide⟩⟩

/-- Two instances, the left tuples 1 and 2 and the right tuple 2.  The first
instance, which stores the right tuple, gets it after the left tuple 2; the second
one, which stores the left tuple 2, gets it after the right tuple.  Nobody
publishes the pair. -/
theorem not_scaleJoin_exactlyOnce :
    ∃ state : State DefaultKeyType DefaultKeyType DefaultKeyType,
      TransitionSystem.Reachable (step keysJoin DefaultKeyType.key_t 2)
          (initial [1, 2] [2]) state ∧
        Finished 2 state ∧ keysJoin.Matches 2 2 ∧
        (∑ i ∈ Finset.range 2, (state.published i).count ⟨(2, 2), false⟩) =
          0 := by
  refine ⟨(TransitionSystem.run (step keysJoin DefaultKeyType.key_t 2)
    (initial [1, 2] [2]) [.push, .push, .push, .push, .dequeue 0, .dequeue 0,
      .deliver, .deliver, .dequeue 1, .dequeue 1]).get (by decide),
    TransitionSystem.Execution.of_run (Option.some_get _).symm, ?_⟩
  refine ⟨⟨by decide, by decide, by decide⟩, by decide, by decide⟩

end PipeFabric.Wiring
