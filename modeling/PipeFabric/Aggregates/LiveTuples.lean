import PipeFabric.Aggregates.Histories

/-!
# Histories with known live tuples

When the live tuples of every history are known, it is known which of the
histories are held: those of the keys that have live tuples, though fewer than 2^32
of them.
-/

namespace PipeFabric

open ChangeStream

variable {α K S Out : Type} [DecidableEq α] [DecidableEq K] {op : Operator α}
  {key : α → K} {histories : K → List (Change α) → List (Change α)}

/-- The tuples with a key. -/
def withKey (key : α → K) (grpKey : K) (tuples : List α) : List α :=
  tuples.filter fun data => key data = grpKey

omit [DecidableEq α] in
theorem withKey_concat_self (data : α) (tuples : List α) :
    withKey key (key data) (tuples ++ [data]) =
      withKey key (key data) tuples ++ [data] := by
  unfold withKey
  rw [List.filter_append, List.filter_singleton, decide_eq_true rfl, cond_true]

omit [DecidableEq α] in
theorem withKey_concat_other {grpKey : K} {data : α} (other : key data ≠ grpKey)
    (tuples : List α) :
    withKey key grpKey (tuples ++ [data]) = withKey key grpKey tuples := by
  unfold withKey
  rw [List.filter_append, List.filter_singleton, decide_eq_false other,
    cond_false, List.append_nil]

omit [DecidableEq α] in
theorem withKey_cons_self (data : α) (tuples : List α) :
    withKey key (key data) (data :: tuples) =
      data :: withKey key (key data) tuples := by
  unfold withKey
  rw [List.filter_cons, if_pos (by simp)]

omit [DecidableEq α] in
theorem withKey_cons_other {grpKey : K} {data : α} (other : key data ≠ grpKey)
    (tuples : List α) :
    withKey key grpKey (data :: tuples) = withKey key grpKey tuples := by
  unfold withKey
  rw [List.filter_cons, if_neg (by simpa using other)]

omit [DecidableEq α] in
theorem withKey_pos_iff {grpKey : K} {tuples : List α} :
    0 < (withKey key grpKey tuples).length ↔
      ∃ data ∈ tuples, key data = grpKey := by
  unfold withKey
  rw [List.length_pos_iff_exists_mem]
  simp only [List.mem_filter, decide_eq_true_eq]

/-- Every history is well formed, and its live tuples are those of the list that
have its key. -/
def Tracks (key : α → K) (histories : K → List (Change α) → List (Change α))
    (seen : List (Change α)) (held : List α) : Prop :=
  ∀ grpKey, WellFormed (histories grpKey seen) ∧
    live (histories grpKey seen) =
      (withKey key grpKey held : Multiset α)

theorem tracks_nil (grow : Histories key histories) :
    Tracks key histories [] [] := by
  intro grpKey
  rw [grow.nil]
  exact ⟨wellFormed_nil, rfl⟩

section

variable {seen : List (Change α)} {held rest : List α} {data : α}

theorem Tracks.held_iff (tracks : Tracks key histories seen held) (grpKey : K) :
    Held (histories grpKey seen) ↔
      0 < (withKey key grpKey held).length ∧
        (withKey key grpKey held).length < 2 ^ 32 := by
  obtain ⟨wellFormed, liveIs⟩ := tracks grpKey
  have balance := wellFormed.card_live
  rw [liveIs, Multiset.coe_card] at balance
  unfold Held
  constructor
  · intro bounds
    obtain ⟨lower, upper⟩ := bounds
    constructor <;> omega
  · intro bounds
    obtain ⟨lower, upper⟩ := bounds
    constructor <;> omega

/-- Every new tuple is taken into the history of its key. -/
theorem Tracks.new (grow : Histories key histories)
    (tracks : Tracks key histories seen held) (data : α) :
    histories (key data) (seen ++ [⟨data, false⟩]) =
        histories (key data) seen ++ [⟨data, false⟩] ∧
      Tracks key histories (seen ++ [⟨data, false⟩]) (held ++ [data]) := by
  have grown : histories (key data) (seen ++ [⟨data, false⟩]) =
      histories (key data) seen ++ [⟨data, false⟩] := by
    rcases grow.self seen ⟨data, false⟩ with grown | ⟨_, _, outdated⟩
    · exact grown
    · cases outdated
  refine ⟨grown, ?_⟩
  intro grpKey
  by_cases same : key data = grpKey
  · subst same
    rw [grown, wellFormed_concat_new, live_concat_new, (tracks (key data)).2,
      withKey_concat_self]
    refine ⟨(tracks (key data)).1, ?_⟩
    rw [← Multiset.coe_add, Multiset.coe_singleton, Multiset.add_comm]
    rfl
  · rw [grow.other grpKey seen ⟨data, false⟩ same,
      withKey_concat_other same]
    exact tracks grpKey

/-- The oldest tuple leaves the history of its key. -/
theorem Tracks.outdated (grow : Histories key histories)
    (tracks : Tracks key histories seen (data :: rest)) :
    histories (key data) (seen ++ [⟨data, true⟩]) =
        histories (key data) seen ++ [⟨data, true⟩] ∧
      Tracks key histories (seen ++ [⟨data, true⟩]) rest := by
  have present : data ∈ live (histories (key data) seen) := by
    rw [(tracks (key data)).2, withKey_cons_self]
    exact Multiset.mem_coe.mpr List.mem_cons_self
  have grown : histories (key data) (seen ++ [⟨data, true⟩]) =
      histories (key data) seen ++ [⟨data, true⟩] := by
    rcases grow.self seen ⟨data, true⟩ with grown | ⟨_, silent, _⟩
    · exact grown
    · dsimp only at silent
      rw [silent] at present
      exact absurd present (Multiset.notMem_zero data)
  refine ⟨grown, ?_⟩
  intro grpKey
  by_cases same : key data = grpKey
  · subst same
    rw [grown, wellFormed_concat_outdated, live_concat_outdated]
    refine ⟨⟨(tracks (key data)).1, present⟩, ?_⟩
    rw [(tracks (key data)).2, withKey_cons_self, ← Multiset.cons_coe,
      Multiset.erase_cons_head]
  · have same' := tracks grpKey
    rw [withKey_cons_other same] at same'
    rw [grow.other grpKey seen ⟨data, true⟩ same]
    exact same'

theorem Tracks.allHeld_new (grow : Histories key histories)
    (tracks : Tracks key histories seen held) (data : α) :
    AllHeld histories (seen ++ [⟨data, false⟩]) ↔
      AllHeld histories seen ∧
        (withKey key (key data) (held ++ [data])).length < 2 ^ 32 := by
  obtain ⟨grown, after⟩ := tracks.new grow data
  rw [allHeld_concat grow]
  apply and_congr_right
  intro _
  have started : histories (key data) (seen ++ [⟨data, false⟩]) ≠ [] := by
    rw [grown]
    simp
  dsimp only
  rw [after.held_iff (key data)]
  have positive : 0 < (withKey key (key data) (held ++ [data])).length :=
    withKey_pos_iff.mpr ⟨data, by simp, rfl⟩
  exact ⟨fun both => (both started).2, fun small _ => ⟨positive, small⟩⟩

theorem Tracks.allHeld_outdated (grow : Histories key histories)
    (tracks : Tracks key histories seen (data :: rest)) :
    AllHeld histories (seen ++ [⟨data, true⟩]) ↔
      AllHeld histories seen ∧ ∃ other ∈ rest, key other = key data := by
  obtain ⟨grown, after⟩ := tracks.outdated grow
  rw [allHeld_concat grow]
  apply and_congr_right
  intro before
  have started : histories (key data) (seen ++ [⟨data, true⟩]) ≠ [] := by
    rw [grown]
    simp
  have first : histories (key data) seen ≠ [] := by
    intro empty
    have liveIs := (tracks (key data)).2
    rw [empty, withKey_cons_self] at liveIs
    exact absurd (congrArg Multiset.card liveIs) (by simp)
  have bounded := ((tracks.held_iff (key data)).mp
    (before seen List.prefix_rfl (key data) first)).2
  rw [withKey_cons_self, List.length_cons] at bounded
  dsimp only
  rw [after.held_iff (key data), withKey_pos_iff]
  constructor
  · intro both
    exact (both started).1
  · intro remaining _
    exact ⟨remaining, by omega⟩

/-- Several tuples leave: every key among them must be left with a tuple. -/
theorem Tracks.allHeld_retractAll (grow : Histories key histories)
    {leaving : List α}
    (tracks : Tracks key histories seen (leaving ++ rest)) :
    Tracks key histories (seen ++ retractAll leaving) rest ∧
      (AllHeld histories (seen ++ retractAll leaving) ↔
        AllHeld histories seen ∧
          ∀ data ∈ leaving, ∃ other ∈ rest, key other = key data) := by
  induction leaving generalizing seen with
  | nil => simpa using tracks
  | cons data leaving induction =>
      have split : seen ++ retractAll (data :: leaving) =
          (seen ++ [⟨data, true⟩]) ++ retractAll leaving := by
        simp
      rw [List.cons_append] at tracks
      obtain ⟨after, held⟩ := induction (tracks.outdated grow).2
      rw [split, held, tracks.allHeld_outdated grow]
      refine ⟨after, ?_⟩
      constructor
      · intro answers
        obtain ⟨⟨before, remaining⟩, others⟩ := answers
        refine ⟨before, ?_⟩
        intro tuple member
        rcases List.mem_cons.mp member with first | later
        · subst first
          obtain ⟨other, present, same⟩ := remaining
          rcases List.mem_append.mp present with leaves | stays
          · obtain ⟨last, stays, equal⟩ := others other leaves
            exact ⟨last, stays, equal.trans same⟩
          · exact ⟨other, stays, same⟩
        · exact others tuple later
      · intro answers
        obtain ⟨before, all⟩ := answers
        obtain ⟨other, stays, same⟩ := all data List.mem_cons_self
        exact ⟨⟨before, other, List.mem_append_right _ stays, same⟩,
          fun tuple member => all tuple (List.mem_cons_of_mem _ member)⟩

end

/-! ### Functions over well formed histories -/

omit [DecidableEq α] [DecidableEq K] in
/-- A part of a history is the history of a part of the stream. -/
theorem Histories.truncate (grow : Histories key histories)
    {stream : List (Change α)} {grpKey : K} {earlier : List (Change α)}
    (start : earlier <+: histories grpKey stream) :
    earlier = [] ∨ ∃ part, part <+: stream ∧ earlier = histories grpKey part := by
  induction stream using List.reverseRecOn with
  | nil =>
      rw [grow.nil] at start
      exact Or.inl (List.prefix_nil.mp start)
  | append_singleton seen change induction =>
      have inside : earlier <+: histories grpKey seen →
          earlier = [] ∨ ∃ part, part <+: seen ++ [change] ∧
            earlier = histories grpKey part := by
        intro before
        rcases induction before with empty | ⟨part, within, equal⟩
        · exact Or.inl empty
        · exact Or.inr ⟨part, within.trans (List.prefix_append _ _), equal⟩
      by_cases same : key change.data = grpKey
      · subst same
        rcases grow.self seen change with grown | ⟨silent, _, _⟩
        · have whole := start
          rw [grown] at start
          rcases List.prefix_concat_iff.mp start with all | before
          · rw [← grown] at all
            exact Or.inr ⟨_, List.prefix_rfl, all⟩
          · exact inside before
        · rw [silent] at start
          exact Or.inl (List.prefix_nil.mp start)
      · rw [grow.other grpKey seen change same] at start
        exact inside start

omit [DecidableEq α] [DecidableEq K] in
theorem Histories.mono (grow : Histories key histories) {grpKey : K}
    {part stream : List (Change α)} (start : part <+: stream) :
    histories grpKey part <+: histories grpKey stream := by
  induction stream using List.reverseRecOn with
  | nil => rw [List.prefix_nil.mp start]
  | append_singleton seen change induction =>
      rcases List.prefix_concat_iff.mp start with whole | inside
      · rw [whole]
      · refine (induction inside).trans ?_
        by_cases same : key change.data = grpKey
        · subst same
          rcases grow.self seen change with grown | ⟨_, before, _⟩
          · rw [grown]
            exact List.prefix_append _ _
          · rw [before]
            exact List.nil_prefix
        · rw [grow.other grpKey seen change same]

omit [DecidableEq K] in
/-- An incremental function does not fail on well formed histories that are
held. -/
theorem Evaluates.isSome_of_incremental (evaluates : Evaluates op key histories)
    {aggregate : AggregateFunc α S Out} {spec : Multiset α → Out → Prop}
    {holds : Multiset α → S → Prop}
    (incremental : Incremental aggregate spec holds)
    {stream : List (Change α)} (held : AllHeld histories stream)
    (wellFormed : ∀ grpKey, WellFormed (histories grpKey stream)) :
    (op _ _ aggregate stream).isSome := by
  apply evaluates.isSome_of_values held
  intro seen change start started
  have formed := (wellFormed (key change.data)).truncate
    (evaluates.grow.mono start)
  have small : ∀ part, part <+:
      histories (key change.data) (seen ++ [change]) →
      (live part).card < 2 ^ 32 := by
    intro part inner
    by_cases empty : part = []
    · rw [empty]
      exact Nat.two_pow_pos 32
    · obtain ⟨within, inside, equal⟩ :=
        (evaluates.grow.truncate inner).resolve_left empty
      have balance := (formed.truncate inner).card_live
      have upper := (held within (inside.trans start) (key change.data)
        (by rwa [← equal])).2
      rw [← equal] at upper
      omega
  obtain ⟨state, replayed, related⟩ := incremental.replay formed small
  have positive : live (histories (key change.data)
      (seen ++ [change])) ≠ 0 := by
    intro empty
    have balance := formed.card_live
    have lower := (held _ start (key change.data) started).1
    rw [empty, Multiset.card_zero] at balance
    omega
  obtain ⟨result, valued⟩ :=
    incremental.total positive (small _ List.prefix_rfl) related
  exact ⟨state, result, replayed, valued⟩

/-! ### Extrema over any history -/

/-- One change moves the number of counted values by one. -/
theorem ValueCounters.Counts.iterate {V : Type} [DecidableEq V]
    {mMap : ValueCounters V} {counted : Multiset V} (counts : mMap.Counts counted)
    (small : counted.card + 1 < 2 ^ 32) (data : V) (outdated : Bool) :
    ∃ next, (AggrMinMax.iterate mMap data outdated).Counts next ∧
      next.card ≤ counted.card + 1 ∧ counted.card ≤ next.card + 1 ∧
      (outdated = false → next.card = counted.card + 1) := by
  have larger : (data ::ₘ counted).card = counted.card + 1 :=
    Multiset.card_cons data counted
  unfold AggrMinMax.iterate
  rw [counts data]
  by_cases present : data ∈ counted
  · rw [if_pos present]
    cases outdated with
    | false =>
        have bounded := Multiset.count_le_card data (data ::ₘ counted)
        exact ⟨data ::ₘ counted, counts.insert_present (by omega),
          by omega, by omega, fun _ => larger⟩
    | true =>
        obtain ⟨rest, split⟩ := Multiset.exists_cons_of_mem present
        have fewer : counted.card = rest.card + 1 := by
          rw [split, Multiset.card_cons]
        subst split
        have bounded := Multiset.count_le_card data (data ::ₘ rest)
        exact ⟨rest, counts.retract (by omega), by omega, by omega,
          fun new => nomatch new⟩
  · rw [if_neg present]
    exact ⟨data ::ₘ counted, counts.insert_absent present, by omega, by omega,
      fun _ => larger⟩

omit [DecidableEq α] in
/-- The retraction of a value without counter counts it, so that the counters hold
at least as many values as are live. -/
theorem AggrMinMax.replay_counts {V : Type} [LinearOrder V] (column : α → V)
    {changes : List (Change α)} (short : changes.length < 2 ^ 32) :
    ∃ mMap counted, ((AggrMinMax V).on column).replay changes = some mMap ∧
      ValueCounters.Counts mMap counted ∧ counted.card ≤ changes.length ∧
      (insertions changes).length ≤
        counted.card + (retractions changes).length := by
  induction changes using List.reverseRecOn with
  | nil => exact ⟨∅, 0, rfl, ValueCounters.Counts.empty, le_rfl, le_rfl⟩
  | append_singleton changes change induction =>
      rw [List.length_append, List.length_singleton] at short ⊢
      obtain ⟨mMap, counted, replayed, counts, upper, lower⟩ :=
        induction (by omega)
      obtain ⟨next, nextCounts, more, fewer, added⟩ :=
        counts.iterate (by omega) (column change.data) change.outdated
      refine ⟨_, next, ?_, nextCounts, by omega, ?_⟩
      · rw [AggregateFunc.replay_concat, replayed]
        rfl
      · obtain ⟨data, outdated⟩ := change
        dsimp only at added
        cases outdated with
        | false =>
            have exactly := added rfl
            simp only [insertions_append, retractions_append,
              insertions_cons_new, retractions_cons_new, insertions_nil,
              retractions_nil, List.append_nil, List.length_append,
              List.length_singleton]
            omega
        | true =>
            simp only [insertions_append, retractions_append,
              insertions_cons_outdated, retractions_cons_outdated,
              insertions_nil, retractions_nil, List.append_nil,
              List.length_append, List.length_singleton]
            omega

omit [DecidableEq α] in
theorem Histories.length_le (grow : Histories key histories) (grpKey : K)
    (stream : List (Change α)) :
    (histories grpKey stream).length ≤ stream.length := by
  induction stream using List.reverseRecOn with
  | nil => rw [grow.nil]
  | append_singleton seen change induction =>
      rw [List.length_append, List.length_singleton]
      by_cases same : key change.data = grpKey
      · subst same
        rcases grow.self seen change with grown | ⟨silent, _, _⟩
        · rw [grown, List.length_append, List.length_singleton]
          omega
        · rw [silent]
          exact Nat.zero_le _
      · rw [grow.other grpKey seen change same]
        omega

omit [DecidableEq α] in
/-- The extrema of held histories exist. -/
theorem Evaluates.minMax_isSome (evaluates : Evaluates op key histories)
    {stream : List (Change α)} (held : AllHeld histories stream)
    (short : stream.length < 2 ^ 32) {V : Type} [LinearOrder V]
    (column : α → V) : (op _ _ ((AggrMinMax V).on column) stream).isSome := by
  apply evaluates.isSome_of_values held
  intro seen change start started
  have length := evaluates.grow.length_le (key change.data) (seen ++ [change])
  have shorter := lt_of_le_of_lt start.length_le short
  obtain ⟨mMap, counted, replayed, counts, _, lower⟩ :=
    AggrMinMax.replay_counts column (lt_of_le_of_lt length shorter)
  have more := (held _ start (key change.data) started).1
  have some : counted ≠ 0 := by
    intro empty
    rw [empty, Multiset.card_zero] at lower
    omega
  have entries : mMap.keys.Nonempty := by
    rw [counts.keys, Multiset.toFinset_nonempty]
    exact some
  exact ⟨mMap, _, replayed, dif_pos entries⟩

end PipeFabric
