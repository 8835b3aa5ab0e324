import PipeFabric.Aggregates.Incremental
import PipeFabric.Qop.GroupedAggregation

/-!
# The aggregate table as a view of the live tuples

Every group with live tuples has an entry that counts them and holds their
aggregate, as long as no group has 2^32 of them: then its counter is back at zero
and the group is purged.
-/

namespace PipeFabric.GroupedAggregation

open ChangeStream

variable {α K S Out : Type} [DecidableEq K]

/-- The live tuples of a group. -/
def groupOf (mGroupByFunc : α → K) (grpKey : K) (held : Multiset α) : Multiset α :=
  held.filter fun data => mGroupByFunc data = grpKey

section

variable {mGroupByFunc : α → K} {grpKey : K} {held : Multiset α} {data : α}

theorem groupOf_cons_self :
    groupOf mGroupByFunc (mGroupByFunc data) (data ::ₘ held) =
      data ::ₘ groupOf mGroupByFunc (mGroupByFunc data) held :=
  Multiset.filter_cons_of_pos _ rfl

theorem groupOf_cons_other (other : mGroupByFunc data ≠ grpKey) :
    groupOf mGroupByFunc grpKey (data ::ₘ held) =
      groupOf mGroupByFunc grpKey held :=
  Multiset.filter_cons_of_neg _ other

theorem groupOf_ne_zero (present : data ∈ held) :
    groupOf mGroupByFunc (mGroupByFunc data) held ≠ 0 := by
  intro empty
  have member : data ∈ groupOf mGroupByFunc (mGroupByFunc data) held :=
    Multiset.mem_filter.mpr ⟨present, rfl⟩
  rw [empty] at member
  exact Multiset.notMem_zero data member

end

/-- The keys of the table are those of the live tuples, and every entry has the
number of them and their aggregate. -/
def ExactView (mGroupByFunc : α → K) (aggregate : AggregateFunc α S Out)
    (spec : Multiset α → Out → Prop) (mAggregateTable : HashTable K S)
    (held : Multiset α) : Prop :=
  ∀ grpKey,
    (grpKey ∈ mAggregateTable ↔ groupOf mGroupByFunc grpKey held ≠ 0) ∧
    ∀ aggrState, mAggregateTable.lookup grpKey = some aggrState →
      aggrState.mCounter.toNat = (groupOf mGroupByFunc grpKey held).card ∧
      ∃ result, aggregate.value aggrState.members = some result ∧
        spec (groupOf mGroupByFunc grpKey held) result

/-- The entry of a group whose live tuples are known. -/
def EntryFor (holds : Multiset α → S → Prop) (group : Multiset α)
    (entry : Option (AggregateState S)) : Prop :=
  (group = 0 → entry = none) ∧
  (group ≠ 0 → ∃ members, entry = some ⟨UInt32.ofNat group.card, members⟩ ∧
    holds group members)

theorem entryFor_none (holds : Multiset α → S → Prop) :
    EntryFor holds 0 none :=
  ⟨fun _ => rfl, fun some => absurd rfl some⟩

theorem entryFor_some {holds : Multiset α → S → Prop} {group : Multiset α}
    {members : S} (some : group ≠ 0) (related : holds group members) :
    EntryFor holds group (Option.some ⟨UInt32.ofNat group.card, members⟩) :=
  ⟨fun empty => absurd empty some, fun _ => ⟨members, rfl, related⟩⟩

/-- The table as it follows from the live tuples. -/
def Represents (mGroupByFunc : α → K) (holds : Multiset α → S → Prop)
    (mAggregateTable : HashTable K S) (held : Multiset α) : Prop :=
  ∀ grpKey, EntryFor holds (groupOf mGroupByFunc grpKey held)
    (mAggregateTable.lookup grpKey)

theorem represents_empty (mGroupByFunc : α → K)
    (holds : Multiset α → S → Prop) : Represents mGroupByFunc holds ∅ 0 :=
  fun _ => entryFor_none holds

section

variable {mGroupByFunc : α → K} {aggregate : AggregateFunc α S Out}
  {spec : Multiset α → Out → Prop} {holds : Multiset α → S → Prop}
  {mAggregateTable : HashTable K S} {held : Multiset α}

/-- Replacing the entry of one group leaves the others as they are. -/
theorem Represents.insert {grpKey : K} {next : Multiset α}
    (represents : Represents mGroupByFunc holds mAggregateTable held)
    (others : ∀ other, other ≠ grpKey →
      groupOf mGroupByFunc other next = groupOf mGroupByFunc other held)
    {aggrState : AggregateState S}
    (entry : EntryFor holds (groupOf mGroupByFunc grpKey next)
      (some aggrState)) :
    Represents mGroupByFunc holds (mAggregateTable.insert grpKey aggrState)
      next := by
  intro other
  by_cases same : other = grpKey
  · subst same
    rw [Finmap.lookup_insert]
    exact entry
  · rw [Finmap.lookup_insert_of_ne _ same, others other same]
    exact represents other

theorem Represents.erase {grpKey : K} {next : Multiset α}
    (represents : Represents mGroupByFunc holds mAggregateTable held)
    (others : ∀ other, other ≠ grpKey →
      groupOf mGroupByFunc other next = groupOf mGroupByFunc other held)
    (empty : groupOf mGroupByFunc grpKey next = 0) :
    Represents mGroupByFunc holds (mAggregateTable.erase grpKey) next := by
  intro other
  by_cases same : other = grpKey
  · subst same
    rw [Finmap.lookup_erase, empty]
    exact entryFor_none holds
  · rw [Finmap.lookup_erase_ne same, others other same]
    exact represents other

/-- A new tuple creates its group or updates it. -/
theorem Represents.new (incremental : Incremental aggregate spec holds)
    (represents : Represents mGroupByFunc holds mAggregateTable held) (data : α)
    (small : (groupOf mGroupByFunc (mGroupByFunc data) (data ::ₘ held)).card <
      2 ^ 32) :
    ∃ next members, updateTable aggregate (mGroupByFunc data) mAggregateTable
        ⟨data, false⟩ = some (next, some members) ∧
      Represents mGroupByFunc holds next (data ::ₘ held) ∧
      holds (groupOf mGroupByFunc (mGroupByFunc data) (data ::ₘ held))
        members := by
  have others : ∀ other, other ≠ mGroupByFunc data →
      groupOf mGroupByFunc other (data ::ₘ held) =
        groupOf mGroupByFunc other held :=
    fun other different => groupOf_cons_other (Ne.symm different)
  have entry := represents (mGroupByFunc data)
  rw [groupOf_cons_self] at small ⊢
  unfold updateTable
  by_cases vanished : groupOf mGroupByFunc (mGroupByFunc data) held = 0
  · have unknown := entry.1 vanished
    rw [vanished] at small ⊢
    obtain ⟨members, iterated, kept⟩ :=
      incremental.insert data small incremental.init
    refine ⟨mAggregateTable.insert (mGroupByFunc data) ⟨1, members⟩, members,
      ?_, ?_, kept⟩
    · simp [unknown, processNewAggregationGroup, iterated]
    · apply represents.insert others
      rw [groupOf_cons_self, vanished]
      exact entryFor_some Multiset.cons_ne_zero kept
  · obtain ⟨before, found, related⟩ := entry.2 vanished
    obtain ⟨members, iterated, kept⟩ := incremental.insert data small related
    have added : UInt32.ofNat
        (groupOf mGroupByFunc (mGroupByFunc data) held).card + 1 =
        UInt32.ofNat
          (data ::ₘ groupOf mGroupByFunc (mGroupByFunc data) held).card := by
      rw [Multiset.card_cons, UInt32.ofNat_add]
      rfl
    have positive : ¬ UInt32.ofNat
        (data ::ₘ groupOf mGroupByFunc (mGroupByFunc data) held).card = 0 := by
      rw [← UInt32.toNat_inj, UInt32.toNat_ofNat', Nat.mod_eq_of_lt small,
        Multiset.card_cons]
      exact Nat.succ_ne_zero _
    refine ⟨mAggregateTable.insert (mGroupByFunc data) ⟨UInt32.ofNat
      (data ::ₘ groupOf mGroupByFunc (mGroupByFunc data) held).card, members⟩,
      members, ?_, ?_, kept⟩
    · simp only [found, updateAggregationGroup, iterated, Bool.false_eq_true,
        if_false, added, positive, Option.map_some]
    · apply represents.insert others
      rw [groupOf_cons_self]
      exact entryFor_some Multiset.cons_ne_zero kept

/-- A live tuple that is retracted leaves its group, which is purged if it was the
last one. -/
theorem Represents.outdated (incremental : Incremental aggregate spec holds)
    (data : α)
    (represents : Represents mGroupByFunc holds mAggregateTable (data ::ₘ held))
    (small : (groupOf mGroupByFunc (mGroupByFunc data) (data ::ₘ held)).card <
      2 ^ 32) :
    ∃ next members, updateTable aggregate (mGroupByFunc data) mAggregateTable
        ⟨data, true⟩ = some (next, some members) ∧
      Represents mGroupByFunc holds next held ∧
      holds (groupOf mGroupByFunc (mGroupByFunc data) held) members := by
  have others : ∀ other, other ≠ mGroupByFunc data →
      groupOf mGroupByFunc other held =
        groupOf mGroupByFunc other (data ::ₘ held) :=
    fun other different => (groupOf_cons_other (Ne.symm different)).symm
  have entry := represents (mGroupByFunc data)
  rw [groupOf_cons_self] at small entry
  obtain ⟨before, found, related⟩ := entry.2 Multiset.cons_ne_zero
  obtain ⟨members, iterated, kept⟩ := incremental.retract data small related
  have subtracted : UInt32.ofNat
      (data ::ₘ groupOf mGroupByFunc (mGroupByFunc data) held).card + -1 =
      UInt32.ofNat (groupOf mGroupByFunc (mGroupByFunc data) held).card :=
    (sub_eq_add_neg _ _).symm.trans (ofNat_card_cons_sub data _)
  have last : UInt32.ofNat
      (groupOf mGroupByFunc (mGroupByFunc data) held).card = 0 ↔
      groupOf mGroupByFunc (mGroupByFunc data) held = 0 := by
    rw [Multiset.card_cons] at small
    rw [← UInt32.toNat_inj, UInt32.toNat_ofNat', Nat.mod_eq_of_lt (by omega)]
    exact Multiset.card_eq_zero
  unfold updateTable
  by_cases vanished : groupOf mGroupByFunc (mGroupByFunc data) held = 0
  · refine ⟨mAggregateTable.erase (mGroupByFunc data), members, ?_,
      represents.erase others vanished, kept⟩
    simp only [found, updateAggregationGroup, iterated, if_true, subtracted,
      last.mpr vanished, Option.map_some]
  · refine ⟨mAggregateTable.insert (mGroupByFunc data) ⟨UInt32.ofNat
      (groupOf mGroupByFunc (mGroupByFunc data) held).card, members⟩, members,
      ?_, ?_, kept⟩
    · simp only [found, updateAggregationGroup, iterated, if_true, subtracted,
        last, vanished, if_false, Option.map_some]
    · apply represents.insert others
      exact entryFor_some vanished kept

theorem Represents.exactView (incremental : Incremental aggregate spec holds)
    (represents : Represents mGroupByFunc holds mAggregateTable held)
    (small : ∀ grpKey, (groupOf mGroupByFunc grpKey held).card < 2 ^ 32) :
    ExactView mGroupByFunc aggregate spec mAggregateTable held := by
  intro grpKey
  have entry := represents grpKey
  by_cases vanished : groupOf mGroupByFunc grpKey held = 0
  · have unknown := entry.1 vanished
    constructor
    · rw [← Finmap.lookup_isSome, unknown]
      simp [vanished]
    · intro aggrState found
      rw [unknown] at found
      cases found
  · obtain ⟨members, found, related⟩ := entry.2 vanished
    constructor
    · rw [← Finmap.lookup_isSome, found]
      simp [vanished]
    · intro aggrState same
      rw [found] at same
      cases same
      refine ⟨?_, incremental.value vanished (small grpKey) related⟩
      rw [UInt32.toNat_ofNat', Nat.mod_eq_of_lt (small grpKey)]

/-- An exact view never has 2^32 tuples in a group, because the counter has 32
bits. -/
theorem ExactView.small
    (view : ExactView mGroupByFunc aggregate spec mAggregateTable held)
    (grpKey : K) : (groupOf mGroupByFunc grpKey held).card < 2 ^ 32 := by
  by_cases vanished : groupOf mGroupByFunc grpKey held = 0
  · rw [vanished, Multiset.card_zero]
    exact Nat.two_pow_pos 32
  · obtain ⟨keys, entries⟩ := view grpKey
    obtain ⟨aggrState, found⟩ := Finmap.mem_iff.mp (keys.mpr vanished)
    rw [← (entries aggrState found).1]
    exact aggrState.mCounter.toNat_lt

end

variable [DecidableEq α]

/-- Every outdated tuple retracts a live one or belongs to a group that is not in
the table. -/
def RetractsKnown (mGroupByFunc : α → K) (aggregate : AggregateFunc α S Out)
    (inputs : List (Change α)) : Prop :=
  ∀ seen data mAggregateTable, seen ++ [⟨data, true⟩] <+: inputs →
    tableAfter mGroupByFunc aggregate seen = some mAggregateTable →
    data ∈ live seen ∨ mGroupByFunc data ∉ mAggregateTable

theorem retractsKnown_of_wellFormed {mGroupByFunc : α → K}
    {aggregate : AggregateFunc α S Out} {inputs : List (Change α)}
    (wellFormed : WellFormed inputs) :
    RetractsKnown mGroupByFunc aggregate inputs := by
  intro seen data _ start _
  have whole := wellFormed.truncate start
  exact Or.inl ((wellFormed_concat_outdated seen data).mp whole).2

/-- The table follows from the live tuples after every element. -/
theorem represents_tableAfter {mGroupByFunc : α → K}
    {aggregate : AggregateFunc α S Out} {spec : Multiset α → Out → Prop}
    {holds : Multiset α → S → Prop}
    (incremental : Incremental aggregate spec holds)
    {inputs : List (Change α)}
    (retracts : RetractsKnown mGroupByFunc aggregate inputs)
    (small : ∀ seen, seen <+: inputs → ∀ grpKey,
      (groupOf mGroupByFunc grpKey (live seen)).card < 2 ^ 32) :
    ∃ mAggregateTable,
      tableAfter mGroupByFunc aggregate inputs = some mAggregateTable ∧
      Represents mGroupByFunc holds mAggregateTable (live inputs) := by
  induction inputs using List.reverseRecOn with
  | nil => exact ⟨∅, rfl, represents_empty mGroupByFunc holds⟩
  | append_singleton seen input induction =>
      obtain ⟨mAggregateTable, reached, represents⟩ := induction
        (fun part data table start =>
          retracts part data table (start.trans (List.prefix_append _ _)))
        (fun part start => small part (start.trans (List.prefix_append _ _)))
      rw [tableAfter_concat, reached, Option.bind_some]
      obtain ⟨data, outdated⟩ := input
      cases outdated with
      | false =>
          have after := small _ List.prefix_rfl (mGroupByFunc data)
          rw [live_concat_new] at after ⊢
          obtain ⟨next, members, updated, kept, _⟩ :=
            represents.new incremental data after
          exact ⟨next, by rw [updated]; rfl, kept⟩
      | true =>
          rw [live_concat_outdated]
          by_cases present : data ∈ live seen
          · have before := small seen (List.prefix_append _ _)
              (mGroupByFunc data)
            rw [← Multiset.cons_erase present] at represents before
            obtain ⟨next, members, updated, kept, _⟩ :=
              represents.outdated incremental data before
            exact ⟨next, by rw [updated]; rfl, kept⟩
          · have unknown := (retracts seen data mAggregateTable List.prefix_rfl
              reached).resolve_left present
            rw [Multiset.erase_of_notMem present]
            refine ⟨mAggregateTable, ?_, represents⟩
            simp [updateTable, Finmap.lookup_eq_none.mpr unknown]

/-- The operator's table over a whole stream: an exact view after every element, a
new state for a group that is not in the table, and no effect of outdated tuples
of such groups. -/
structure IncrementalView (mGroupByFunc : α → K)
    (aggregate : AggregateFunc α S Out) (spec : Multiset α → Out → Prop)
    (inputs : List (Change α)) : Prop where
  view : ∀ seen, seen <+: inputs → ∃ mAggregateTable,
    tableAfter mGroupByFunc aggregate seen = some mAggregateTable ∧
    ExactView mGroupByFunc aggregate spec mAggregateTable (live seen)
  fresh : ∀ seen data mAggregateTable, seen ++ [⟨data, false⟩] <+: inputs →
    tableAfter mGroupByFunc aggregate seen = some mAggregateTable →
    mGroupByFunc data ∉ mAggregateTable →
    ∃ members, aggregate.replay [⟨data, false⟩] = some members ∧
      tableAfter mGroupByFunc aggregate (seen ++ [⟨data, false⟩]) =
        some (mAggregateTable.insert (mGroupByFunc data) ⟨1, members⟩)
  ignored : ∀ seen data mAggregateTable, seen ++ [⟨data, true⟩] <+: inputs →
    tableAfter mGroupByFunc aggregate seen = some mAggregateTable →
    mGroupByFunc data ∉ mAggregateTable →
    tableAfter mGroupByFunc aggregate (seen ++ [⟨data, true⟩]) =
      some mAggregateTable

/-- The aggregate table is an exact incremental view of the live tuples as long as
no group has 2^32 of them, and only so long. -/
theorem groupedAggregation_exactView (mGroupByFunc : α → K)
    (aggregate : AggregateFunc α S Out) (spec : Multiset α → Out → Prop)
    (exact : Exact aggregate spec) (inputs : List (Change α))
    (retracts : RetractsKnown mGroupByFunc aggregate inputs) :
    IncrementalView mGroupByFunc aggregate spec inputs ↔
      ∀ seen, seen <+: inputs → ∀ grpKey,
        (groupOf mGroupByFunc grpKey (live seen)).card < 2 ^ 32 := by
  obtain ⟨holds, incremental⟩ := exact.incremental
  constructor
  · intro whole seen start grpKey
    obtain ⟨mAggregateTable, _, view⟩ := whole.view seen start
    exact view.small grpKey
  · intro small
    refine ⟨?_, ?_, ?_⟩
    · intro seen start
      obtain ⟨mAggregateTable, reached, represents⟩ :=
        represents_tableAfter incremental
          (fun part data table inside =>
            retracts part data table (inside.trans start))
          (fun part inside => small part (inside.trans start))
      exact ⟨mAggregateTable, reached,
        represents.exactView incremental (small seen start)⟩
    · intro seen data mAggregateTable _ reached unknown
      obtain ⟨members, iterated, _⟩ := incremental.insert data
        (by rw [Multiset.card_cons, Multiset.card_zero]; decide)
        incremental.init
      refine ⟨members, ?_, ?_⟩
      · simpa [AggregateFunc.replay] using iterated
      · rw [tableAfter_concat, reached]
        simp [updateTable, Finmap.lookup_eq_none.mpr unknown,
          processNewAggregationGroup, iterated]
    · intro seen data mAggregateTable _ reached unknown
      rw [tableAfter_concat, reached]
      simp [updateTable, Finmap.lookup_eq_none.mpr unknown]

theorem groupedAggregation_exactView_twoGroups :
    IncrementalView Prod.fst
        (Aggregator2 (AggrSum Int) Prod.snd (AggrMinMax Int) Prod.snd)
        (fun live result => result.1 = (live.map Prod.snd).sum ∧
          IsLeast {value | value ∈ live.map Prod.snd} result.2)
        [⟨(1, 5), false⟩, ⟨(2, 8), false⟩, ⟨(1, 3), false⟩, ⟨(1, 3), true⟩,
          ⟨(2, 8), true⟩] ↔
      ∀ seen, seen <+: [⟨((1 : Nat), (5 : Int)), false⟩, ⟨(2, 8), false⟩,
          ⟨(1, 3), false⟩, ⟨(1, 3), true⟩, ⟨(2, 8), true⟩] → ∀ grpKey,
        (groupOf Prod.fst grpKey (live seen)).card < 2 ^ 32 :=
  groupedAggregation_exactView _ _ _ (.both (.sum Prod.snd) (.minMax Prod.snd)) _
    (retractsKnown_of_wellFormed (by decide))

omit [DecidableEq α] in
theorem tableAfter_same_group (data : α) (arrived : Nat) :
    tableAfter (fun _ : α => ()) ((AggrCount α).on id)
        (insertAll (List.replicate arrived data)) =
      some (if UInt32.ofNat arrived = 0 then ∅
        else Finmap.singleton () ⟨UInt32.ofNat arrived, UInt32.ofNat arrived⟩) := by
  induction arrived with
  | zero => rfl
  | succ arrived induction =>
      have next : UInt32.ofNat (arrived + 1) = UInt32.ofNat arrived + 1 :=
        UInt32.ofNat_add arrived 1
      rw [List.replicate_succ', insertAll_append, insertAll_singleton,
        tableAfter_concat, induction, Option.bind_some, next]
      by_cases purged : UInt32.ofNat arrived = 0
      · rw [if_pos purged, purged]
        rfl
      · rw [if_neg purged]
        simp only [updateTable, Finmap.lookup_singleton_eq,
          updateAggregationGroup, AggregateFunc.on, AggrCount,
          Bool.false_eq_true, if_false, Option.map_some]
        by_cases last : UInt32.ofNat arrived + 1 = 0
        · rw [if_pos last, if_pos last]
          rfl
        · rw [if_neg last, if_neg last, Finmap.insert_singleton_eq]

theorem not_incrementalView_of_purged (data : α) {arrived : Nat}
    (some : 0 < arrived) (wrapped : UInt32.ofNat arrived = 0)
    (spec : Multiset α → UInt32 → Prop) :
    ¬ IncrementalView (fun _ : α => ()) ((AggrCount α).on id) spec
      (insertAll (List.replicate arrived data)) := by
  intro whole
  obtain ⟨mAggregateTable, reached, view⟩ := whole.view _ List.prefix_rfl
  rw [tableAfter_same_group, if_pos wrapped, Option.some_inj] at reached
  have present : data ∈ live (insertAll (List.replicate arrived data)) := by
    rw [(wellFormed_insertAll _).mem_live_iff, retractions_insertAll,
      insertions_insertAll, List.count_replicate_self]
    exact some
  have entry := (view ()).1.mpr (groupOf_ne_zero present)
  rw [← reached] at entry
  exact Finmap.notMem_empty entry

/-- 2^32 tuples of one group: the counter is back at zero, and the group is purged
although all of them are live. -/
theorem not_groupedAggregation_exactView :
    ∃ inputs : List (Change Nat),
      inputs = insertAll (List.replicate (2 ^ 32) 7) ∧
      RetractsKnown (fun _ => ()) ((AggrCount Nat).on id) inputs ∧
      tableAfter (fun _ => ()) ((AggrCount Nat).on id) inputs = some ∅ ∧
      ¬ IncrementalView (fun _ => ()) ((AggrCount Nat).on id)
        (fun live result => result.toNat = (live.map id).card) inputs :=
  ⟨_, rfl, retractsKnown_of_wellFormed (wellFormed_insertAll _),
    (tableAfter_same_group 7 (2 ^ 32)).trans
      (congrArg Option.some (if_pos (by decide))),
    not_incrementalView_of_purged 7 (Nat.two_pow_pos 32) (by decide) _⟩

end PipeFabric.GroupedAggregation
