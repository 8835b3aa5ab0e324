import PipeFabric.Aggregates.Incremental
import PipeFabric.Qop.GroupedAggregation

/-!
# Values read from an empty aggregate

The aggregate function that records the changes it gets, and whose value is the
record, shows what `value` is called on.  Both operators keep states that have
gone through a part of the stream: all of it, or the changes of a group from its
first insertion on.  A value is never read from an empty aggregate exactly when
each of these parts always has more insertions than retractions.
-/

namespace PipeFabric

open ChangeStream Published

variable {α K S Out : Type}

/-- The aggregate function that records its history. -/
def history (α : Type) :
    AggregateFunc α (List (Change α)) (List (Change α)) where
  init := []
  iterate := fun record data outdated => some (record ++ [⟨data, outdated⟩])
  value := some

theorem history_replay (changes : List (Change α)) :
    (history α).replay changes = some changes := by
  induction changes using List.reverseRecOn with
  | nil => rfl
  | append_singleton changes change induction =>
      rw [AggregateFunc.replay_concat, induction]
      rfl

/-- What an operator publishes for a stream with any aggregate function, unless it
fails. -/
abbrev Operator (α : Type) : Type 1 :=
  (S Out : Type) → AggregateFunc α S Out → List (Change α) →
    Option (List (Change Out))

def Aggregation.published : Operator α := fun _ _ aggregate stream =>
  (Aggregation.process (.triggerAll aggregate) stream).map fun result =>
    changes result.2

def GroupedAggregation.published [DecidableEq K] (mGroupByFunc : α → K) :
    Operator α := fun _ _ aggregate stream =>
  (GroupedAggregation.process (.triggerAll mGroupByFunc aggregate) stream).map
    fun result => changes result.2

/-- Every value is read from an aggregate that has taken in more values than it has
given up; an average over it is not divided by zero, and the oldest value is there
to be returned. -/
structure NeverEmpty (op : Operator α) (stream : List (Change α)) : Prop where
  calls : ∃ values, op _ _ (history α) stream = some values ∧
    ∀ call ∈ values,
      (retractions call.data).length < (insertions call.data).length
  avg : ∀ column : α → ℚ, (op _ _ (AggrAvg.on column) stream).isSome
  lRecent : ∀ (V : Type) (column : α → V),
    (op _ _ ((AggrLRecent V).on column) stream).isSome

/-! ### Histories -/

/-- More insertions than retractions, but fewer than 2^32 more. -/
def Held (changes : List (Change α)) : Prop :=
  (retractions changes).length < (insertions changes).length ∧
    (insertions changes).length < (retractions changes).length + 2 ^ 32

/-- The number of live values as an `unsigned int` counts it. -/
def balance (changes : List (Change α)) : UInt32 :=
  UInt32.ofNat (insertions changes).length -
    UInt32.ofNat (retractions changes).length

theorem balance_concat (changes : List (Change α)) (change : Change α) :
    balance (changes ++ [change]) =
      balance changes + if change.outdated then -1 else 1 := by
  obtain ⟨data, outdated⟩ := change
  unfold balance
  cases outdated with
  | false =>
      simp only [insertions_append, retractions_append, insertions_cons_new,
        retractions_cons_new, insertions_nil, retractions_nil,
        List.append_nil, List.length_append, List.length_singleton,
        UInt32.ofNat_add, Bool.false_eq_true, if_false]
      exact add_sub_right_comm _ _ _
  | true =>
      simp only [insertions_append, retractions_append,
        insertions_cons_outdated, retractions_cons_outdated, insertions_nil,
        retractions_nil, List.append_nil, List.length_append,
        List.length_singleton, UInt32.ofNat_add, if_true]
      rw [sub_add_eq_sub_sub]
      exact sub_eq_add_neg _ _

theorem balance_of_add {changes : List (Change α)} {count : Nat}
    (counted : count + (retractions changes).length =
      (insertions changes).length) : balance changes = UInt32.ofNat count := by
  unfold balance
  rw [← counted, UInt32.ofNat_add]
  exact add_sub_cancel_right _ _

theorem Held.balance_ne_zero {changes : List (Change α)} (held : Held changes) :
    balance changes ≠ 0 := by
  have counted : ((insertions changes).length - (retractions changes).length) +
      (retractions changes).length = (insertions changes).length :=
    Nat.sub_add_cancel held.1.le
  rw [balance_of_add counted, Ne, ← UInt32.toNat_inj, UInt32.toNat_ofNat']
  have upper := held.2
  have lower := held.1
  rw [Nat.mod_eq_of_lt (by omega)]
  exact Nat.sub_ne_zero_of_lt lower

theorem length_concat (changes : List (Change α)) (change : Change α) :
    (insertions (changes ++ [change])).length +
        (retractions (changes ++ [change])).length =
      (insertions changes).length + (retractions changes).length + 1 ∧
    (insertions changes).length ≤ (insertions (changes ++ [change])).length ∧
    (retractions changes).length ≤
      (retractions (changes ++ [change])).length := by
  obtain ⟨data, outdated⟩ := change
  cases outdated <;> simp <;> omega

/-- One change at a time the number of live values only reaches 2^32 where the
counter wraps around. -/
theorem held_concat {changes : List (Change α)} {change : Change α}
    (before : changes ≠ [] → Held changes)
    (more : (retractions (changes ++ [change])).length <
      (insertions (changes ++ [change])).length)
    (counter : balance (changes ++ [change]) ≠ 0) :
    Held (changes ++ [change]) := by
  refine ⟨more, ?_⟩
  by_contra wrapped
  have reached : 2 ^ 32 + (retractions (changes ++ [change])).length =
      (insertions (changes ++ [change])).length := by
    obtain ⟨total, grown, grown'⟩ := length_concat changes change
    by_cases start : changes = []
    · subst start
      simp only [insertions_nil, retractions_nil, List.length_nil] at total
      omega
    · have bound := (before start).2
      omega
  exact counter ((balance_of_add reached).trans (by decide))

/-! ### Functions that only count -/

/-- A function whose failures depend on the number of live values alone. -/
structure Counting (aggr : AggregateFunc α S Out) (holds : Nat → S → Prop) :
    Prop where
  init : holds 0 aggr.init
  insert : ∀ {count state} (data : α), holds count state →
    ∃ next, aggr.iterate state data false = some next ∧ holds (count + 1) next
  retract : ∀ {count state} (data : α), holds (count + 1) state →
    ∃ next, aggr.iterate state data true = some next ∧ holds count next
  value : ∀ {count state}, 0 < count → count < 2 ^ 32 → holds count state →
    (aggr.value state).isSome

theorem AggrAvg.counting (column : α → ℚ) :
    Counting (AggrAvg.on column)
      (fun count state => state.mCount = UInt32.ofNat count) where
  init := rfl
  insert := by
    intro count state data counted
    refine ⟨_, rfl, ?_⟩
    simp only [AggrAvg.iterate, Bool.false_eq_true, if_false]
    rw [counted, UInt32.ofNat_add]
    rfl
  retract := by
    intro count state data counted
    refine ⟨_, rfl, ?_⟩
    simp only [AggrAvg.iterate, if_true]
    rw [counted, UInt32.ofNat_add]
    exact add_sub_cancel_right _ _
  value := by
    intro count state positive small counted
    have nonzero : state.mCount ≠ 0 := by
      rw [counted, Ne, ← UInt32.toNat_inj, UInt32.toNat_ofNat',
        Nat.mod_eq_of_lt small]
      exact Nat.ne_of_gt positive
    simp [AggregateFunc.on, AggrAvg, AggrAvg.value, nonzero]

theorem AggrLRecent.counting (V : Type) (column : α → V) :
    Counting ((AggrLRecent V).on column)
      (fun count mData => mData.length = count) where
  init := rfl
  insert := by
    intro count mData data counted
    refine ⟨_, rfl, ?_⟩
    rw [List.length_append, counted]
    rfl
  retract := by
    intro count mData data counted
    cases mData with
    | nil => cases counted
    | cons first rest => exact ⟨rest, rfl, Nat.succ.inj counted⟩
  value := by
    intro count mData positive _ counted
    cases mData with
    | nil =>
        rw [List.length_nil] at counted
        omega
    | cons first rest => rfl

/-- The counter of an average is the balance of its history. -/
theorem AggrAvg.replay_balance (column : α → ℚ) (changes : List (Change α)) :
    ∃ state, (AggrAvg.on column).replay changes = some state ∧
      state.mCount = balance changes := by
  induction changes using List.reverseRecOn with
  | nil => exact ⟨_, rfl, (sub_self _).symm⟩
  | append_singleton changes change induction =>
      obtain ⟨state, replayed, counted⟩ := induction
      refine ⟨AggrAvg.iterate state (column change.data) change.outdated, ?_, ?_⟩
      · rw [AggregateFunc.replay_concat, replayed]
        rfl
      · rw [balance_concat, ← counted]
        unfold AggrAvg.iterate
        cases change.outdated
        · rfl
        · exact sub_eq_add_neg _ _

/-! ### Operators that keep one state for each history -/

/-- The history of every key grows by the changes of the key; it may pass over
outdated ones until it has started. -/
structure Histories (key : α → K)
    (histories : K → List (Change α) → List (Change α)) : Prop where
  nil : ∀ grpKey, histories grpKey [] = []
  other : ∀ grpKey seen change, key change.data ≠ grpKey →
    histories grpKey (seen ++ [change]) = histories grpKey seen
  self : ∀ seen change,
    histories (key change.data) (seen ++ [change]) =
        histories (key change.data) seen ++ [change] ∨
      histories (key change.data) (seen ++ [change]) = [] ∧
        histories (key change.data) seen = [] ∧ change.outdated = true

/-- All histories that have started are held, at every point of the stream. -/
def AllHeld (histories : K → List (Change α) → List (Change α))
    (stream : List (Change α)) : Prop :=
  ∀ seen, seen <+: stream → ∀ grpKey, histories grpKey seen ≠ [] →
    Held (histories grpKey seen)

theorem AllHeld.truncate {histories : K → List (Change α) → List (Change α)}
    {seen stream : List (Change α)} (held : AllHeld histories stream)
    (start : seen <+: stream) : AllHeld histories seen :=
  fun part inside => held part (inside.trans start)

/-- One more element, published with the value of its history; nothing is published
while the history has not started. -/
def answer (aggregate : AggregateFunc α S Out) (record : List (Change α))
    (outdated : Bool) (earlier : List (Change Out)) :
    Option (List (Change Out)) :=
  match record with
  | [] => some earlier
  | _ :: _ =>
      (aggregate.replay record).bind fun state =>
        (aggregate.value state).map fun result =>
          earlier ++ [⟨result, outdated⟩]

theorem answer_of_ne_nil (aggregate : AggregateFunc α S Out)
    {record : List (Change α)} (started : record ≠ []) (outdated : Bool)
    (earlier : List (Change Out)) :
    answer aggregate record outdated earlier =
      (aggregate.replay record).bind fun state =>
        (aggregate.value state).map fun result =>
          earlier ++ [⟨result, outdated⟩] := by
  cases record with
  | nil => exact absurd rfl started
  | cons first rest => rfl

/-- As long as all histories are held, the operator answers every element from the
history of its key. -/
structure Evaluates (op : Operator α) (key : α → K)
    (histories : K → List (Change α) → List (Change α)) : Prop where
  grow : Histories key histories
  start : ∀ S Out (aggregate : AggregateFunc α S Out),
    op S Out aggregate [] = some []
  continues : ∀ S Out (aggregate : AggregateFunc α S Out) seen change values,
    op S Out aggregate (seen ++ [change]) = some values →
      ∃ earlier, op S Out aggregate seen = some earlier ∧ earlier <+: values
  step : ∀ seen change, AllHeld histories seen →
    ∀ S Out (aggregate : AggregateFunc α S Out),
      op S Out aggregate (seen ++ [change]) =
        (op S Out aggregate seen).bind fun earlier =>
          answer aggregate (histories (key change.data) (seen ++ [change]))
            change.outdated earlier

section

variable {op : Operator α} {key : α → K}
  {histories : K → List (Change α) → List (Change α)}

/-- The history that has just grown decides whether all of them are held. -/
theorem allHeld_concat (grow : Histories key histories)
    (seen : List (Change α)) (change : Change α) :
    AllHeld histories (seen ++ [change]) ↔
      AllHeld histories seen ∧
        (histories (key change.data) (seen ++ [change]) ≠ [] →
          Held (histories (key change.data) (seen ++ [change]))) := by
  constructor
  · intro held
    exact ⟨held.truncate (List.prefix_append _ _),
      held _ List.prefix_rfl (key change.data)⟩
  · intro every part start grpKey
    obtain ⟨before, newest⟩ := every
    rcases List.prefix_concat_iff.mp start with whole | inside
    · subst whole
      by_cases same : key change.data = grpKey
      · subst same
        exact newest
      · rw [grow.other grpKey seen change same]
        exact before seen List.prefix_rfl grpKey
    · exact before part inside grpKey

/-- A function that only counts has a state for every history. -/
theorem Counting.replay {aggr : AggregateFunc α S Out} {holds : Nat → S → Prop}
    (counting : Counting aggr holds) (grow : Histories key histories)
    {stream : List (Change α)} (held : AllHeld histories stream) (grpKey : K) :
    ∃ state count, aggr.replay (histories grpKey stream) = some state ∧
      holds count state ∧
      count + (retractions (histories grpKey stream)).length =
        (insertions (histories grpKey stream)).length := by
  induction stream using List.reverseRecOn with
  | nil =>
      rw [grow.nil]
      exact ⟨aggr.init, 0, rfl, counting.init, rfl⟩
  | append_singleton seen change induction =>
      obtain ⟨state, count, replayed, related, counted⟩ :=
        induction (held.truncate (List.prefix_append _ _))
      by_cases same : key change.data = grpKey
      · subst same
        rcases grow.self seen change with grown | ⟨silent, before, _⟩
        · have more := (held _ List.prefix_rfl (key change.data)
            (by rw [grown]; simp)).1
          rw [grown] at more ⊢
          rw [AggregateFunc.replay_concat, replayed, Option.bind_some]
          obtain ⟨data, outdated⟩ := change
          dsimp only at more counted ⊢
          cases outdated with
          | false =>
              obtain ⟨next, iterated, kept⟩ := counting.insert data related
              refine ⟨next, count + 1, iterated, kept, ?_⟩
              simp only [insertions_append, retractions_append,
                insertions_cons_new, retractions_cons_new, insertions_nil,
                retractions_nil, List.append_nil, List.length_append,
                List.length_singleton]
              omega
          | true =>
              simp only [insertions_append, retractions_append,
                insertions_cons_outdated, retractions_cons_outdated,
                insertions_nil, retractions_nil, List.append_nil,
                List.length_append, List.length_singleton] at more ⊢
              obtain ⟨rest, equal⟩ : ∃ rest, count = rest + 1 :=
                ⟨count - 1, by omega⟩
              rw [equal] at related
              obtain ⟨next, iterated, kept⟩ := counting.retract data related
              exact ⟨next, rest, iterated, kept, by omega⟩
        · rw [before] at replayed counted
          rw [silent]
          exact ⟨state, count, replayed, related, counted⟩
      · rw [grow.other grpKey seen change same]
        exact ⟨state, count, replayed, related, counted⟩

/-- The operator gets through a stream whose histories have values. -/
theorem Evaluates.isSome_of_values (evaluates : Evaluates op key histories)
    {aggr : AggregateFunc α S Out} {stream : List (Change α)}
    (held : AllHeld histories stream)
    (values : ∀ seen change, seen ++ [change] <+: stream →
      histories (key change.data) (seen ++ [change]) ≠ [] →
      ∃ state result,
        aggr.replay (histories (key change.data) (seen ++ [change])) =
            some state ∧
          aggr.value state = some result) :
    (op _ _ aggr stream).isSome := by
  induction stream using List.reverseRecOn with
  | nil =>
      rw [evaluates.start]
      rfl
  | append_singleton seen change induction =>
      have before := held.truncate (List.prefix_append seen [change])
      obtain ⟨earlier, published⟩ := Option.isSome_iff_exists.mp
        (induction before fun part other start =>
          values part other (start.trans (List.prefix_append _ _)))
      rw [evaluates.step seen change before, published, Option.bind_some]
      by_cases started :
          histories (key change.data) (seen ++ [change]) = []
      · rw [started]
        rfl
      · obtain ⟨state, result, replayed, valued⟩ :=
          values seen change List.prefix_rfl started
        rw [answer_of_ne_nil aggr started, replayed, Option.bind_some, valued]
        rfl

/-- With such a function the operator gets through the stream. -/
theorem Evaluates.isSome_of_counting (evaluates : Evaluates op key histories)
    {aggr : AggregateFunc α S Out} {holds : Nat → S → Prop}
    (counting : Counting aggr holds) {stream : List (Change α)}
    (held : AllHeld histories stream) : (op _ _ aggr stream).isSome := by
  apply evaluates.isSome_of_values held
  intro seen change start started
  have live := held _ start (key change.data) started
  obtain ⟨state, count, replayed, related, counted⟩ :=
    counting.replay evaluates.grow (held.truncate start) (key change.data)
  have lower := live.1
  have upper := live.2
  obtain ⟨result, valued⟩ := Option.isSome_iff_exists.mp
    (counting.value (by omega) (by omega) related)
  exact ⟨state, result, replayed, valued⟩

/-- The record of the histories never fails. -/
theorem Evaluates.history_step (evaluates : Evaluates op key histories)
    {seen : List (Change α)} (change : Change α) (held : AllHeld histories seen)
    (started : histories (key change.data) (seen ++ [change]) ≠ []) :
    op _ _ (history α) (seen ++ [change]) =
      (op _ _ (history α) seen).map fun earlier =>
        earlier ++ [⟨histories (key change.data) (seen ++ [change]),
          change.outdated⟩] := by
  rw [evaluates.step seen change held]
  simp only [answer_of_ne_nil (history α) started, history_replay,
    Option.bind_some]
  cases op _ _ (history α) seen <;> rfl

/-- What holds of a stream held of its parts. -/
theorem NeverEmpty.before (evaluates : Evaluates op key histories)
    {seen : List (Change α)} {change : Change α}
    (never : NeverEmpty op (seen ++ [change])) : NeverEmpty op seen := by
  have continues : ∀ {S Out : Type} (aggregate : AggregateFunc α S Out),
      (op S Out aggregate (seen ++ [change])).isSome →
        (op S Out aggregate seen).isSome := by
    intro S Out aggregate published
    obtain ⟨values, equal⟩ := Option.isSome_iff_exists.mp published
    obtain ⟨earlier, before, _⟩ :=
      evaluates.continues _ _ aggregate seen change values equal
    exact Option.isSome_iff_exists.mpr ⟨earlier, before⟩
  refine ⟨?_, fun column => continues _ (never.avg column),
    fun V column => continues _ (never.lRecent V column)⟩
  obtain ⟨values, published, filled⟩ := never.calls
  obtain ⟨earlier, before, start⟩ :=
    evaluates.continues _ _ _ seen change values published
  exact ⟨earlier, before, fun call member => filled call (start.subset member)⟩

/-- The last call tells that its history is held. -/
theorem NeverEmpty.newest (evaluates : Evaluates op key histories)
    {seen : List (Change α)} {change : Change α}
    (never : NeverEmpty op (seen ++ [change])) (held : AllHeld histories seen)
    (started : histories (key change.data) (seen ++ [change]) ≠ []) :
    Held (histories (key change.data) (seen ++ [change])) := by
  have more : (retractions
      (histories (key change.data) (seen ++ [change]))).length <
      (insertions (histories (key change.data) (seen ++ [change]))).length := by
    obtain ⟨values, published, filled⟩ := never.calls
    rw [evaluates.history_step change held started,
      Option.map_eq_some_iff] at published
    obtain ⟨earlier, _, equal⟩ := published
    exact filled ⟨_, change.outdated⟩ (by rw [← equal]; simp)
  have counter :
      balance (histories (key change.data) (seen ++ [change])) ≠ 0 := by
    obtain ⟨values, averaged⟩ :=
      Option.isSome_iff_exists.mp (never.avg fun _ => 0)
    obtain ⟨state, replayed, counted⟩ := AggrAvg.replay_balance (fun _ => 0)
      (histories (key change.data) (seen ++ [change]))
    intro zero
    rw [evaluates.step seen change held, Option.bind_eq_some_iff] at averaged
    obtain ⟨earlier, _, answered⟩ := averaged
    rw [answer_of_ne_nil _ started, replayed, Option.bind_some] at answered
    have failed : (AggrAvg.on fun _ : α => 0).value state = none := by
      simp [AggregateFunc.on, AggrAvg, AggrAvg.value, counted, zero]
    rw [failed] at answered
    cases answered
  rcases evaluates.grow.self seen change with grown | ⟨silent, _, _⟩
  · rw [grown] at more counter ⊢
    exact held_concat (held seen List.prefix_rfl (key change.data)) more counter
  · exact absurd silent started

/-- An operator never reads an empty aggregate exactly when all its histories are
held. -/
theorem Evaluates.neverEmpty_iff (evaluates : Evaluates op key histories)
    (stream : List (Change α)) :
    NeverEmpty op stream ↔ AllHeld histories stream := by
  induction stream using List.reverseRecOn with
  | nil =>
      constructor
      · intro _ seen start grpKey started
        rw [List.prefix_nil.mp start, evaluates.grow.nil] at started
        exact absurd rfl started
      · intro _
        refine ⟨⟨[], evaluates.start _ _ _, fun call member => ?_⟩, ?_, ?_⟩
        · exact absurd member List.not_mem_nil
        · intro column
          rw [evaluates.start]
          rfl
        · intro V column
          rw [evaluates.start]
          rfl
  | append_singleton seen change induction =>
      constructor
      · intro never
        have held := induction.mp (never.before evaluates)
        exact (allHeld_concat evaluates.grow seen change).mpr
          ⟨held, never.newest evaluates held⟩
      · intro held
        have before := held.truncate (List.prefix_append seen [change])
        refine ⟨?_, fun column => evaluates.isSome_of_counting
          (AggrAvg.counting column) held, fun V column =>
          evaluates.isSome_of_counting (AggrLRecent.counting V column) held⟩
        obtain ⟨earlier, published, filled⟩ := (induction.mpr before).calls
        by_cases started :
            histories (key change.data) (seen ++ [change]) = []
        · refine ⟨earlier, ?_, filled⟩
          rw [evaluates.step seen change before, published, started]
          rfl
        · refine ⟨_, by rw [evaluates.history_step change before started,
            published]; rfl, ?_⟩
          intro call member
          rcases List.mem_append.mp member with old | newest
          · exact filled call old
          · rw [List.mem_singleton] at newest
            subst newest
            exact (held _ List.prefix_rfl (key change.data) started).1

end

end PipeFabric
