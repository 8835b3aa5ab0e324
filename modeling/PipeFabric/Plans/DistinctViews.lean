import Mathlib.Data.Multiset.Bind
import PipeFabric.Plans.Views

/-!
# Queries over distinct elements

The joins of a query find all partners when no element of their inputs is ever live
twice.  It is enough that the elements of every source and of every window are
different and that projections and joins keep them apart; unions come above the joins.
-/

namespace PipeFabric

open ChangeStream Published

variable {T K : Type} [DecidableEq T] [DecidableEq K]

/-! ### Operators that keep elements apart -/

/-- A tumbling window of different tuples. -/
theorem TumblingWindow.publishedGroups_neverTwice {groups : List (List T) × List T}
    (nodup : (groups.1.flatten ++ groups.2).Nodup) :
    NeverTwice 0 (changes (publishedGroups groups)) := by
  obtain ⟨closed, group⟩ := groups
  unfold publishedGroups
  rw [changes_append, changes_publishAll]
  induction closed with
  | nil =>
      apply neverTwice_insertAll
      rw [add_zero]
      exact nodup
  | cons first closed induction =>
      rw [List.flatten_cons, List.append_assoc] at nodup
      obtain ⟨firstNodup, rest, _⟩ := List.nodup_append.mp nodup
      have come : ((first : Multiset T) + 0).Nodup := by
        rw [add_zero]
        exact firstNodup
      rw [List.flatMap_cons, changes_append, closedGroup, changes_append, changes_publishAll,
        changes_expire, List.append_assoc, List.append_assoc]
      apply neverTwice_append.mpr
      refine ⟨neverTwice_insertAll come, ?_⟩
      rw [(leads_insertAll first 0).reached]
      apply neverTwice_append.mpr
      refine ⟨neverTwice_retractAll come, ?_⟩
      rw [(leads_retractAll first 0).reached]
      exact induction rest

namespace SHJoin

open JoinInput

variable {L R : Type} [DecidableEq L] [DecidableEq R]

omit [DecidableEq L] [DecidableEq R] in
theorem nodup_joined (join : SHJoin L R K) {lefts : Multiset L} {rights : Multiset R}
    (leftNodup : lefts.Nodup) (rightNodup : rights.Nodup) :
    (join.joined lefts rights).Nodup := by
  unfold joined
  apply Multiset.Nodup.filter
  exact leftNodup.product rightNodup

omit [DecidableEq K] in
/-- Where no element is ever live twice, the partners of every element are stored. -/
theorem partnersStored_of_neverTwice (join : SHJoin L R K) {inputs : List (JoinInput L R)}
    (leftNever : NeverTwice 0 (lefts inputs)) (rightNever : NeverTwice 0 (rights inputs)) :
    ∀ seen input, seen ++ [input] <+: inputs → join.PartnersStored seen input := by
  intro seen input start
  have earlier : seen <+: inputs := (List.prefix_append _ _).trans start
  cases input with
  | left change =>
      intro right _
      apply NeverTwice.insertedSince_eq_count
      intro part inside
      exact rightNever part (inside.trans (rights_mono earlier))
  | right change =>
      intro left _
      apply NeverTwice.insertedSince_eq_count
      intro part inside
      exact leftNever part (inside.trans (lefts_mono earlier))

/-- The results of a burst are different when they are all new, or were before they
are retracted. -/
theorem resultsFor_neverTwice {before after : Multiset T} {pairs : List T} {outdated : Bool}
    (leads : Leads before (resultsFor pairs outdated) after) (first : before.Nodup)
    (last : after.Nodup) : NeverTwice before (resultsFor pairs outdated) := by
  rw [resultsFor_eq] at leads ⊢
  cases outdated with
  | false =>
      have reached : (insertAll pairs).foldl applyChange before = after := leads.reached
      apply neverTwice_insertAll
      rw [← (leads_insertAll pairs before).reached, reached]
      exact last
  | true =>
      obtain rfl := Leads.before_eq leads
      exact neverTwice_retractAll first

/-- A join of different elements publishes different pairs. -/
theorem process_neverTwice (join : SHJoin L R K) {inputs : List (JoinInput L R)}
    (leftWellFormed : WellFormed (lefts inputs)) (rightWellFormed : WellFormed (rights inputs))
    (leftNever : NeverTwice 0 (lefts inputs)) (rightNever : NeverTwice 0 (rights inputs)) :
    NeverTwice 0 (process join inputs).2 := by
  have stored := partnersStored_of_neverTwice join leftNever rightNever
  -- what the join stands for at any time is free of duplicates
  have nodup : ∀ seen, seen <+: inputs →
      (join.joined (live (lefts seen)) (live (rights seen))).Nodup := by
    intro seen start
    apply nodup_joined
    · exact leftNever _ (lefts_mono start)
    · exact rightNever _ (rights_mono start)
  have leads : ∀ seen, seen <+: inputs → Leads 0 (process join seen).2
      (join.joined (live (lefts seen)) (live (rights seen))) := by
    intro seen start
    apply process_leads join
    · exact leftWellFormed.truncate (lefts_mono start)
    · exact rightWellFormed.truncate (rights_mono start)
    · exact fun earlier input inside => stored earlier input (inside.trans start)
  clear leftWellFormed rightWellFormed leftNever rightNever stored
  induction inputs using List.reverseRecOn with
  | nil => exact neverTwice_nil.mpr Multiset.nodup_zero
  | append_singleton seen input induction =>
      have start : seen <+: seen ++ [input] := List.prefix_append _ _
      have before := leads seen start
      have after := leads _ List.prefix_rfl
      rw [process_concat] at after ⊢
      have burst := after.wellFormed.leads_rest
      rw [after.live_eq, before.live_eq] at burst
      apply neverTwice_append.mpr
      constructor
      · exact induction (fun earlier inside => nodup earlier (inside.trans start))
          (fun earlier inside => leads earlier (inside.trans start))
      · obtain ⟨leftStores, rightStores⟩ := process_stores join seen
        rw [before.reached]
        cases input with
        | left change =>
            dsimp only [processDataElement] at burst ⊢
            rw [processLeftDataElement_published join rightStores.keyed] at burst ⊢
            exact resultsFor_neverTwice burst (nodup seen start) (nodup _ List.prefix_rfl)
        | right change =>
            dsimp only [processDataElement] at burst ⊢
            rw [processRightDataElement_published join leftStores.keyed] at burst ⊢
            exact resultsFor_neverTwice burst (nodup seen start) (nodup _ List.prefix_rfl)

end SHJoin

/-! ### Queries -/

namespace QueryTree

/-- The elements of the sources and windows are different, and the query keeps them
apart. -/
def Distinct : QueryTree T K → List (SourceElement T) → Prop
  | .source number, arrivals => NeverTwice 0 (SourceElement.changesOf number arrivals)
  | .slidingWindow _ input, arrivals => (input.tuples arrivals).Nodup
  | .tumblingWindow _ input, arrivals => (input.tuples arrivals).Nodup
  | .where_ _ input, arrivals => input.Distinct arrivals
  | .map op input, arrivals =>
      Function.Injective (fun data => op.mFunc data false) ∧ input.Distinct arrivals
  | .merge _ _, _ => False
  | .join _ joinElements left right, arrivals =>
      Function.Injective2 joinElements ∧ left.Distinct arrivals ∧ right.Distinct arrivals

/-- The inputs of every join are distinct. -/
def JoinsDistinct : QueryTree T K → List (SourceElement T) → Prop
  | .source _, _ => True
  | .slidingWindow _ _, _ => True
  | .tumblingWindow _ _, _ => True
  | .where_ _ input, arrivals => input.JoinsDistinct arrivals
  | .map _ input, arrivals => input.JoinsDistinct arrivals
  | .merge left right, arrivals => left.JoinsDistinct arrivals ∧ right.JoinsDistinct arrivals
  | .join _ _ left right, arrivals => left.Distinct arrivals ∧ right.Distinct arrivals

/-- A distinct query never publishes an element while it is live, and its joins find
the partners of every element. -/
theorem Distinct.published {tree : QueryTree T K} {arrivals : List (SourceElement T)}
    (distinct : tree.Distinct arrivals) (regular : tree.Regular arrivals) :
    tree.JoinsFind arrivals ∧ NeverTwice 0 (tree.published arrivals) := by
  induction tree with
  | source number =>
      rw [published_source]
      exact ⟨trivial, distinct⟩
  | slidingWindow op input =>
      rw [published_slidingWindow, input.flatMap_publish regular.1]
      obtain ⟨function, admissible, fits⟩ := regular.2
      have liveSet := SlidingWindow.liveSet_of_fits function admissible fits
      refine ⟨trivial, liveSet.ordered.neverTwice ?_⟩
      rw [liveSet.arrivals]
      exact distinct
  | tumblingWindow op input =>
      rw [published_tumblingWindow, input.flatMap_publish regular.1]
      obtain ⟨function, ⟨size, range, positive⟩, nonneg⟩ := regular.2
      refine ⟨trivial, ?_⟩
      have groups := TumblingWindow.processNew_groups range positive function nonneg
      change NeverTwice 0 (changes (TumblingWindow.processNew op (input.tuples arrivals)).2)
      rw [groups.2]
      apply TumblingWindow.publishedGroups_neverTwice
      rw [GroupCut.flatten_cut]
      exact distinct
  | where_ op input induction =>
      obtain ⟨find, never⟩ := induction distinct regular.2
      refine ⟨find, ?_⟩
      rw [published_where]
      apply NeverTwice.flatMap (Where.replaces regular.1)
      · intro change
        unfold Where.processDataElement
        split
        · exact le_refl 1
        · exact Nat.zero_le 1
      · exact (published_leads regular.2 find).wellFormed
      · intro earlier start
        rw [Where.bind_image]
        exact Multiset.Nodup.filter _ (never earlier start)
  | map op input induction =>
      obtain ⟨find, never⟩ := induction distinct.2 regular.2
      refine ⟨find, ?_⟩
      rw [published_map]
      apply NeverTwice.flatMap (Map.replaces regular.1)
      · exact fun change => le_refl 1
      · exact (published_leads regular.2 find).wellFormed
      · intro earlier start
        rw [Multiset.bind_singleton]
        exact Multiset.Nodup.map distinct.1 (never earlier start)
  | merge left right => exact absurd distinct id
  | join op joinElements left right leftInduction rightInduction =>
      obtain ⟨injective, leftDistinct, rightDistinct⟩ := distinct
      obtain ⟨leftFind, leftNever⟩ := leftInduction leftDistinct regular.1
      obtain ⟨rightFind, rightNever⟩ := rightInduction rightDistinct regular.2
      have leftLeads := published_leads regular.1 leftFind
      have rightLeads := published_leads regular.2 rightFind
      rw [← lefts_feeds arrivals left right] at leftNever leftLeads
      rw [← rights_feeds arrivals left right] at rightNever rightLeads
      have stored := SHJoin.partnersStored_of_neverTwice op leftNever rightNever
      refine ⟨⟨leftFind, rightFind, stored⟩, ?_⟩
      rw [published_join]
      apply NeverTwice.flatMap (publishJoined_replaces joinElements)
      · exact fun change => le_refl 1
      · exact (SHJoin.process_leads op leftLeads.wellFormed rightLeads.wellFormed
          stored).wellFormed
      · intro earlier start
        have never := SHJoin.process_neverTwice op leftLeads.wellFormed
          rightLeads.wellFormed leftNever rightNever
        rw [Multiset.bind_singleton]
        apply Multiset.Nodup.map _ (never earlier start)
        intro first second same
        obtain ⟨lefts, rights⟩ := injective same
        exact Prod.ext lefts rights

theorem JoinsDistinct.joinsFind {tree : QueryTree T K} {arrivals : List (SourceElement T)}
    (distinct : tree.JoinsDistinct arrivals) (regular : tree.Regular arrivals) :
    tree.JoinsFind arrivals := by
  induction tree with
  | source number => trivial
  | slidingWindow op input => trivial
  | tumblingWindow op input => trivial
  | where_ op input induction => exact induction distinct regular.2
  | map op input induction => exact induction distinct regular.2
  | merge left right leftInduction rightInduction =>
      exact ⟨leftInduction distinct.1 regular.1, rightInduction distinct.2 regular.2⟩
  | join op joinElements left right leftInduction rightInduction =>
      obtain ⟨leftFind, leftNever⟩ := distinct.1.published regular.1
      obtain ⟨rightFind, rightNever⟩ := distinct.2.published regular.2
      rw [← lefts_feeds arrivals left right] at leftNever
      rw [← rights_feeds arrivals left right] at rightNever
      exact ⟨leftFind, rightFind,
        SHJoin.partnersStored_of_neverTwice op leftNever rightNever⟩

theorem windowJoin_distinct : windowJoin.JoinsDistinct windowArrivals := by
  constructor
  · change [2, 1].Nodup
    decide
  · have held : NeverTwice 0 (insertAll [2]) := neverTwice_insertAll (by decide)
    exact held

end QueryTree

end PipeFabric
