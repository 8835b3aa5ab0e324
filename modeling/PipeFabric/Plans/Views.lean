import Mathlib.Data.Nat.Pairing
import PipeFabric.Joins.Incremental
import PipeFabric.Plans.OperatorTrees
import PipeFabric.Windows.LiveSet
import PipeFabric.Windows.RangeGroups

/-!
# Queries as incremental views

A query means a multiset of elements: windows turn the tuples of a stream into the ones
they contain, and the other operators are those of the relational algebra on multisets.
What the operators publish for the arriving elements amounts to this multiset after
every arrival.
-/

namespace PipeFabric

open ChangeStream Published

variable {T K : Type} [DecidableEq T] [DecidableEq K]

/-! ### What a query means -/

section

omit [DecidableEq T] [DecidableEq K]

/-- The tuples of a stream that an arriving new element leads to. -/
def StreamTree.tuplesOf : StreamTree T → SourceElement T → List T
  | .source number, arrival =>
      if arrival.source = number then [arrival.change.data] else []
  | .where_ op input, arrival =>
      (input.tuplesOf arrival).filter fun data => op.mFunc data false
  | .map op input, arrival => (input.tuplesOf arrival).map fun data => op.mFunc data false
  | .merge left right, arrival => left.tuplesOf arrival ++ right.tuplesOf arrival

/-- The tuples of a stream. -/
def StreamTree.tuples (tree : StreamTree T) (arrivals : List (SourceElement T)) : List T :=
  arrivals.flatMap tree.tuplesOf

/-- The sources of a stream publish new elements only. -/
def StreamTree.OnlyNew : StreamTree T → List (SourceElement T) → Prop
  | .source number, arrivals =>
      ∀ arrival ∈ arrivals, arrival.source = number → arrival.change.outdated = false
  | .where_ _ input, arrivals => input.OnlyNew arrivals
  | .map _ input, arrivals => input.OnlyNew arrivals
  | .merge left right, arrivals => left.OnlyNew arrivals ∧ right.OnlyNew arrivals

/-- The tuples of a tumbling range window: those since the window was last closed. -/
def TumblingWindow.openGroup (window : Window T) (seen : List T) : List T :=
  match window.mWinSize with
  | .RangeWindow size =>
      (GroupCut.cut (closesRange window.mTimestampExtractor size) [] seen).2
  | .RowWindow _ => []

/-- A range window without a window function, of tuples that have no negative
timestamps. -/
def TumblingWindow.Regular (window : Window T) (tuples : List T) : Prop :=
  window.mWindowOpFunc = none ∧
    (∃ size, window.mWinSize = .RangeWindow size ∧ 0 < size) ∧
    ∀ tuple ∈ tuples, 0 ≤ window.mTimestampExtractor tuple

/-- A window without a window function, of a size and of timestamps it is meant for. -/
def SlidingWindow.Regular (window : Window T) (tuples : List T) : Prop :=
  window.mWindowOpFunc = none ∧ Admissible window tuples ∧ CounterFits window tuples

end

namespace QueryTree

/-- The elements a query stands for. -/
def view : QueryTree T K → List (SourceElement T) → Multiset T
  | .source number, arrivals => live (SourceElement.changesOf number arrivals)
  | .slidingWindow op input, arrivals =>
      (SlidingWindow.liveTuples op (input.tuples arrivals) : Multiset T)
  | .tumblingWindow op input, arrivals =>
      (TumblingWindow.openGroup op (input.tuples arrivals) : Multiset T)
  | .where_ op input, arrivals => (input.view arrivals).filter fun data => op.mFunc data false
  | .map op input, arrivals => (input.view arrivals).map fun data => op.mFunc data false
  | .merge left right, arrivals => left.view arrivals + right.view arrivals
  | .join op joinElements left right, arrivals =>
      (op.joined (left.view arrivals) (right.view arrivals)).map fun pair =>
        joinElements pair.1 pair.2

/-- What the sources, the windows and the user's functions are meant to be. -/
def Regular : QueryTree T K → List (SourceElement T) → Prop
  | .source number, arrivals => WellFormed (SourceElement.changesOf number arrivals)
  | .slidingWindow op input, arrivals =>
      input.OnlyNew arrivals ∧ SlidingWindow.Regular op (input.tuples arrivals)
  | .tumblingWindow op input, arrivals =>
      input.OnlyNew arrivals ∧ TumblingWindow.Regular op (input.tuples arrivals)
  | .where_ op input, arrivals => op.IgnoresFlag ∧ input.Regular arrivals
  | .map op input, arrivals => op.IgnoresFlag ∧ input.Regular arrivals
  | .merge left right, arrivals => left.Regular arrivals ∧ right.Regular arrivals
  | .join _ _ left right, arrivals => left.Regular arrivals ∧ right.Regular arrivals

/-- No join of the query meets an element with a partner of which a copy was live when
the partner was last retracted. -/
def JoinsFind : QueryTree T K → List (SourceElement T) → Prop
  | .source _, _ => True
  | .slidingWindow _ _, _ => True
  | .tumblingWindow _ _, _ => True
  | .where_ _ input, arrivals => input.JoinsFind arrivals
  | .map _ input, arrivals => input.JoinsFind arrivals
  | .merge left right, arrivals => left.JoinsFind arrivals ∧ right.JoinsFind arrivals
  | .join op _ left right, arrivals =>
      left.JoinsFind arrivals ∧ right.JoinsFind arrivals ∧
        ∀ seen input, seen ++ [input] <+: feeds left right arrivals →
          op.PartnersStored seen input

end QueryTree

/-! ### Streams -/

section

omit [DecidableEq T] [DecidableEq K]

theorem StreamTree.publish_new {tree : StreamTree T} {arrival : SourceElement T}
    (new : tree.OnlyNew [arrival]) : tree.publish arrival = insertAll (tree.tuplesOf arrival) := by
  induction tree with
  | source number =>
      unfold publish tuplesOf
      by_cases here : arrival.source = number
      · rw [if_pos here, if_pos here]
        obtain ⟨source, data, outdated⟩ := arrival
        obtain rfl : outdated = false := new _ (List.mem_singleton_self _) here
        rfl
      · rw [if_neg here, if_neg here]
        rfl
  | where_ op input induction =>
      rw [publish, tuplesOf, induction new]
      generalize input.tuplesOf arrival = tuples
      induction tuples with
      | nil => rfl
      | cons data tuples rest =>
          rw [List.filter_cons]
          simp only [insertAll, List.map_cons, List.flatMap_cons] at rest ⊢
          rw [rest]
          by_cases accepted : op.mFunc data false = true
          · simp [Where.processDataElement, accepted]
          · simp [Where.processDataElement, accepted]
  | map op input induction =>
      rw [publish, tuplesOf, induction new]
      generalize input.tuplesOf arrival = tuples
      induction tuples with
      | nil => rfl
      | cons data tuples rest => exact congrArg _ rest
  | merge left right leftInduction rightInduction =>
      rw [publish, tuplesOf, leftInduction new.1, rightInduction new.2, ← insertAll_append]
      generalize left.tuplesOf arrival ++ right.tuplesOf arrival = tuples
      induction tuples with
      | nil => rfl
      | cons data tuples rest => exact congrArg _ rest

theorem StreamTree.OnlyNew.subset {tree : StreamTree T} {seen arrivals : List (SourceElement T)}
    (new : tree.OnlyNew arrivals) (inside : seen ⊆ arrivals) : tree.OnlyNew seen := by
  induction tree with
  | source number => exact fun arrival member => new arrival (inside member)
  | where_ op input induction => exact induction new
  | map op input induction => exact induction new
  | merge left right leftInduction rightInduction =>
      exact ⟨leftInduction new.1, rightInduction new.2⟩

theorem StreamTree.flatMap_publish {tree : StreamTree T} {arrivals : List (SourceElement T)}
    (new : tree.OnlyNew arrivals) :
    arrivals.flatMap tree.publish = insertAll (tree.tuples arrivals) := by
  induction arrivals with
  | nil => rfl
  | cons arrival arrivals induction =>
      have first : tree.OnlyNew [arrival] :=
        new.subset (List.cons_subset.mpr ⟨List.mem_cons_self, List.nil_subset _⟩)
      have rest := induction (new.subset (List.subset_cons_self _ _))
      rw [List.flatMap_cons, publish_new first, rest, tuples, tuples, List.flatMap_cons,
        insertAll_append]

theorem StreamTree.tuples_mono (tree : StreamTree T) {seen arrivals : List (SourceElement T)}
    (start : seen <+: arrivals) : tree.tuples seen <+: tree.tuples arrivals := by
  obtain ⟨later, rfl⟩ := start
  unfold tuples
  rw [List.flatMap_append]
  exact List.prefix_append _ _

theorem SourceElement.changesOf_mono (number : Nat) {seen arrivals : List (SourceElement T)}
    (start : seen <+: arrivals) : changesOf number seen <+: changesOf number arrivals := by
  obtain ⟨later, rfl⟩ := start
  unfold changesOf
  rw [List.filterMap_append]
  exact List.prefix_append _ _

end

/-! ### Windows -/

theorem SlidingWindow.processNew_leads {window : Window T} {tuples : List T}
    (regular : SlidingWindow.Regular window tuples) :
    Leads 0 (changes (processNew window tuples).2) (liveTuples window tuples : Multiset T) := by
  obtain ⟨function, admissible, fits⟩ := regular
  have liveSet := liveSet_of_fits function admissible fits
  refine leads_iff.mpr ⟨liveSet.ordered.wellFormed, ?_⟩
  rw [← liveSet.buffer, ← liveSet.balance,
    ← liveSet.ordered.wellFormed.live_add_retractions, Multiset.add_sub_cancel_right]

/-- What is published for the groups of a tumbling window leaves the open one. -/
theorem TumblingWindow.publishedGroups_leads (groups : List (List T) × List T) :
    Leads 0 (changes (publishedGroups groups)) (groups.2 : Multiset T) := by
  obtain ⟨closed, group⟩ := groups
  have opened := leads_insertAll group 0
  rw [add_zero] at opened
  unfold publishedGroups
  rw [changes_append, changes_publishAll]
  refine Leads.append ?_ opened
  induction closed with
  | nil => exact leads_nil.mpr rfl
  | cons first closed induction =>
      have gone := leads_retractAll first 0
      have come := leads_insertAll first 0
      rw [List.flatMap_cons, changes_append, closedGroup, changes_append, changes_publishAll,
        changes_expire]
      exact (come.append gone).append induction

theorem TumblingWindow.processNew_leads {window : Window T} {tuples : List T}
    (regular : TumblingWindow.Regular window tuples) :
    Leads 0 (changes (processNew window tuples).2) (openGroup window tuples : Multiset T) := by
  obtain ⟨function, ⟨size, range, positive⟩, nonneg⟩ := regular
  rw [(processNew_groups range positive function nonneg).2, openGroup, range]
  exact publishedGroups_leads _

/-! ### Joins -/

namespace SHJoin

open JoinInput

variable {L R : Type} [DecidableEq L] [DecidableEq R]

omit [DecidableEq T] [DecidableEq K] [DecidableEq L] [DecidableEq R] in
theorem resultsFor_eq (pairs : List T) (outdated : Bool) :
    resultsFor pairs outdated = if outdated then retractAll pairs else insertAll pairs := by
  cases outdated with
  | false => rfl
  | true => rfl

/-- A burst of results for one element, and the pairs that it adds or takes. -/
theorem resultsFor_leads {before after partners : Multiset T} {pairs : List T}
    {outdated : Bool} (found : (pairs : Multiset T) = partners)
    (next : if outdated then before = partners + after else after = partners + before) :
    Leads before (resultsFor pairs outdated) after := by
  rw [resultsFor_eq]
  subst partners
  cases outdated with
  | false =>
      obtain rfl : after = (pairs : Multiset T) + before := next
      exact leads_insertAll pairs before
  | true =>
      obtain rfl : before = (pairs : Multiset T) + after := next
      exact leads_retractAll pairs after

/-- Where the partners of every arriving element are stored, the join leads to the
matching pairs of live elements. -/
theorem process_leads (join : SHJoin L R K) {inputs : List (JoinInput L R)}
    (leftWellFormed : WellFormed (lefts inputs)) (rightWellFormed : WellFormed (rights inputs))
    (stored : ∀ seen input, seen ++ [input] <+: inputs → join.PartnersStored seen input) :
    Leads 0 (process join inputs).2
      (join.joined (live (lefts inputs)) (live (rights inputs))) := by
  induction inputs using List.reverseRecOn with
  | nil => exact leads_nil.mpr rfl
  | append_singleton seen input induction =>
      have start : seen <+: seen ++ [input] := List.prefix_append _ _
      have before := induction (leftWellFormed.truncate (lefts_mono start))
        (rightWellFormed.truncate (rights_mono start))
        (fun earlier other inside => stored earlier other (inside.trans start))
      have latest := stored seen input List.prefix_rfl
      obtain ⟨leftStores, rightStores⟩ := process_stores join seen
      rw [process_concat]
      refine before.append ?_
      cases input with
      | left change =>
          rw [lefts_append, lefts_left] at leftWellFormed ⊢
          rw [rights_append, rights_left, List.append_nil] at rightWellFormed ⊢
          have partners := (rightStores.filter_eq_iff (join.Matches change.data)).mpr latest
          have next := leftWellFormed.live_concat
          rw [processDataElement, processLeftDataElement_published join rightStores.keyed]
          apply resultsFor_leads
          · exact (Multiset.map_coe _ _).symm.trans (congrArg _ partners)
          · split at next
            · next flag => rw [if_pos flag, next, joined_cons_left]
            · next flag => rw [if_neg flag, next, joined_cons_left]
      | right change =>
          rw [rights_append, rights_right] at rightWellFormed ⊢
          rw [lefts_append, lefts_right, List.append_nil] at leftWellFormed ⊢
          have partners := (leftStores.filter_eq_iff fun left =>
            join.Matches left change.data).mpr latest
          have next := rightWellFormed.live_concat
          rw [processDataElement, processRightDataElement_published join leftStores.keyed]
          apply resultsFor_leads
          · exact (Multiset.map_coe _ _).symm.trans (congrArg _ partners)
          · split at next
            · next flag => rw [if_pos flag, next, joined_cons_right]
            · next flag => rw [if_neg flag, next, joined_cons_right]

end SHJoin

/-! ### Queries -/

namespace QueryTree

omit [DecidableEq K] in
theorem Regular.truncate {tree : QueryTree T K} {seen arrivals : List (SourceElement T)}
    (regular : tree.Regular arrivals) (start : seen <+: arrivals) : tree.Regular seen := by
  induction tree with
  | source number =>
      have changes := SourceElement.changesOf_mono number start
      exact WellFormed.truncate regular changes
  | slidingWindow op input =>
      obtain ⟨new, function, admissible, fits⟩ := regular
      have tuples := input.tuples_mono start
      exact ⟨new.subset start.subset, function, admissible.truncate tuples,
        fits.truncate tuples⟩
  | tumblingWindow op input =>
      obtain ⟨new, function, range, nonneg⟩ := regular
      have tuples := input.tuples_mono start
      exact ⟨new.subset start.subset, function, range,
        fun tuple member => nonneg tuple (tuples.subset member)⟩
  | where_ op input induction => exact ⟨regular.1, induction regular.2⟩
  | map op input induction => exact ⟨regular.1, induction regular.2⟩
  | merge left right leftInduction rightInduction =>
      exact ⟨leftInduction regular.1, rightInduction regular.2⟩
  | join op joinElements left right leftInduction rightInduction =>
      exact ⟨leftInduction regular.1, rightInduction regular.2⟩

theorem feeds_mono (left right : QueryTree T K) {seen arrivals : List (SourceElement T)}
    (start : seen <+: arrivals) : feeds left right seen <+: feeds left right arrivals :=
  Transducer.run_mono start

theorem JoinsFind.truncate {tree : QueryTree T K} {seen arrivals : List (SourceElement T)}
    (find : tree.JoinsFind arrivals) (start : seen <+: arrivals) : tree.JoinsFind seen := by
  induction tree with
  | source number => trivial
  | slidingWindow op input => trivial
  | tumblingWindow op input => trivial
  | where_ op input induction => exact induction find
  | map op input induction => exact induction find
  | merge left right leftInduction rightInduction =>
      exact ⟨leftInduction find.1, rightInduction find.2⟩
  | join op joinElements left right leftInduction rightInduction =>
      obtain ⟨first, second, stored⟩ := find
      refine ⟨leftInduction first, rightInduction second, ?_⟩
      intro earlier input inside
      exact stored earlier input (inside.trans (feeds_mono left right start))

theorem publishJoined_replaces (joinElements : T → T → T) :
    Replaces (publishJoined joinElements) fun pair => {joinElements pair.1 pair.2} := by
  constructor
  · intro pair held
    exact leads_insertAll [joinElements pair.1 pair.2] held
  · intro pair held
    exact leads_retractAll [joinElements pair.1 pair.2] held

/-- What a merge publishes leads to the elements of both inputs. -/
theorem published_merge_leads {left right : QueryTree T K} {arrivals : List (SourceElement T)}
    (first : ∀ seen, seen <+: arrivals → Leads 0 (left.published seen) (left.view seen))
    (second : ∀ seen, seen <+: arrivals → Leads 0 (right.published seen) (right.view seen)) :
    Leads 0 ((merge left right).published arrivals)
      (left.view arrivals + right.view arrivals) := by
  induction arrivals using List.reverseRecOn with
  | nil =>
      have noLeft := leads_nil.mp (first [] List.prefix_rfl)
      have noRight := leads_nil.mp (second [] List.prefix_rfl)
      rw [← noLeft, ← noRight]
      exact leads_nil.mpr rfl
  | append_singleton seen arrival induction =>
      have start : seen <+: seen ++ [arrival] := List.prefix_append _ _
      have before := induction (fun earlier inside => first earlier (inside.trans start))
        (fun earlier inside => second earlier (inside.trans start))
      obtain ⟨fromLeft, fromRight, leftIs, rightIs, mergeIs⟩ :=
        published_merge_concat left right seen arrival
      have leftNow := first _ List.prefix_rfl
      have rightNow := second _ List.prefix_rfl
      rw [leftIs] at leftNow
      rw [rightIs] at rightNow
      have leftStep := leftNow.wellFormed.leads_rest
      have rightStep := rightNow.wellFormed.leads_rest
      rw [leftNow.live_eq, (first seen start).live_eq] at leftStep
      rw [rightNow.live_eq, (second seen start).live_eq] at rightStep
      have rightFramed := rightStep.frame (left.view (seen ++ [arrival]))
      rw [add_comm, add_comm (right.view (seen ++ [arrival]))] at rightFramed
      have both := ((leftStep.frame (right.view seen)).append rightFramed).flatMap
        Merge.replaces
      rw [Multiset.bind_singleton, Multiset.bind_singleton, Multiset.map_id',
        Multiset.map_id'] at both
      rw [mergeIs]
      exact before.append both

theorem published_leads {tree : QueryTree T K} {arrivals : List (SourceElement T)}
    (regular : tree.Regular arrivals) (find : tree.JoinsFind arrivals) :
    Leads 0 (tree.published arrivals) (tree.view arrivals) := by
  induction tree generalizing arrivals with
  | source number =>
      rw [published_source]
      exact WellFormed.leads regular
  | slidingWindow op input =>
      rw [published_slidingWindow, input.flatMap_publish regular.1]
      exact SlidingWindow.processNew_leads regular.2
  | tumblingWindow op input =>
      rw [published_tumblingWindow, input.flatMap_publish regular.1]
      exact TumblingWindow.processNew_leads regular.2
  | where_ op input induction =>
      have replaced := (induction regular.2 find).flatMap (Where.replaces regular.1)
      rw [Where.bind_image, Where.bind_image, Multiset.filter_zero] at replaced
      rw [published_where]
      exact replaced
  | map op input induction =>
      have replaced := (induction regular.2 find).flatMap (Map.replaces regular.1)
      rw [Multiset.bind_singleton, Multiset.bind_singleton, Multiset.map_zero] at replaced
      rw [published_map]
      exact replaced
  | merge left right leftInduction rightInduction =>
      apply published_merge_leads
      · intro seen start
        exact leftInduction (regular.1.truncate start) (find.1.truncate start)
      · intro seen start
        exact rightInduction (regular.2.truncate start) (find.2.truncate start)
  | join op joinElements left right leftInduction rightInduction =>
      have leftLeads := leftInduction regular.1 find.1
      have rightLeads := rightInduction regular.2 find.2.1
      have pairs := SHJoin.process_leads op
        ((lefts_feeds arrivals left right).symm ▸ leftLeads.wellFormed)
        ((rights_feeds arrivals left right).symm ▸ rightLeads.wellFormed) find.2.2
      rw [lefts_feeds, rights_feeds, leftLeads.live_eq, rightLeads.live_eq] at pairs
      have replaced := pairs.flatMap (publishJoined_replaces joinElements)
      rw [Multiset.bind_singleton, Multiset.bind_singleton, Multiset.map_zero] at replaced
      rw [published_join]
      exact replaced

/-- The last tuple of source 0, joined with the elements of source 1. -/
def windowJoin : QueryTree Nat Nat :=
  .join ⟨fun _ _ => true, id, id⟩ Nat.pair (.slidingWindow (Window.row 1 none) (.source 0))
    (.source 1)

/-- The tuple 2 arrives on both sides, and then a tuple that it has to leave for. -/
def windowArrivals : List (SourceElement Nat) :=
  [⟨0, ⟨2, false⟩⟩, ⟨1, ⟨2, false⟩⟩, ⟨0, ⟨1, false⟩⟩]

theorem windowJoin_regular : windowJoin.Regular windowArrivals := by
  refine ⟨⟨?_, rfl, ?_, ?_⟩, ?_⟩
  · intro arrival member _
    revert arrival
    decide
  · exact le_refl 1
  · exact .inl (by decide)
  · exact wellFormed_insertAll [2]

theorem windowJoin_find : windowJoin.JoinsFind windowArrivals := by
  refine ⟨trivial, trivial, ?_⟩
  have fed : feeds (T := Nat) (K := Nat) (.slidingWindow (Window.row 1 none) (.source 0)) (.source 1)
      windowArrivals = [.left ⟨2, false⟩, .right ⟨2, false⟩, .left ⟨2, true⟩,
        .left ⟨1, false⟩] := by decide
  have held : NeverTwice 0 (insertAll [2]) := neverTwice_insertAll (by decide)
  rw [fed]
  simp only [Transducer.forall_arrivals_cons]
  refine ⟨?_, ?_, ?_, ?_, Transducer.forall_arrivals_nil _⟩
  · exact fun right _ => rfl
  · exact fun left _ => held.insertedSince_eq_count left
  · exact fun right _ => held.insertedSince_eq_count right
  · exact fun right _ => held.insertedSince_eq_count right

end QueryTree

end PipeFabric
