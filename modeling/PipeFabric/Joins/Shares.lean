import PipeFabric.Joins.Incremental
import PipeFabric.Qop.ScaleJoin

/-!
# The shares of the scale join instances

An instance holds the live elements whose turn was its own, under their keys as
`key_t` has left them, provided that elements are retracted first in, first out
and live elements are distinct.
-/

namespace PipeFabric.ScaleJoin

open ChangeStream JoinInput

variable {L R K : Type}

/-- The live elements with the number of elements inserted before them. -/
def numbered {α : Type} (changes : List (Change α)) : List (α × Nat) :=
  (insertions changes).zipIdx.drop (retractions changes).length

/-- The live elements an instance keeps. -/
def share {α : Type} (mThreadnum mID : Nat) (changes : List (Change α)) :
    List α :=
  ((numbered changes).filter fun entry =>
    keeper mThreadnum entry.2 = some mID).map Prod.fst

theorem numbered_concat_new {α : Type} {changes : List (Change α)}
    (ordered : FirstInFirstOut changes) (data : α) :
    numbered (changes ++ [⟨data, false⟩]) =
      numbered changes ++ [(data, (insertions changes).length)] := by
  have shorter := (ordered changes List.prefix_rfl).length_le
  unfold numbered
  simp only [insertions_append, insertions_cons_new, insertions_nil,
    retractions_append, retractions_cons_new, retractions_nil, List.append_nil]
  rw [List.zipIdx_append, List.drop_append_of_le_length (by simpa using shorter)]
  simp

theorem numbered_concat_outdated {α : Type} {changes : List (Change α)}
    {data : α} (ordered : FirstInFirstOut (changes ++ [⟨data, true⟩])) :
    numbered changes = (data, (retractions changes).length) ::
      numbered (changes ++ [⟨data, true⟩]) := by
  have next := ordered _ List.prefix_rfl
  obtain ⟨rest, split⟩ := next
  simp only [insertions_append, insertions_cons_outdated, insertions_nil,
    retractions_append, retractions_cons_outdated, retractions_nil,
    List.append_nil] at split
  have short : (retractions changes).length < (insertions changes).length := by
    rw [← split]
    simp
  have element : (insertions changes)[(retractions changes).length] = data := by
    simp [← split]
  unfold numbered
  simp only [insertions_append, insertions_cons_outdated, insertions_nil,
    retractions_append, retractions_cons_outdated, retractions_nil,
    List.append_nil, List.length_append, List.length_singleton]
  rw [List.drop_eq_getElem_cons (by simpa using short), List.getElem_zipIdx,
    element, Nat.zero_add]

theorem numbered_map_fst {α : Type} (changes : List (Change α)) :
    (numbered changes).map Prod.fst =
      (insertions changes).drop (retractions changes).length := by
  unfold numbered
  rw [List.map_drop, List.zipIdx_map_fst]

/-- The state of one side after its changes. -/
structure Holds {α : Type} (join : ScaleJoin L R K) (key : α → K)
    (side : Side K α) (changes : List (Change α)) : Prop where
  cntr : side.cntr = roundRobin join.mThreadnum (insertions changes).length
  oCntr : side.oCntr = roundRobin join.mThreadnum (retractions changes).length
  keyed : side.table.Keyed fun element => join.key_t (key element)
  elements : (side.table.elements : Multiset α) =
    share join.mThreadnum join.mID changes

theorem holds_empty {α : Type} (join : ScaleJoin L R K) (key : α → K) :
    Holds join key Side.empty [] :=
  ⟨rfl, rfl, HashTable.keyed_nil _, rfl⟩

theorem share_sublist {α : Type} (mThreadnum mID : Nat)
    (changes : List (Change α)) :
    (share mThreadnum mID changes).Sublist
      ((insertions changes).drop (retractions changes).length) := by
  rw [← numbered_map_fst]
  exact List.Sublist.map _ List.filter_sublist

variable [DecidableEq K]

/-- Storing an element, or removing it, keeps the share. -/
theorem Holds.update {α : Type} [DecidableEq α] {join : ScaleJoin L R K}
    (running : join.mID < join.mThreadnum) {key : α → K} {side : Side K α}
    {changes : List (Change α)} (holds : Holds join key side changes)
    {change : Change α} (ordered : FirstInFirstOut (changes ++ [change]))
    (distinct : (live changes).Nodup) :
    Holds join key
      (side.update join (key change.data) change.data change.outdated)
      (changes ++ [change]) := by
  have before := ordered.truncate (List.prefix_append changes [change])
  obtain ⟨data, outdated⟩ := change
  have positive : 0 < join.mThreadnum := Nat.zero_lt_of_lt running
  cases outdated with
  | false =>
      have turn : side.cntr = join.mID ↔
          keeper join.mThreadnum (insertions changes).length = some join.mID := by
        rw [holds.cntr, keeper_eq_some positive]
        exact ⟨fun equal => ⟨running, equal⟩, And.right⟩
      refine ⟨?_, ?_, ?_, ?_⟩
      · simp [Side.update, holds.cntr, roundRobin]
      · simpa [Side.update] using holds.oCntr
      · simp only [Side.update, Bool.false_eq_true, if_false]
        split
        · exact holds.keyed.updateHashTable data false
        · exact holds.keyed
      · unfold share
        rw [numbered_concat_new before, List.filter_append, List.map_append,
          ← Multiset.coe_add]
        have old := holds.elements
        unfold share at old
        rw [← old]
        simp only [Side.update, Bool.false_eq_true, if_false]
        by_cases mine : side.cntr = join.mID
        · rw [if_pos mine, HashTable.elements_insert]
          simp [turn.mp mine, ← Multiset.cons_coe, Multiset.add_comm]
        · have other : ¬ keeper join.mThreadnum (insertions changes).length =
              some join.mID := fun equal => mine (turn.mpr equal)
          rw [if_neg mine]
          simp [other]
  | true =>
      have turn : side.oCntr = join.mID ↔
          keeper join.mThreadnum (retractions changes).length = some join.mID := by
        rw [holds.oCntr, keeper_eq_some positive]
        exact ⟨fun equal => ⟨running, equal⟩, And.right⟩
      -- the retracted element is the first live one, and live only once
      have first := numbered_concat_outdated ordered
      have gone : data ∉ share join.mThreadnum join.mID
          (changes ++ [⟨data, true⟩]) := by
        intro member
        have later := (share_sublist _ _ _).subset member
        rw [← numbered_map_fst] at later
        rw [before.live_eq, ← numbered_map_fst, first] at distinct
        simp only [List.map_cons, Multiset.coe_nodup, List.nodup_cons] at distinct
        exact distinct.1 later
      refine ⟨?_, ?_, ?_, ?_⟩
      · simpa [Side.update] using holds.cntr
      · simp [Side.update, holds.oCntr, roundRobin]
      · simp only [Side.update, if_true]
        split
        · exact holds.keyed.updateHashTable data true
        · exact holds.keyed
      · have old := holds.elements
        have part : share join.mThreadnum join.mID changes =
            (if keeper join.mThreadnum (retractions changes).length =
                some join.mID then [data] else []) ++
              share join.mThreadnum join.mID (changes ++ [⟨data, true⟩]) := by
          unfold share
          rw [first, List.filter_cons]
          by_cases mine : keeper join.mThreadnum (retractions changes).length =
            some join.mID <;> simp [mine]
        rw [part] at old
        simp only [Side.update, if_true]
        by_cases mine : side.oCntr = join.mID
        · have removed := holds.keyed.elements_remove data
          rw [if_pos mine, removed, ← Multiset.filter_coe, old,
            if_pos (turn.mp mine), Multiset.filter_coe]
          congr 1
          rw [List.singleton_append, List.filter_cons, if_neg (by simp),
            List.filter_eq_self]
          intro element member
          simp only [ne_eq, decide_eq_true_eq]
          exact fun same => gone (same ▸ member)
        · have other := fun equal => mine (turn.mpr equal)
          rw [if_neg mine, old, if_neg other, List.nil_append]

variable [DecidableEq L] [DecidableEq R]

/-- Both sides of an instance hold their shares. -/
theorem process_holds (join : ScaleJoin L R K)
    (running : join.mID < join.mThreadnum) {seen : List (JoinInput L R)}
    (leftOrderly : Orderly (lefts seen)) (rightOrderly : Orderly (rights seen)) :
    Holds join join.mLKeyExtractor (process join seen).1.left (lefts seen) ∧
      Holds join join.mRKeyExtractor (process join seen).1.right
        (rights seen) := by
  induction seen using List.reverseRecOn with
  | nil => exact ⟨holds_empty join _, holds_empty join _⟩
  | append_singleton seen input induction =>
      rw [lefts_append] at leftOrderly
      rw [rights_append] at rightOrderly
      obtain ⟨left, right⟩ := induction
        (leftOrderly.truncate (List.prefix_append _ _))
        (rightOrderly.truncate (List.prefix_append _ _))
      rw [process_concat, lefts_append, rights_append]
      cases input with
      | left change =>
          rw [lefts_left] at leftOrderly ⊢
          rw [rights_left, List.append_nil]
          exact ⟨left.update running leftOrderly.ordered
            (leftOrderly.distinct _ (List.prefix_append _ _)), right⟩
      | right change =>
          rw [rights_right] at rightOrderly ⊢
          rw [lefts_right, List.append_nil]
          exact ⟨left, right.update running rightOrderly.ordered
            (rightOrderly.distinct _ (List.prefix_append _ _))⟩

end PipeFabric.ScaleJoin
