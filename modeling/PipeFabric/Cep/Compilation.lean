import PipeFabric.Cep.ConstructNFA
import PipeFabric.Cep.PatternLanguage
import Mathlib.Data.List.Nodup

/-!
# The automaton of a pattern expression

`operator>>` puts the transition between the states that its operands return, and the
other two operators leave no transition at all.  So the automaton means what the
expression means only for plain sequences of single states.
-/

namespace PipeFabric

namespace CEP

open LabelledWalk (Walks walks_concat)
open Pattern (letters letters_intermediate letters_stop)

/-! ### Where transitions lead -/

namespace Pattern

theorem returned_mem (pattern : Pattern) : pattern.returned ∈ pattern.ids := by
  induction pattern with
  | state id => exact List.mem_cons_self
  | seq _ _ _ right => exact List.mem_append_right _ right
  | or _ _ left _ => exact List.mem_append_left _ left
  | not _ induction => exact induction

theorem edges_mem (pattern : Pattern) :
    ∀ edge ∈ pattern.edges, edge.1 ∈ pattern.ids ∧ edge.2 ∈ pattern.ids := by
  induction pattern with
  | state id => exact fun _ member => absurd member List.not_mem_nil
  | seq first second left right =>
      intro edge member
      simp only [edges, List.mem_append, List.mem_singleton] at member
      rcases member with (member | member) | rfl
      · exact ⟨List.mem_append_right _ (right edge member).1,
          List.mem_append_right _ (right edge member).2⟩
      · exact ⟨List.mem_append_left _ (left edge member).1,
          List.mem_append_left _ (left edge member).2⟩
      · exact ⟨List.mem_append_left _ first.returned_mem,
          List.mem_append_right _ second.returned_mem⟩
  | or first second left right =>
      intro edge member
      rcases List.mem_append.mp member with inside | inside
      · exact ⟨List.mem_append_left _ (left edge inside).1,
          List.mem_append_left _ (left edge inside).2⟩
      · exact ⟨List.mem_append_right _ (right edge inside).1,
          List.mem_append_right _ (right edge inside).2⟩
  | not _ induction => exact induction

/-- The transitions of the dead alternatives do not touch the state of a plain
pattern. -/
theorem plain_edges (pattern : Pattern) (plain : pattern.plain = true)
    (distinct : pattern.ids.Nodup) :
    ∀ edge ∈ pattern.edges, edge.1 ≠ pattern.returned ∧ edge.2 ≠ pattern.returned := by
  induction pattern with
  | state id => exact fun _ member => absurd member List.not_mem_nil
  | seq _ _ _ _ => cases plain
  | or first second left _ =>
      obtain ⟨one, _⟩ := Bool.and_eq_true_iff.mp plain
      obtain ⟨own, _, apart⟩ := List.nodup_append'.mp distinct
      intro edge member
      rcases List.mem_append.mp member with inside | inside
      · exact left one own edge inside
      · obtain ⟨source, target⟩ := second.edges_mem edge inside
        constructor
        · intro same
          exact apart (same ▸ first.returned_mem) source
        · intro same
          exact apart (same ▸ first.returned_mem) target
  | not _ _ => cases plain

theorem leaves_subset (pattern : Pattern) : pattern.leaves.Sublist pattern.ids := by
  induction pattern with
  | state id => exact .refl _
  | seq _ _ left right => exact left.append right
  | or first second left right =>
      apply List.Sublist.append
      · cases first.dead with
        | true => exact List.nil_sublist _
        | false => exact left
      · cases second.dead with
        | true => exact List.nil_sublist _
        | false => exact right
  | not pattern _ => exact List.nil_sublist _

/-- A pattern that can match something and has no negation has a first state. -/
theorem exists_first (pattern : Pattern) (live : pattern.dead = false)
    (free : pattern.negationFree = true) : ∃ first rest, pattern.leaves = first :: rest := by
  induction pattern with
  | state id => exact ⟨id, [], rfl⟩
  | seq first second left _ =>
      obtain ⟨id, rest, same⟩ := left (Bool.or_eq_false_iff.mp live).1
        (Bool.and_eq_true_iff.mp free).1
      exact ⟨id, rest ++ second.leaves, by rw [leaves, same, List.cons_append]⟩
  | or first second left right =>
      obtain ⟨one, two⟩ := Bool.and_eq_true_iff.mp free
      cases early : first.dead with
      | false =>
          rw [early, Bool.false_or] at one
          obtain ⟨id, rest, same⟩ := left early one
          refine ⟨id, rest ++ (if second.dead then [] else second.leaves), ?_⟩
          rw [leaves, early, if_neg Bool.false_ne_true, same, List.cons_append]
      | true =>
          have late : second.dead = false := by
            rw [dead, early, Bool.true_and] at live
            exact live
          rw [late, Bool.false_or] at two
          obtain ⟨id, rest, same⟩ := right late two
          refine ⟨id, rest, ?_⟩
          rw [leaves, early, late, if_pos rfl, if_neg Bool.false_ne_true, same,
            List.nil_append]
  | not _ _ => cases free

/-- The leaves of a live alternative come first when it is the first one. -/
theorem leaves_or (first second : Pattern) (live : first.dead = false) :
    (Pattern.or first second).leaves =
      first.leaves ++ (if second.dead then [] else second.leaves) := by
  rw [leaves, live, if_neg Bool.false_ne_true]

/-- After a dead alternative only the other one has leaves. -/
theorem leaves_or_of_dead (first second : Pattern) (gone : first.dead = true)
    (live : second.dead = false) : (Pattern.or first second).leaves = second.leaves := by
  rw [leaves, gone, live, if_pos rfl, if_neg Bool.false_ne_true, List.nil_append]

theorem leaf_mem_ids {pattern : Pattern} {id : Nat} {rest : List Nat}
    (begins : pattern.leaves = id :: rest) : id ∈ pattern.ids := by
  apply pattern.leaves_subset.subset
  rw [begins]
  exact List.mem_cons_self

/-- No transition of a pattern leads to its first state. -/
theorem first_not_target (pattern : Pattern) (live : pattern.dead = false)
    (free : pattern.negationFree = true) (distinct : pattern.ids.Nodup) {id : Nat}
    {rest : List Nat} (begins : pattern.leaves = id :: rest) :
    ∀ edge ∈ pattern.edges, edge.2 ≠ id := by
  induction pattern generalizing id rest with
  | state other => exact fun _ member => absurd member List.not_mem_nil
  | seq first second left _ =>
      obtain ⟨own, _, apart⟩ := List.nodup_append'.mp distinct
      obtain ⟨alive, _⟩ := Bool.or_eq_false_iff.mp live
      obtain ⟨one, _⟩ := Bool.and_eq_true_iff.mp free
      obtain ⟨head, tail, same⟩ := first.exists_first alive one
      have heads : head = id := by
        rw [leaves, same, List.cons_append] at begins
        exact (List.cons.inj begins).1
      subst heads
      have inside : head ∈ first.ids := leaf_mem_ids same
      intro edge member
      simp only [edges, List.mem_append, List.mem_singleton] at member
      rcases member with (member | member) | rfl
      · intro hit
        exact apart (hit ▸ inside) (second.edges_mem edge member).2
      · exact left alive one own same edge member
      · intro hit
        have returned : second.returned = head := hit
        exact apart inside (returned ▸ second.returned_mem)
  | or first second left right =>
      obtain ⟨own, other, apart⟩ := List.nodup_append'.mp distinct
      obtain ⟨one, two⟩ := Bool.and_eq_true_iff.mp free
      cases early : first.dead with
      | false =>
          rw [early, Bool.false_or] at one
          obtain ⟨head, tail, same⟩ := first.exists_first early one
          have heads : head = id := by
            rw [leaves_or first second early, same, List.cons_append] at begins
            exact (List.cons.inj begins).1
          subst heads
          intro edge member
          rcases List.mem_append.mp member with inside | inside
          · exact left early one own same edge inside
          · intro hit
            exact apart (hit ▸ leaf_mem_ids same) (second.edges_mem edge inside).2
      | true =>
          have late : second.dead = false := by
            rw [dead, early, Bool.true_and] at live
            exact live
          rw [late, Bool.false_or] at two
          rw [leaves_or_of_dead first second early late] at begins
          intro edge member
          rcases List.mem_append.mp member with inside | inside
          · intro hit
            exact apart (first.edges_mem edge inside).2 (hit ▸ leaf_mem_ids begins)
          · exact right late two other begins edge inside
  | not _ _ => cases free

/-- A pattern whose other states are all led to and whose first state is returned is
plain. -/
theorem plain_of_targets (pattern : Pattern) (live : pattern.dead = false)
    (free : pattern.negationFree = true) (distinct : pattern.ids.Nodup) {rest : List Nat}
    (begins : pattern.leaves = pattern.returned :: rest)
    (covered : ∀ id ∈ rest, ∃ edge ∈ pattern.edges, edge.2 = id) :
    pattern.plain = true := by
  induction pattern generalizing rest with
  | state id => rfl
  | seq first second _ _ =>
      -- the first state is one of the left operand, the returned one of the right one
      obtain ⟨_, _, apart⟩ := List.nodup_append'.mp distinct
      obtain ⟨head, tail, same⟩ := first.exists_first (Bool.or_eq_false_iff.mp live).1
        (Bool.and_eq_true_iff.mp free).1
      have heads : head = second.returned := by
        rw [leaves, same, List.cons_append] at begins
        exact (List.cons.inj begins).1
      exact absurd second.returned_mem (apart (heads ▸ leaf_mem_ids same))
  | or first second left _ =>
      obtain ⟨own, other, apart⟩ := List.nodup_append'.mp distinct
      obtain ⟨one, two⟩ := Bool.and_eq_true_iff.mp free
      cases early : first.dead with
      | true =>
          have late : second.dead = false := by
            rw [dead, early, Bool.true_and] at live
            exact live
          rw [leaves_or_of_dead first second early late] at begins
          exact absurd (leaf_mem_ids begins) (apart first.returned_mem)
      | false =>
          rw [early, Bool.false_or] at one
          obtain ⟨head, tail, same⟩ := first.exists_first early one
          rw [leaves_or first second early, same, List.cons_append] at begins
          obtain ⟨heads, tails⟩ := List.cons.inj begins
          have gone : second.dead = true := by
            by_contra alive
            rw [Bool.not_eq_true] at alive
            rw [alive, Bool.false_or] at two
            obtain ⟨id, more, begun⟩ := second.exists_first alive two
            have listed : id ∈ rest := by
              rw [← tails, alive, if_neg Bool.false_ne_true, begun]
              exact List.mem_append_right _ List.mem_cons_self
            obtain ⟨edge, member, hit⟩ := covered id listed
            rcases List.mem_append.mp member with inside | inside
            · exact apart (first.edges_mem edge inside).2 (hit ▸ leaf_mem_ids begun)
            · exact second.first_not_target alive two other begun edge inside hit
          rw [gone, if_pos rfl, List.append_nil] at tails
          subst tails
          apply Bool.and_eq_true_iff.mpr ⟨left early one own (heads ▸ same) ?_, gone⟩
          intro id member
          obtain ⟨edge, listed, hit⟩ := covered id member
          have mine : id ∈ first.ids := by
            apply first.leaves_subset.subset
            rw [same]
            exact List.mem_cons_of_mem _ member
          rcases List.mem_append.mp listed with inside | inside
          · exact ⟨edge, inside, hit⟩
          · exact absurd (second.edges_mem edge inside).2 (apart (hit ▸ mine))
  | not _ _ => cases free

end Pattern

namespace Opening

/-- The operands are single states. -/
def plain : Opening → Bool
  | .start => true
  | .seq opening pattern => opening.plain && pattern.plain

/-- The states that the sequence operators return one after the other. -/
def spine : Opening → List Nat
  | .start => [0]
  | .seq opening pattern => opening.spine ++ [pattern.returned]

/-- The operands. -/
def patterns : Opening → List Pattern
  | .start => []
  | .seq opening pattern => opening.patterns ++ [pattern]

theorem start_mem_spine (opening : Opening) : 0 ∈ opening.spine := by
  induction opening with
  | start => exact List.mem_cons_self
  | seq _ _ induction => exact List.mem_append_left _ induction

theorem returned_mem (opening : Opening) : opening.returned ∈ 0 :: opening.ids := by
  cases opening with
  | start => exact List.mem_cons_self
  | seq opening pattern =>
      exact List.mem_cons_of_mem _ (List.mem_append_right _ pattern.returned_mem)

theorem spine_subset (opening : Opening) : opening.spine ⊆ 0 :: opening.ids := by
  induction opening with
  | start => exact List.Subset.refl _
  | seq opening pattern induction =>
      intro id member
      rcases List.mem_append.mp member with early | late
      · rcases List.mem_cons.mp (induction early) with rfl | inside
        · exact List.mem_cons_self
        · exact List.mem_cons_of_mem _ (List.mem_append_left _ inside)
      · rw [List.mem_singleton.mp late]
        exact (Opening.seq opening pattern).returned_mem

theorem edges_mem (opening : Opening) :
    ∀ edge ∈ opening.edges, edge.1 ∈ 0 :: opening.ids ∧ edge.2 ∈ opening.ids := by
  induction opening with
  | start => exact fun _ member => absurd member List.not_mem_nil
  | seq opening pattern induction =>
      have grows : 0 :: opening.ids ⊆ 0 :: (opening.ids ++ pattern.ids) :=
        List.cons_subset_cons 0 (List.subset_append_left _ _)
      intro edge member
      simp only [edges, List.mem_append, List.mem_singleton] at member
      rcases member with (member | member) | rfl
      · obtain ⟨source, target⟩ := pattern.edges_mem edge member
        exact ⟨List.mem_cons_of_mem _ (List.mem_append_right _ source),
          List.mem_append_right _ target⟩
      · obtain ⟨source, target⟩ := induction edge member
        exact ⟨grows source, List.mem_append_left _ target⟩
      · exact ⟨grows opening.returned_mem, List.mem_append_right _ pattern.returned_mem⟩

theorem ids_of_operand (opening : Opening) {pattern : Pattern}
    (operand : pattern ∈ opening.patterns) {id : Nat} (member : id ∈ pattern.ids) :
    id ∈ opening.ids := by
  induction opening with
  | start => cases operand
  | seq opening last induction =>
      rcases List.mem_append.mp operand with early | late
      · exact List.mem_append_left _ (induction early)
      · exact List.mem_append_right _ (List.mem_singleton.mp late ▸ member)

/-- The numbers of the intermediate states are those of a new expression. -/
structure Numbered (opening : Opening) : Prop where
  distinct : opening.ids.Nodup
  positive : ∀ id ∈ opening.ids, 0 < id

section

variable {opening : Opening} {pattern : Pattern}

theorem Numbered.before (numbered : (Opening.seq opening pattern).Numbered) :
    opening.Numbered where
  distinct := (List.nodup_append'.mp numbered.distinct).1
  positive id member := numbered.positive id (List.mem_append_left _ member)

theorem Numbered.operand (numbered : (Opening.seq opening pattern).Numbered) :
    pattern.ids.Nodup :=
  (List.nodup_append'.mp numbered.distinct).2.1

/-- The last operand has its states for itself. -/
theorem Numbered.apart (numbered : (Opening.seq opening pattern).Numbered) {id : Nat}
    (early : id ∈ 0 :: opening.ids) : id ∉ pattern.ids := by
  intro late
  rcases List.mem_cons.mp early with rfl | inside
  · exact absurd (numbered.positive 0 (List.mem_append_right _ late)) (Nat.lt_irrefl 0)
  · exact (List.nodup_append'.mp numbered.distinct).2.2 inside late

end

/-- Every state on the spine but the last one has a transition. -/
theorem spine_sources (opening : Opening) :
    ∀ id ∈ opening.spine, id = opening.returned ∨ ∃ edge ∈ opening.edges, edge.1 = id := by
  induction opening with
  | start => exact fun id member => .inl (List.mem_singleton.mp member)
  | seq opening pattern induction =>
      intro id member
      rcases List.mem_append.mp member with early | late
      · right
        rcases induction id early with rfl | ⟨edge, listed, source⟩
        · exact ⟨_, List.mem_append_right _ List.mem_cons_self, rfl⟩
        · exact ⟨edge, List.mem_append_left _ (List.mem_append_right _ listed), source⟩
      · exact .inl (List.mem_singleton.mp late)

/-- Transitions do not leave the spine. -/
theorem spine_closed (opening : Opening) (plain : opening.plain = true)
    (numbered : opening.Numbered) :
    ∀ edge ∈ opening.edges, edge.1 ∈ opening.spine → edge.2 ∈ opening.spine := by
  induction opening with
  | start => exact fun _ member => absurd member List.not_mem_nil
  | seq opening pattern induction =>
      obtain ⟨before, single⟩ := Bool.and_eq_true_iff.mp plain
      intro edge member source
      simp only [edges, List.mem_append, List.mem_singleton] at member
      rcases member with (member | member) | rfl
      · obtain ⟨mine, _⟩ := pattern.edges_mem edge member
        rcases List.mem_append.mp source with early | late
        · exact absurd mine (numbered.apart (opening.spine_subset early))
        · exact absurd (List.mem_singleton.mp late)
            (pattern.plain_edges single numbered.operand edge member).1
      · obtain ⟨mine, _⟩ := opening.edges_mem edge member
        rcases List.mem_append.mp source with early | late
        · exact List.mem_append_left _ (induction before numbered.before edge member early)
        · rw [List.mem_singleton.mp late] at mine
          exact absurd pattern.returned_mem (numbered.apart mine)
      · exact List.mem_append_right _ List.mem_cons_self

section

variable {Event Related : Type} (predicates : Predicates Event Related)

/-- Each state of the spine is led to from the one before it only. -/
theorem walks_iff (opening : Opening) (plain : opening.plain = true)
    (numbered : opening.Numbered) {table : List (Nat × Nat)}
    (contained : ∀ edge ∈ opening.edges, edge ∈ table)
    (owned : ∀ edge ∈ table, edge.2 ∈ opening.spine → edge ∈ opening.edges)
    (intermediate : 1000 ∉ opening.spine) (events : List Event) :
    Walks (Transition predicates table) 0 events opening.returned ↔
      opening.Matches predicates events := by
  induction opening generalizing events with
  | start =>
      constructor
      · intro walks
        apply walks.eq_nil_of_no_step
        rintro before event ⟨member, _⟩
        exact absurd (owned _ member List.mem_cons_self) List.not_mem_nil
      · intro empty
        rw [show events = [] from empty]
        rfl
  | seq opening pattern induction =>
      obtain ⟨before, single⟩ := Bool.and_eq_true_iff.mp plain
      have earlier : ∀ events, Walks (Transition predicates table) 0 events opening.returned ↔
          opening.Matches predicates events := by
        apply induction before numbered.before
        · intro edge member
          exact contained edge (List.mem_append_left _ (List.mem_append_right _ member))
        · intro edge member target
          have inside := owned edge member (List.mem_append_left _ target)
          have free := numbered.apart (opening.spine_subset target)
          simp only [edges, List.mem_append, List.mem_singleton] at inside
          rcases inside with (inside | inside) | rfl
          · exact absurd (pattern.edges_mem edge inside).2 free
          · exact inside
          · exact absurd pattern.returned_mem free
        · exact fun member => intermediate (List.mem_append_left _ member)
      have only : ∀ source, (source, pattern.returned) ∈ table ↔ source = opening.returned := by
        intro source
        constructor
        · intro member
          have inside := owned _ member (List.mem_append_right _ List.mem_cons_self)
          simp only [edges, List.mem_append, List.mem_singleton] at inside
          rcases inside with (inside | inside) | same
          · exact absurd rfl (pattern.plain_edges single numbered.operand _ inside).2
          · exact absurd pattern.returned_mem
              (numbered.apart (List.mem_cons_of_mem _ (opening.edges_mem _ inside).2))
          · exact congrArg Prod.fst same
        · rintro rfl
          exact contained _ (List.mem_append_right _ List.mem_cons_self)
      have reads : ∀ event, Reads predicates pattern.returned event ↔
          predicates.intermediate pattern.returned event none = true := by
        intro event
        rw [Reads, if_neg]
        intro same
        exact intermediate (same ▸ List.mem_append_right _ List.mem_cons_self)
      have last : ∀ source event, Transition predicates table source event pattern.returned ↔
          source = opening.returned ∧
            predicates.intermediate pattern.returned event none = true :=
        fun source event => and_congr (only source) (reads event)
      rcases List.eq_nil_or_concat' events with rfl | ⟨shorter, event, rfl⟩
      · constructor
        · intro stays
          have zero : (0 : Nat) = pattern.returned := stays
          exact absurd (zero ▸ pattern.returned_mem) (numbered.apart List.mem_cons_self)
        · rintro ⟨left, right, split, _, matched⟩
          obtain ⟨event, rfl, _⟩ := (pattern.matches_plain_iff single right).mp matched
          exact absurd split.symm (by simp)
      · rw [returned, walks_concat, Matches]
        constructor
        · rintro ⟨middle, walks, taken⟩
          obtain ⟨rfl, holds⟩ := (last middle event).mp taken
          exact ⟨shorter, [event], rfl, (earlier shorter).mp walks,
            (pattern.matches_plain_iff single _).mpr ⟨event, rfl, holds⟩⟩
        · rintro ⟨left, right, split, start, matched⟩
          obtain ⟨other, rfl, holds⟩ := (pattern.matches_plain_iff single right).mp matched
          obtain ⟨rfl, same⟩ := List.append_inj' split rfl
          obtain rfl := List.head_eq_of_cons_eq same
          exact ⟨opening.returned, (earlier shorter).mpr start,
            (last _ event).mpr ⟨rfl, holds⟩⟩

end

end Opening

namespace Closing

/-- The operands before the end state. -/
def patterns : Closing → List Pattern
  | .stop => []
  | .seq pattern closing => pattern :: closing.patterns

theorem ids_of_operand (closing : Closing) {pattern : Pattern}
    (operand : pattern ∈ closing.patterns) {id : Nat} (member : id ∈ pattern.ids) :
    id ∈ closing.ids := by
  induction closing with
  | stop => cases operand
  | seq first closing induction =>
      rcases List.mem_cons.mp operand with rfl | late
      · exact List.mem_append_left _ member
      · exact List.mem_append_right _ (induction late)

theorem edges_mem (closing : Closing) :
    ∀ edge ∈ closing.edges, edge.2 ∈ closing.ids ∨ edge.2 = 1000 := by
  induction closing with
  | stop => exact fun _ member => absurd member List.not_mem_nil
  | seq pattern closing induction =>
      intro edge member
      simp only [edges, List.mem_append, List.mem_singleton] at member
      rcases member with (member | member) | rfl
      · exact (induction edge member).imp_left (List.mem_append_right _)
      · exact .inl (List.mem_append_left _ (pattern.edges_mem edge member).2)
      · exact .inr rfl

end Closing

/-! ### Every operand takes part -/

section

variable {Event Related : Type} {predicates : Predicates Event Related}

theorem Opening.exists_of_matches (opening : Opening) {events : List Event}
    (matched : opening.Matches predicates events) :
    ∀ pattern ∈ opening.patterns, ∃ part, pattern.Matches predicates part := by
  induction opening generalizing events with
  | start => exact fun _ member => absurd member List.not_mem_nil
  | seq opening last induction =>
      obtain ⟨left, right, _, one, two⟩ := matched
      intro pattern member
      rcases List.mem_append.mp member with early | late
      · exact induction one pattern early
      · rw [List.mem_singleton.mp late]
        exact ⟨right, two⟩

theorem Closing.exists_of_matches (closing : Closing) {events : List Event}
    (matched : closing.Matches predicates events) :
    ∀ pattern ∈ closing.patterns, ∃ part, pattern.Matches predicates part := by
  induction closing generalizing events with
  | stop => exact fun _ member => absurd member List.not_mem_nil
  | seq first closing induction =>
      obtain ⟨left, right, _, one, two⟩ := matched
      intro pattern member
      rcases List.mem_cons.mp member with rfl | late
      · exact ⟨left, one⟩
      · exact induction two pattern late

/-- Where an opening can be matched, any match of an operand is part of one. -/
theorem Opening.extend (opening : Opening) {events : List Event}
    (matched : opening.Matches predicates events) {pattern : Pattern}
    (operand : pattern ∈ opening.patterns) {part : List Event}
    (holds : pattern.Matches predicates part) :
    ∃ whole, opening.Matches predicates whole ∧ part ⊆ whole := by
  induction opening generalizing events with
  | start => cases operand
  | seq opening last induction =>
      obtain ⟨left, right, _, one, two⟩ := matched
      rcases List.mem_append.mp operand with early | late
      · obtain ⟨whole, before, inside⟩ := induction one early
        exact ⟨whole ++ right, ⟨whole, right, rfl, before, two⟩,
          List.subset_append_of_subset_left _ inside⟩
      · obtain rfl := List.mem_singleton.mp late
        exact ⟨left ++ part, ⟨left, part, rfl, one, holds⟩, List.subset_append_right _ _⟩

/-- Where a closing can be matched, any match of an operand is part of one. -/
theorem Closing.extend (closing : Closing) {events : List Event}
    (matched : closing.Matches predicates events) {pattern : Pattern}
    (operand : pattern ∈ closing.patterns) {part : List Event}
    (holds : pattern.Matches predicates part) :
    ∃ whole, closing.Matches predicates whole ∧ part ⊆ whole := by
  induction closing generalizing events with
  | stop => cases operand
  | seq first closing induction =>
      obtain ⟨left, right, _, one, two⟩ := matched
      rcases List.mem_cons.mp operand with rfl | late
      · exact ⟨part ++ right, ⟨part, right, rfl, holds, two⟩, List.subset_append_left _ _⟩
      · obtain ⟨whole, after, inside⟩ := induction two late
        exact ⟨left ++ whole, ⟨left, whole, rfl, one, after⟩,
          List.subset_append_of_subset_right _ inside⟩

end

/-- There is a walk along the states that the sequence operators return. -/
theorem Opening.exists_walk (opening : Opening) {table : List (Nat × Nat)}
    (contained : ∀ edge ∈ opening.edges, edge ∈ table) :
    ∃ events : List (Option Nat),
      Walks (Transition letters table) 0 events opening.returned := by
  induction opening with
  | start => exact ⟨[], rfl⟩
  | seq opening pattern induction =>
      obtain ⟨events, walks⟩ := induction fun edge member =>
        contained edge (List.mem_append_left _ (List.mem_append_right _ member))
      have taken := contained (opening.returned, pattern.returned)
        (List.mem_append_right _ List.mem_cons_self)
      by_cases final : pattern.returned = 1000
      · refine ⟨events ++ [some 0], walks_concat.mpr ⟨_, walks, taken, ?_⟩⟩
        rw [Reads, returned, if_pos final]
        rfl
      · refine ⟨events ++ [some pattern.returned], walks_concat.mpr ⟨_, walks, taken, ?_⟩⟩
        rw [Reads, returned, if_neg final]
        exact decide_eq_true rfl

theorem reads_letters {id : Nat} {event : Option Nat} (reads : Reads letters id event) :
    (id = 1000 ∧ event = some 0) ∨ (id ≠ 1000 ∧ event = some id) := by
  by_cases final : id = 1000
  · rw [Reads, if_pos final] at reads
    exact .inl ⟨final, (letters_stop event).mp reads⟩
  · rw [Reads, if_neg final] at reads
    exact .inr ⟨final, (letters_intermediate id event).mp reads⟩

/-- What an operand has to be like for the automaton to meet its matches: it has no
negation, and each of its states is an intermediate one that a transition leads to. -/
structure Covered (table : List (Nat × Nat)) (pattern : Pattern) : Prop where
  live : pattern.dead = false
  free : pattern.negationFree = true
  reached : ∀ id ∈ pattern.leaves, id ≠ 1000 ∧ ∃ edge ∈ table, edge.2 = id

/-- Every operand is covered when the automaton accepts the matches. -/
theorem Pattern.covered (pattern : Pattern) {table : List (Nat × Nat)} {part : List (Option Nat)}
    (holds : pattern.Matches letters part) (positive : ∀ id ∈ pattern.ids, 0 < id)
    (accepted : ∀ part, pattern.Matches letters part →
      ∃ whole, Walks (Transition letters table) 0 whole 1000 ∧ part ⊆ whole) :
    Covered table pattern := by
  have live : pattern.dead = false := by
    by_contra dead
    exact pattern.not_matches_of_dead (by simpa using dead) part holds
  refine ⟨live, ?_, ?_⟩
  · by_contra negation
    obtain ⟨blank, matched, blanks⟩ := pattern.exists_matches_blank live (by simpa using negation)
    obtain ⟨whole, walks, inside⟩ := accepted blank matched
    obtain ⟨_, after, _, reads⟩ := walks.read (inside blanks)
    rcases reads_letters reads with ⟨_, same⟩ | ⟨_, same⟩ <;> cases same
  · intro id leaf
    obtain ⟨events, matched, met⟩ := pattern.exists_matches_leaf live leaf
    obtain ⟨whole, walks, inside⟩ := accepted events matched
    obtain ⟨before, after, member, reads⟩ := walks.read (inside met)
    rcases reads_letters reads with ⟨_, same⟩ | ⟨other, same⟩
    · obtain rfl := Option.some.inj same
      exact absurd (positive 0 (pattern.leaves_subset.subset leaf)) (Nat.lt_irrefl 0)
    · obtain rfl := Option.some.inj same
      exact ⟨other, (before, id), member, rfl⟩

/-- An opening whose operands are covered by its own transitions is plain. -/
theorem Opening.plain_of_covered (opening : Opening) (numbered : opening.Numbered)
    (covered : ∀ pattern ∈ opening.patterns, Covered opening.edges pattern) :
    opening.plain = true := by
  induction opening with
  | start => rfl
  | seq opening pattern induction =>
      apply Bool.and_eq_true_iff.mpr
      constructor
      · apply induction numbered.before
        intro other member
        obtain ⟨live, free, reached⟩ := covered other (List.mem_append_left _ member)
        refine ⟨live, free, ?_⟩
        intro id leaf
        obtain ⟨intermediate, edge, listed, rfl⟩ := reached id leaf
        have mine := numbered.apart (List.mem_cons_of_mem _
          (opening.ids_of_operand member (other.leaves_subset.subset leaf)))
        simp only [edges, List.mem_append, List.mem_singleton] at listed
        rcases listed with (listed | listed) | rfl
        · exact absurd (pattern.edges_mem edge listed).2 mine
        · exact ⟨intermediate, edge, listed, rfl⟩
        · exact absurd pattern.returned_mem mine
      · obtain ⟨live, free, reached⟩ := covered pattern
          (List.mem_append_right _ List.mem_cons_self)
        -- into the last operand leads only the transition to the state it returns
        have inner : ∀ id ∈ pattern.leaves,
            (∃ edge ∈ pattern.edges, edge.2 = id) ∨ id = pattern.returned := by
          intro id leaf
          obtain ⟨_, edge, listed, rfl⟩ := reached id leaf
          simp only [edges, List.mem_append, List.mem_singleton] at listed
          rcases listed with (listed | listed) | rfl
          · exact .inl ⟨edge, listed, rfl⟩
          · exact absurd (pattern.leaves_subset.subset leaf)
              (numbered.apart (List.mem_cons_of_mem _ (opening.edges_mem edge listed).2))
          · exact .inr rfl
        obtain ⟨id, rest, begins⟩ := pattern.exists_first live free
        have first : id = pattern.returned := by
          rcases inner id (begins ▸ List.mem_cons_self) with ⟨edge, listed, target⟩ | same
          · exact absurd target
              (pattern.first_not_target live free numbered.operand begins edge listed)
          · exact same
        subst first
        apply pattern.plain_of_targets live free numbered.operand begins
        intro id member
        rcases inner id (begins ▸ List.mem_cons_of_mem _ member) with inside | rfl
        · exact inside
        · have once := pattern.leaves_subset.nodup numbered.operand
          rw [begins] at once
          exact absurd member (List.nodup_cons.mp once).1

namespace Expression

/-- A sequence of single states up to the end state without any parentheses, in which
nothing follows the state with number 1000. -/
structure Straight (expression : Expression) : Prop where
  single : expression.opening.plain = true
  unnested : expression.closing = .stop
  unfinished : ∀ edge ∈ expression.edges, edge.1 ≠ 1000

/-- Whatever the predicates are, `constructNFA` makes an automaton that accepts what the
expression matches. -/
def CompiledFaithfully (expression : Expression) : Prop :=
  ∀ (Event Related : Type) (predicates : Predicates Event Related),
    ∃ nfa, constructNFA (expression.build predicates) = some nfa ∧
      ∀ events, Accepts nfa events ↔ expression.Matches predicates events

variable {expression : Expression}

theorem numbered (expression : Expression) : expression.opening.Numbered where
  distinct := (List.nodup_append'.mp expression.distinct).1
  positive id member := expression.positive id (List.mem_append_left _ member)

/-- A transition to an intermediate state of the opening belongs to the opening. -/
theorem opening_edge (expression : Expression) {edge : Nat × Nat}
    (member : edge ∈ expression.edges) (mine : edge.2 ∈ expression.opening.ids)
    (intermediate : edge.2 ≠ 1000) : edge ∈ expression.opening.edges := by
  simp only [edges, List.mem_append, List.mem_singleton] at member
  rcases member with (member | member) | rfl
  · rcases expression.closing.edges_mem edge member with other | final
    · exact absurd other ((List.nodup_append'.mp expression.distinct).2.2 mine)
    · exact absurd final intermediate
  · exact member
  · exact absurd rfl intermediate

theorem Straight.edges_eq (straight : expression.Straight) :
    expression.edges = expression.opening.edges ++ [(expression.opening.returned, 1000)] := by
  rw [edges, straight.unnested]
  rfl

/-- The end state is not one of the states before it. -/
theorem Straight.intermediate (straight : expression.Straight) :
    1000 ∉ expression.opening.spine := by
  have leaves := straight.unfinished
  rw [straight.edges_eq] at leaves
  intro member
  rcases expression.opening.spine_sources 1000 member with same | ⟨edge, listed, source⟩
  · exact leaves _ (List.mem_append_right _ List.mem_cons_self) same.symm
  · exact leaves edge (List.mem_append_left _ listed) source

/-- The end state is led to from the last state before it only. -/
theorem Straight.last (straight : expression.Straight) {Event Related : Type}
    {predicates : Predicates Event Related} {events : List Event} {middle : Nat}
    (walks : Walks (Transition predicates expression.edges) 0 events middle)
    (ends : (middle, 1000) ∈ expression.edges) : middle = expression.opening.returned := by
  have closed := expression.opening.spine_closed straight.single expression.numbered
  have within : middle ∈ expression.opening.spine ∨ middle = 1000 := by
    apply walks.closed fun id => id ∈ expression.opening.spine ∨ id = 1000
    · rintro source event target (inside | rfl) ⟨member, _⟩
      · rw [straight.edges_eq] at member
        rcases List.mem_append.mp member with listed | final
        · exact .inl (closed _ listed inside)
        · exact .inr (congrArg Prod.snd (List.mem_singleton.mp final))
      · exact absurd rfl (straight.unfinished _ member)
    · exact .inl expression.opening.start_mem_spine
  rcases within with inside | rfl
  · rw [straight.edges_eq] at ends
    rcases List.mem_append.mp ends with listed | final
    · exact absurd (closed _ listed inside) straight.intermediate
    · exact congrArg Prod.fst (List.mem_singleton.mp final)
  · exact absurd rfl (straight.unfinished _ ends)

/-- The walks of a straight expression read what it matches. -/
theorem Straight.walks_iff (straight : expression.Straight) {Event Related : Type}
    (predicates : Predicates Event Related) (events : List Event) :
    Walks (Transition predicates expression.edges) 0 events 1000 ↔
      expression.Matches predicates events := by
  have contained : ∀ edge ∈ expression.opening.edges, edge ∈ expression.edges := by
    intro edge member
    rw [straight.edges_eq]
    exact List.mem_append_left _ member
  have owned : ∀ edge ∈ expression.edges, edge.2 ∈ expression.opening.spine →
      edge ∈ expression.opening.edges := by
    intro edge member target
    rw [straight.edges_eq] at member
    rcases List.mem_append.mp member with listed | final
    · exact listed
    · rw [List.mem_singleton.mp final] at target
      exact absurd target straight.intermediate
  have opening := expression.opening.walks_iff predicates straight.single
    expression.numbered contained owned straight.intermediate
  have ends : (expression.opening.returned, 1000) ∈ expression.edges :=
    List.mem_append_right _ List.mem_cons_self
  constructor
  · intro walks
    rcases List.eq_nil_or_concat' events with rfl | ⟨before, event, rfl⟩
    · cases walks
    · obtain ⟨middle, start, member, reads⟩ := walks_concat.mp walks
      obtain rfl := straight.last start member
      refine ⟨before, [event], rfl, (opening before).mp start, ?_⟩
      rw [straight.unnested]
      exact ⟨event, rfl, reads⟩
  · rintro ⟨before, final, rfl, start, stop⟩
    rw [straight.unnested] at stop
    obtain ⟨event, rfl, holds⟩ := stop
    exact walks_concat.mpr ⟨_, (opening before).mpr start, ends, holds⟩

/-- A straight expression is compiled faithfully. -/
theorem Straight.faithful (straight : expression.Straight) :
    expression.CompiledFaithfully := by
  intro Event Related predicates
  obtain ⟨nfa, constructed, accepts⟩ :=
    (expression.constructNFA_spec predicates).2 straight.unfinished
  exact ⟨nfa, constructed, fun events =>
    (accepts events).trans (straight.walks_iff predicates events)⟩

/-! ### No other expression is compiled faithfully -/

/-- The automaton of a faithfully compiled expression with predicates that tell all
states apart. -/
theorem CompiledFaithfully.walks_iff (faithful : expression.CompiledFaithfully) :
    (∀ edge ∈ expression.edges, edge.1 ≠ 1000) ∧
      ∀ events, Walks (Transition letters expression.edges) 0 events 1000 ↔
        expression.Matches letters events := by
  obtain ⟨nfa, constructed, accepts⟩ := faithful (Option Nat) Unit letters
  obtain ⟨fails, works⟩ := expression.constructNFA_spec letters
  have stays : ∀ edge ∈ expression.edges, edge.1 ≠ 1000 := by
    intro edge member final
    rw [fails ⟨edge, member, final⟩] at constructed
    cases constructed
  obtain ⟨other, same, walks⟩ := works stays
  obtain rfl := Option.some.inj (constructed.symm.trans same)
  exact ⟨stays, fun events => (walks events).symm.trans (accepts events)⟩

/-- All operands of a faithfully compiled expression take part in its matches. -/
theorem CompiledFaithfully.covered (faithful : expression.CompiledFaithfully) :
    (∀ pattern ∈ expression.opening.patterns, Covered expression.edges pattern) ∧
      ∀ pattern ∈ expression.closing.patterns, Covered expression.edges pattern := by
  obtain ⟨_, accepts⟩ := faithful.walks_iff
  have contained : ∀ edge ∈ expression.opening.edges, edge ∈ expression.edges :=
    fun edge member => List.mem_append_left _ (List.mem_append_right _ member)
  obtain ⟨chain, walks⟩ := expression.opening.exists_walk contained
  have whole : Walks (Transition letters expression.edges) 0 (chain ++ [some 0]) 1000 :=
    walks_concat.mpr ⟨_, walks, List.mem_append_right _ List.mem_cons_self, rfl⟩
  obtain ⟨left, right, _, before, after⟩ := (accepts _).mp whole
  constructor
  · intro pattern operand
    obtain ⟨part, holds⟩ := expression.opening.exists_of_matches before pattern operand
    apply pattern.covered holds
    · intro id member
      exact expression.numbered.positive id (expression.opening.ids_of_operand operand member)
    · intro part holds
      obtain ⟨longer, matched, inside⟩ := expression.opening.extend before operand holds
      exact ⟨longer ++ right, (accepts _).mpr ⟨longer, right, rfl, matched, after⟩,
        List.subset_append_of_subset_left _ inside⟩
  · intro pattern operand
    obtain ⟨part, holds⟩ := expression.closing.exists_of_matches after pattern operand
    apply pattern.covered holds
    · intro id member
      exact expression.positive id
        (List.mem_append_right _ (expression.closing.ids_of_operand operand member))
    · intro part holds
      obtain ⟨longer, matched, inside⟩ := expression.closing.extend after operand holds
      exact ⟨left ++ longer, (accepts _).mpr ⟨left, longer, rfl, before, matched⟩,
        List.subset_append_of_subset_right _ inside⟩

theorem CompiledFaithfully.single (faithful : expression.CompiledFaithfully) :
    expression.opening.plain = true := by
  apply expression.opening.plain_of_covered expression.numbered
  intro pattern operand
  obtain ⟨live, free, reached⟩ := faithful.covered.1 pattern operand
  refine ⟨live, free, ?_⟩
  intro id leaf
  obtain ⟨intermediate, edge, member, rfl⟩ := reached id leaf
  have mine := expression.opening.ids_of_operand operand (pattern.leaves_subset.subset leaf)
  exact ⟨intermediate, edge, expression.opening_edge member mine intermediate, rfl⟩

/-- No transition leads to the first state of an operand in parentheses before the end
state. -/
theorem CompiledFaithfully.unnested (faithful : expression.CompiledFaithfully) :
    expression.closing = .stop := by
  obtain ⟨_, closings⟩ := faithful.covered
  cases shape : expression.closing with
  | stop => rfl
  | seq pattern closing =>
      rw [shape] at closings
      obtain ⟨live, free, reached⟩ := closings pattern List.mem_cons_self
      have distinct := expression.distinct
      rw [shape] at distinct
      obtain ⟨_, own, apart⟩ := List.nodup_append'.mp distinct
      obtain ⟨mine, _, others⟩ := List.nodup_append'.mp own
      obtain ⟨id, rest, begins⟩ := pattern.exists_first live free
      have inside := Pattern.leaf_mem_ids begins
      obtain ⟨intermediate, edge, member, rfl⟩ := reached id (begins ▸ List.mem_cons_self)
      simp only [edges, shape, Closing.edges, List.mem_append, List.mem_singleton] at member
      rcases member with (((member | member) | rfl) | member) | rfl
      · rcases closing.edges_mem edge member with other | final
        · exact absurd other (others inside)
        · exact absurd final intermediate
      · exact absurd rfl (pattern.first_not_target live free mine begins edge member)
      · exact absurd rfl intermediate
      · exact absurd (List.mem_append_left _ inside)
          (apart (expression.opening.edges_mem edge member).2)
      · exact absurd rfl intermediate

/-- The automaton of an expression means the same as the expression, whatever the
predicates, just when the expression is straight. -/
theorem compiledFaithfully_iff_straight (expression : Expression) :
    expression.CompiledFaithfully ↔ expression.Straight :=
  ⟨fun faithful => ⟨faithful.single, faithful.unnested, faithful.walks_iff.1⟩,
    fun straight => straight.faithful⟩

theorem nested_distinct : ([1, 2] : List Nat).Nodup := by decide

theorem nested_positive : ∀ id ∈ [1, 2], 0 < id := by decide

/-- `start >> (a >> b) >> end` with the first two states of a program. -/
def nested : Expression where
  opening := .seq .start (.seq (.state 1) (.state 2))
  closing := .stop
  distinct := nested_distinct
  positive := nested_positive

theorem thousandth_distinct : ([1000] : List Nat).Nodup := by decide

theorem thousandth_positive : ∀ id ∈ [1000], 0 < id := by decide

/-- `start >> a >> end` with the thousandth state of a program. -/
def thousandth : Expression where
  opening := .seq .start (.state 1000)
  closing := .stop
  distinct := thousandth_distinct
  positive := thousandth_positive

/-- With the parentheses the first state is left out, and the thousandth state is taken
for the end state. -/
theorem not_compiledFaithfully :
    (∃ nfa, constructNFA (nested.build letters) = some nfa ∧
      Accepts nfa [some 2, some 0] ∧ ¬ nested.Matches letters [some 2, some 0]) ∧
    constructNFA (thousandth.build letters) = none ∧
    thousandth.Matches letters [some 1000, some 0] := by
  refine ⟨?_, (thousandth.constructNFA_spec letters).1 (by decide), ?_⟩
  · obtain ⟨nfa, constructed, accepts⟩ := (nested.constructNFA_spec letters).2 (by decide)
    refine ⟨nfa, constructed, (accepts _).mpr ?_, ?_⟩
    · exact ⟨2, ⟨by decide, rfl⟩, 1000, ⟨by decide, rfl⟩, rfl⟩
    · rintro ⟨left, right, split, ⟨before, both, rfl, rfl, one, two, rfl, first, second⟩, stop⟩
      obtain ⟨first, rfl, early⟩ := first
      obtain ⟨second, rfl, late⟩ := second
      obtain ⟨stop, rfl, last⟩ := stop
      cases split
  · refine ⟨[some 1000], [some 0], rfl, ⟨[], [some 1000], rfl, rfl, ?_⟩, ?_⟩
    · exact ⟨some 1000, rfl, rfl⟩
    · exact ⟨some 0, rfl, rfl⟩

end Expression

end CEP

end PipeFabric
