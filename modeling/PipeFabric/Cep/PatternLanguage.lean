import PipeFabric.Cep.PatternExpression

/-!
# What patterns can match

Whether a pattern matches no events, or nothing at all, does not depend on the
predicates: only a negation matches the empty sequence, and it matches nothing when
the negated pattern does that.  With predicates that tell all states apart every other
state of a pattern is met by some match of it.
-/

namespace PipeFabric

namespace CEP

namespace Pattern

/-- The pattern matches the empty sequence. -/
def nullable : Pattern → Bool
  | .state _ => false
  | .seq first second => first.nullable && second.nullable
  | .or first second => first.nullable || second.nullable
  | .not pattern => !pattern.nullable

/-- The pattern matches nothing. -/
def dead : Pattern → Bool
  | .state _ => false
  | .seq first second => first.dead || second.dead
  | .or first second => first.dead && second.dead
  | .not pattern => pattern.nullable

/-- A single state, possibly with dead alternatives behind it. -/
def plain : Pattern → Bool
  | .state _ => true
  | .seq _ _ => false
  | .or first second => first.plain && second.dead
  | .not _ => false

/-- There is no negation outside of dead alternatives. -/
def negationFree : Pattern → Bool
  | .state _ => true
  | .seq first second => first.negationFree && second.negationFree
  | .or first second =>
      (first.dead || first.negationFree) && (second.dead || second.negationFree)
  | .not _ => false

/-- The numbers of the states outside of dead alternatives. -/
def leaves : Pattern → List Nat
  | .state id => [id]
  | .seq first second => first.leaves ++ second.leaves
  | .or first second =>
      (if first.dead then [] else first.leaves) ++ (if second.dead then [] else second.leaves)
  | .not _ => []

section

variable {Event Related : Type} {predicates : Predicates Event Related}

theorem matches_nil_iff (pattern : Pattern) :
    pattern.Matches predicates [] ↔ pattern.nullable = true := by
  induction pattern with
  | state id => simp [Matches, nullable]
  | seq first second left right =>
      rw [Matches, nullable, Bool.and_eq_true, ← left, ← right]
      constructor
      · rintro ⟨before, after, split, one, two⟩
        obtain ⟨rfl, rfl⟩ := List.append_eq_nil_iff.mp split.symm
        exact ⟨one, two⟩
      · intro both
        exact ⟨[], [], rfl, both⟩
  | or first second left right => rw [Matches, nullable, Bool.or_eq_true, left, right]
  | not pattern induction =>
      rw [Matches, nullable, Bool.not_eq_true', ← Bool.not_eq_true, ← induction]
      constructor
      · intro every
        exact every [] (List.infix_refl _)
      · intro other part inside
        rw [List.infix_nil.mp inside]
        exact other

theorem not_matches_of_dead (pattern : Pattern) (dead : pattern.dead = true)
    (events : List Event) : ¬ pattern.Matches predicates events := by
  induction pattern generalizing events with
  | state id => cases dead
  | seq first second left right =>
      rintro ⟨before, after, _, one, two⟩
      rcases Bool.or_eq_true_iff.mp dead with gone | gone
      · exact left gone before one
      · exact right gone after two
  | or first second left right =>
      obtain ⟨one, two⟩ := Bool.and_eq_true_iff.mp dead
      rintro (matched | matched)
      · exact left one events matched
      · exact right two events matched
  | not pattern _ =>
      intro every
      exact every [] List.nil_infix ((matches_nil_iff pattern).mpr dead)

/-- A plain pattern matches the events of its state. -/
theorem matches_plain_iff (pattern : Pattern) (plain : pattern.plain = true)
    (events : List Event) :
    pattern.Matches predicates events ↔
      ∃ event, events = [event] ∧
        predicates.intermediate pattern.returned event none = true := by
  induction pattern with
  | state id => exact Iff.rfl
  | seq _ _ _ _ => cases plain
  | or first second left _ =>
      obtain ⟨one, dead⟩ := Bool.and_eq_true_iff.mp plain
      rw [Matches, left one, returned]
      exact or_iff_left (not_matches_of_dead second dead events)
  | not _ _ => cases plain

end

/-! ### Predicates that tell all states apart -/

/-- Every intermediate state waits for its number and the end state for 0, which is the
number of no intermediate state; no state waits for a blank. -/
def letters : Predicates (Option Nat) Unit where
  intermediate id event _ := event = some id
  stop event _ := event = some 0

theorem letters_intermediate (id : Nat) (event : Option Nat) :
    letters.intermediate id event none = true ↔ event = some id :=
  decide_eq_true_iff

theorem letters_stop (event : Option Nat) :
    letters.stop event none = true ↔ event = some 0 :=
  decide_eq_true_iff

theorem exists_matches (pattern : Pattern) (live : pattern.dead = false) :
    ∃ events, pattern.Matches letters events := by
  induction pattern with
  | state id => exact ⟨[some id], some id, rfl, decide_eq_true rfl⟩
  | seq first second left right =>
      obtain ⟨one, two⟩ := Bool.or_eq_false_iff.mp live
      obtain ⟨before, early⟩ := left one
      obtain ⟨after, late⟩ := right two
      exact ⟨before ++ after, before, after, rfl, early, late⟩
  | or first second left right =>
      rcases Bool.and_eq_false_iff.mp live with one | two
      · obtain ⟨events, matched⟩ := left one
        exact ⟨events, .inl matched⟩
      · obtain ⟨events, matched⟩ := right two
        exact ⟨events, .inr matched⟩
  | not pattern _ =>
      refine ⟨[], ?_⟩
      rw [matches_nil_iff, nullable, show pattern.nullable = false from live]
      rfl

/-- Only a pattern that matches the empty sequence matches blanks. -/
theorem not_matches_blanks (pattern : Pattern) (waits : pattern.nullable = false)
    (events : List (Option Nat)) (blanks : ∀ event ∈ events, event = none) :
    ¬ pattern.Matches letters events := by
  induction pattern generalizing events with
  | state id =>
      rintro ⟨event, rfl, holds⟩
      rw [blanks event List.mem_cons_self] at holds
      cases holds
  | seq first second left right =>
      rintro ⟨before, after, rfl, one, two⟩
      rcases Bool.and_eq_false_iff.mp waits with early | late
      · exact left early before (fun event member =>
          blanks event (List.mem_append_left _ member)) one
      · exact right late after (fun event member =>
          blanks event (List.mem_append_right _ member)) two
  | or first second left right =>
      obtain ⟨early, late⟩ := Bool.or_eq_false_iff.mp waits
      rintro (matched | matched)
      · exact left early events blanks matched
      · exact right late events blanks matched
  | not pattern _ =>
      have dead : (Pattern.not pattern).dead = true := by
        simpa [nullable, dead] using waits
      exact not_matches_of_dead _ dead events

/-- A negation lets a blank pass. -/
theorem exists_matches_blank (pattern : Pattern) (live : pattern.dead = false)
    (negation : pattern.negationFree = false) :
    ∃ events, pattern.Matches letters events ∧ none ∈ events := by
  induction pattern with
  | state id => cases negation
  | seq first second left right =>
      obtain ⟨one, two⟩ := Bool.or_eq_false_iff.mp live
      rcases Bool.and_eq_false_iff.mp negation with early | late
      · obtain ⟨before, matched, blank⟩ := left one early
        obtain ⟨after, rest⟩ := exists_matches second two
        exact ⟨before ++ after, ⟨before, after, rfl, matched, rest⟩,
          List.mem_append_left _ blank⟩
      · obtain ⟨after, matched, blank⟩ := right two late
        obtain ⟨before, start⟩ := exists_matches first one
        exact ⟨before ++ after, ⟨before, after, rfl, start, matched⟩,
          List.mem_append_right _ blank⟩
  | or first second left right =>
      rcases Bool.and_eq_false_iff.mp negation with early | late
      · obtain ⟨one, other⟩ := Bool.or_eq_false_iff.mp early
        obtain ⟨events, matched, blank⟩ := left one other
        exact ⟨events, .inl matched, blank⟩
      · obtain ⟨two, other⟩ := Bool.or_eq_false_iff.mp late
        obtain ⟨events, matched, blank⟩ := right two other
        exact ⟨events, .inr matched, blank⟩
  | not pattern _ =>
      refine ⟨[none], ?_, List.mem_cons_self⟩
      intro part inside
      apply not_matches_blanks pattern live part
      intro event member
      exact List.mem_singleton.mp (inside.subset member)

/-- Every state outside of dead alternatives is met. -/
theorem exists_matches_leaf (pattern : Pattern) (live : pattern.dead = false)
    {id : Nat} (leaf : id ∈ pattern.leaves) :
    ∃ events, pattern.Matches letters events ∧ some id ∈ events := by
  induction pattern with
  | state other =>
      obtain rfl := List.mem_singleton.mp leaf
      exact ⟨[some id], ⟨some id, rfl, decide_eq_true rfl⟩, List.mem_cons_self⟩
  | seq first second left right =>
      obtain ⟨one, two⟩ := Bool.or_eq_false_iff.mp live
      rcases List.mem_append.mp leaf with early | late
      · obtain ⟨before, matched, met⟩ := left one early
        obtain ⟨after, rest⟩ := exists_matches second two
        exact ⟨before ++ after, ⟨before, after, rfl, matched, rest⟩,
          List.mem_append_left _ met⟩
      · obtain ⟨after, matched, met⟩ := right two late
        obtain ⟨before, start⟩ := exists_matches first one
        exact ⟨before ++ after, ⟨before, after, rfl, start, matched⟩,
          List.mem_append_right _ met⟩
  | or first second left right =>
      rcases List.mem_append.mp leaf with early | late
      · cases one : first.dead with
        | true =>
            rw [one] at early
            cases early
        | false =>
            rw [one] at early
            obtain ⟨events, matched, met⟩ := left one early
            exact ⟨events, .inl matched, met⟩
      · cases two : second.dead with
        | true =>
            rw [two] at late
            cases late
        | false =>
            rw [two] at late
            obtain ⟨events, matched, met⟩ := right two late
            exact ⟨events, .inr matched, met⟩
  | not _ _ => cases leaf

end Pattern

end CEP

end PipeFabric
