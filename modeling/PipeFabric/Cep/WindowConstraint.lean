import PipeFabric.Cep.NegationSafety

/-!
# Window constraints and outdated elements

`Matcher` hands every element to its engine, without the flag that marks it as
outdated, and the check of the window constraint is commented out.  What is left of
both is a condition on the events of the stream.
-/

namespace PipeFabric

namespace CEP

variable {Event Related : Type} {nfa : NFAController Event Related}

namespace Matcher

/-- `setWindowConstraint`, with its assertion. -/
def setWindowConstraint (engine : Engine Event Related) (period fromEvent toEvent : Int) :
    Option (Engine Event Related) :=
  if toEvent ≤ fromEvent then
    some (engine.setWindowConstraint period fromEvent toEvent)
  else none

/-- `processDataElement`, for an element with its flag and the order in which the
engine meets the entries of its pool. -/
def processDataElement (engine : Engine Event Related)
    (input : (Event × Bool) × IterationOrder (NFAStructure Event Related)) :
    Option (Engine Event Related × List (NFAStructure Event Related)) :=
  engine.runEngine (input.1.1, input.2)

end Matcher

/-- A call of `processDataElement`. -/
abbrev MatcherCall (Event Related : Type) : Type :=
  Transducer.Call (Engine Event Related)
    ((Event × Bool) × IterationOrder (NFAStructure Event Related))
    (NFAStructure Event Related)

/-- From the first to the last event of the match at most the period passes. -/
def Spans (timestamp : Event → Int) (period : Int) (matched : List Event) : Prop :=
  ∀ first ∈ matched.head?, ∀ last ∈ matched.getLast?,
    timestamp last - timestamp first ≤ period

/-- A match published by the call spans at most the period, and an outdated element is
not added to any structure and does not lead to a match. -/
structure Constrained (timestamp : Event → Int) (period : Int)
    (call : MatcherCall Event Related) : Prop where
  spans : ∀ str ∈ call.emitted, Spans timestamp period str.matched
  unchanged : call.input.1.2 = true → ∀ handled,
    call.before.beforeRemoval (call.input.1.1, call.input.2) = some handled →
      ∀ str ∈ handled, ∃ before ∈ call.before.toCEPEngine.pool,
        before.equality = str.equality ∧ before.matched = str.matched
  silent : call.input.1.2 = true → call.emitted = []

/-- No event completes a structure that was started more than the period before, and
no predicate on the way of a structure holds of an outdated element. -/
structure Harmless (nfa : NFAController Event Related) (timestamp : Event → Int)
    (period : Int) (engine : Engine Event Related)
    (input : (Event × Bool) × IterationOrder (NFAStructure Event Related)) : Prop where
  recent : ∀ str ∈ engine.toCEPEngine.pool, completes nfa input.1.1 str = true →
    ∀ first ∈ str.matched.head?, timestamp input.1.1 - timestamp first ≤ period
  passes : input.1.2 = true → ∀ str ∈ engine.toCEPEngine.pool,
    nextEdge nfa input.1.1 str = none ∧ takesLoop nfa input.1.1 str = false
  starts : input.1.2 = true → engine.starts = true → startEdge nfa input.1.1 = none

/-- Every structure of the pool has an event. -/
def AllStarted (engine : Engine Event Related) : Prop :=
  ∀ str ∈ engine.toCEPEngine.pool, str.matched ≠ []

theorem Handled.matched_eq {event : Event} {str : NFAStructure Event Related}
    {processed : Processed Event Related} (handled : Handled nfa event str processed) :
    processed.str.matched =
      if (nextEdge nfa event str).isSome || takesLoop nfa event str then
        str.matched ++ [event]
      else str.matched := by
  cases handled with
  | taken next extended => simp [next, extended.matched]
  | looped next loop _ extended => simp [next, loop, extended.matched]
  | excluded next loop _ => simp [next, loop]
  | idle next loop _ => simp [next, loop]

theorem Started.matched_eq {event : Event} {sequence : Nat}
    {fresh : List (NFAStructure Event Related)}
    (started : Started nfa event sequence fresh) :
    ∀ str ∈ fresh, str.matched = [event] := by
  cases started with
  | nothing _ => exact fun _ member => absurd member List.not_mem_nil
  | created _ extended =>
      have matched := extended.matched
      simpa [NFAStructure.new, NFAStructure.matched] using matched

theorem Started.eq_nil_iff {event : Event} {sequence : Nat}
    {fresh : List (NFAStructure Event Related)}
    (started : Started nfa event sequence fresh) :
    fresh = [] ↔ startEdge nfa event = none := by
  cases started with
  | nothing none => simp [none]
  | created some _ => simp [some]

section

variable {engine next : Engine Event Related} {timestamp : Event → Int} {period : Int}
  {input : (Event × Bool) × IterationOrder (NFAStructure Event Related)}
  {published : List (NFAStructure Event Related)}
  {processed : List (Processed Event Related)} {fresh : List (NFAStructure Event Related)}

/-- A published match is a structure of the pool with the event at its end. -/
theorem Engine.Stepped.published_matched (invariant : engine.Invariant nfa)
    (stepped : engine.Stepped nfa (input.1.1, input.2) next published processed fresh)
    {matched : List Event} :
    matched ∈ published.map NFAStructure.matched ↔
      ∃ str ∈ engine.toCEPEngine.pool, completes nfa input.1.1 str = true ∧
        matched = str.matched ++ [input.1.1] := by
  have taken : ∀ str, completes nfa input.1.1 str = true →
      (nextEdge nfa input.1.1 str).isSome = true := by
    intro str last
    cases next : nextEdge nfa input.1.1 str with
    | none => cases (completes_of_none next).symm.trans last
    | some edge => rfl
  rw [List.mem_map, stepped.published]
  constructor
  · rintro ⟨str, emitted, rfl⟩
    obtain ⟨entry, member, fate, rfl⟩ := mem_published_iff.mp emitted
    obtain ⟨str, pool, handled⟩ := stepped.origin member
    have last := (handled.published_iff (invariant.sound str pool)).mp fate
    have matched := handled.matched_eq
    rw [taken str last, Bool.true_or, if_pos rfl] at matched
    exact ⟨str, pool, last, matched⟩
  · rintro ⟨str, pool, last, rfl⟩
    obtain ⟨entry, member, handled⟩ := stepped.entry pool
    have fate := (handled.published_iff (invariant.sound str pool)).mpr last
    have matched := handled.matched_eq
    rw [taken str last, Bool.true_or, if_pos rfl] at matched
    exact ⟨entry.str, mem_published_iff.mpr ⟨entry, member, fate, rfl⟩, matched⟩

theorem Engine.Stepped.allStarted (started : AllStarted engine)
    (stepped : engine.Stepped nfa (input.1.1, input.2) next published processed fresh) :
    AllStarted next := by
  intro str member
  rcases List.mem_append.mp (stepped.mem_pool.mp member).1 with old | new
  · obtain ⟨entry, among, rfl⟩ := List.mem_map.mp old
    obtain ⟨before, pool, handled⟩ := stepped.origin among
    rw [handled.matched_eq]
    split
    · exact List.append_ne_nil_of_right_ne_nil _ (List.cons_ne_nil _ _)
    · exact started before pool
  · have first := stepped.started
    split at first
    · rw [first.matched_eq str new]
      exact List.cons_ne_nil _ _
    · rw [first] at new
      cases new

/-- What a match spans is known when its last event arrives. -/
theorem spans_concat {matched : List Event} (started : matched ≠ []) (event : Event) :
    Spans timestamp period (matched ++ [event]) ↔
      ∀ first ∈ matched.head?, timestamp event - timestamp first ≤ period := by
  cases matched with
  | nil => exact absurd rfl started
  | cons first later =>
      have last : (first :: later ++ [event]).getLast? = some event := List.getLast?_concat
      rw [Spans, last]
      simp

theorem Harmless.constrained (invariant : engine.Invariant nfa)
    (started : AllStarted engine) (harmless : Harmless nfa timestamp period engine input)
    (stepped : engine.Stepped nfa (input.1.1, input.2) next published processed fresh) :
    Constrained timestamp period ⟨engine, input, next, published⟩ := by
  constructor
  · intro str emitted
    obtain ⟨before, pool, last, matched⟩ :=
      (stepped.published_matched invariant).mp (List.mem_map_of_mem emitted)
    rw [matched, spans_concat (started before pool)]
    exact harmless.recent before pool last
  · intro outdated handled before str touched
    cases Option.some.inj (before.symm.trans stepped.before)
    rcases List.mem_append.mp touched with old | new
    · obtain ⟨entry, among, rfl⟩ := List.mem_map.mp old
      obtain ⟨str, pool, handled⟩ := stepped.origin among
      obtain ⟨edge, loop⟩ := harmless.passes outdated str pool
      refine ⟨str, pool, handled.equality.symm, ?_⟩
      rw [handled.matched_eq, edge, loop]
      rfl
    · have first := stepped.started
      split at first
      · rename_i looks
        rw [first.eq_nil_iff.mpr (harmless.starts outdated looks)] at new
        cases new
      · rw [first] at new
        cases new
  · intro outdated
    apply List.eq_nil_iff_forall_not_mem.mpr
    intro str emitted
    obtain ⟨before, pool, last, _⟩ :=
      (stepped.published_matched invariant).mp (List.mem_map_of_mem emitted)
    rw [completes_of_none (harmless.passes outdated before pool).1] at last
    cases last

theorem Constrained.harmless (invariant : engine.Invariant nfa)
    (started : AllStarted engine)
    (constrained : Constrained timestamp period ⟨engine, input, next, published⟩)
    (stepped : engine.Stepped nfa (input.1.1, input.2) next published processed fresh) :
    Harmless nfa timestamp period engine input := by
  constructor
  · intro str pool last
    obtain ⟨match_, emitted, matched⟩ := List.mem_map.mp
      ((stepped.published_matched invariant).mpr ⟨str, pool, last, rfl⟩)
    have spans := constrained.spans match_ emitted
    rw [matched, spans_concat (started str pool)] at spans
    exact spans
  · intro outdated str pool
    obtain ⟨entry, among, handled⟩ := stepped.entry pool
    obtain ⟨before, inside, same, matched⟩ := constrained.unchanged outdated _ stepped.before
      entry.str (List.mem_append_left _ (List.mem_map_of_mem among))
    rw [handled.equality] at same
    rw [invariant.eq_of_equality inside pool same, handled.matched_eq] at matched
    cases taken : (nextEdge nfa input.1.1 str).isSome || takesLoop nfa input.1.1 str with
    | true =>
        rw [taken, if_pos rfl] at matched
        simp at matched
    | false =>
        obtain ⟨edge, loop⟩ := Bool.or_eq_false_iff.mp taken
        exact ⟨Option.not_isSome_iff_eq_none.mp (Bool.eq_false_iff.mp edge), loop⟩
  · intro outdated looks
    have first := stepped.started
    rw [looks, if_pos rfl] at first
    apply first.eq_nil_iff.mp
    apply List.eq_nil_iff_forall_not_mem.mpr
    intro str new
    obtain ⟨before, inside, same, _⟩ := constrained.unchanged outdated _ stepped.before
      str (List.mem_append_right _ new)
    have below := invariant.pool before inside
    rw [same, (stepped.startedNew.1 str new).2] at below
    exact Nat.lt_irrefl _ below

end

/-- For every automaton, engine and window constraint, the published matches span at
most the period and outdated elements are kept out exactly if in no call the event
would complete a structure that is too old or an outdated element would be taken; on
a well-formed automaton all calls return. -/
theorem matcher_constrained {engine configured : Engine Event Related}
    (fresh : engine.Fresh nfa) {period fromEvent toEvent : Int}
    (set : Matcher.setWindowConstraint engine period fromEvent toEvent = some configured)
    (timestamp : Event → Int)
    (inputs : List ((Event × Bool) × IterationOrder (NFAStructure Event Related))) :
    (Transducer.Throughout (fun _ call => Constrained timestamp period call)
        (Transducer.calls Matcher.processDataElement configured inputs) ↔
      ∀ call ∈ Transducer.calls Matcher.processDataElement configured inputs,
        Harmless nfa timestamp period call.before call.input) ∧
    (WellFormed nfa →
      (Transducer.calls Matcher.processDataElement configured inputs).length =
        inputs.length) := by
  have constrained : configured.Fresh nfa := by
    rw [Matcher.setWindowConstraint] at set
    split at set
    · cases set
      exact fresh.setWindowConstraint period fromEvent toEvent
    · cases set
  constructor
  · apply Transducer.throughout_iff fun _ engine => engine.Invariant nfa ∧ AllStarted engine
    · intro _ state input next holds ran
      obtain ⟨processed, new, stepped⟩ := Engine.stepped_of_runEngine holds.1 ran
      exact ⟨fun promise => promise.harmless holds.1 holds.2 stepped,
        fun harmless => harmless.constrained holds.1 holds.2 stepped⟩
    · intro _ state input next holds ran _
      obtain ⟨processed, new, stepped⟩ := Engine.stepped_of_runEngine holds.1 ran
      exact ⟨stepped.invariant holds.1, stepped.allStarted holds.2⟩
    · exact ⟨constrained.invariant, by simp [AllStarted, constrained.pool]⟩
  · intro wellFormed
    apply Transducer.length_calls fun engine => engine.Invariant nfa ∧ engine.InReached nfa
    · intro engine input holds
      obtain ⟨next, ran⟩ := Engine.runEngine_returns wellFormed holds.1 holds.2
      obtain ⟨processed, started, stepped⟩ := Engine.stepped_of_runEngine holds.1 ran
      exact ⟨next, ran, stepped.invariant holds.1, stepped.inReached wellFormed holds.2⟩
    · exact ⟨constrained.invariant, by simp [Engine.InReached, constrained.pool]⟩

/-- An element with its flag. -/
def flagged (event : Nat) (outdated : Bool) :
    (Nat × Bool) × IterationOrder (NFAStructure Nat Unit) :=
  ((event, outdated), .same _)

/-- A first-match engine that looks for 1 and 2 within a period of 5. -/
def withinFive : Engine Nat Unit :=
  .FirstMatch { CEPEngine.new twoEventsNFA 0 with windowConst := .FirstLastEvents 5 }

theorem withinFive_configured :
    Matcher.setWindowConstraint (.FirstMatch (.new twoEventsNFA 0)) 5 (-1) (-1) =
      some withinFive := rfl

theorem matcher_constrained_withinFive :
    (Transducer.Throughout (fun _ call => Constrained (fun event : Nat => (event : Int)) 5 call)
        (Transducer.calls Matcher.processDataElement withinFive
          [flagged 1 false, flagged 2 false]) ↔
      ∀ call ∈ Transducer.calls Matcher.processDataElement withinFive
          [flagged 1 false, flagged 2 false],
        Harmless twoEventsNFA (fun event : Nat => (event : Int)) 5 call.before call.input) ∧
    (WellFormed twoEventsNFA →
      (Transducer.calls Matcher.processDataElement withinFive
        [flagged 1 false, flagged 2 false]).length = 2) :=
  matcher_constrained ⟨rfl, rfl, rfl⟩ withinFive_configured _ _

/-- A match of events at the times 10 and 20 is published within a period of 5, and an
outdated element starts a structure. -/
theorem matcher_not_constrained :
    ¬ Transducer.Throughout
        (fun _ call => Constrained (fun event : Nat => 10 * (event : Int)) 5 call)
        (Transducer.calls Matcher.processDataElement withinFive
          [flagged 1 false, flagged 2 false]) ∧
    ¬ Transducer.Throughout
        (fun _ call => Constrained (fun event : Nat => (event : Int)) 5 call)
        (Transducer.calls Matcher.processDataElement withinFive [flagged 1 true]) := by
  constructor
  · intro every
    have spans := (every.get 1 rfl).spans _ List.mem_cons_self 1 rfl 2 rfl
    exact absurd spans (by decide)
  · intro every
    obtain ⟨before, pool, _⟩ :=
      (every.get 0 rfl).unchanged rfl _ rfl _ List.mem_cons_self
    cases pool

end CEP

end PipeFabric
