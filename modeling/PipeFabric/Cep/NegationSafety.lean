import PipeFabric.Cep.Completion

/-!
# Negation between the events of a match

While a structure waits in a chain of negation states, an event that satisfies one of
the negated predicates rules it out.  The structure is then only put on the list of
those to be deleted, and goes on if the sweep does not come to it.
-/

namespace PipeFabric

namespace CEP

variable {Event Related : Type} {nfa : NFAController Event Related}

/-- The event satisfies a negated predicate of a negation state between the state in
which the structure waits and the next one. -/
def Violates (nfa : NFAController Event Related) (event : Event)
    (str : NFAStructure Event Related) : Prop :=
  ∃ chain last, Chain nfa str.currentState chain last ∧
    negatedBy chain event str.relatedValues = true

/-- No published structure has met, since it was started, an event that violates the
negation states between the one in which it waited and the next, and the structures
that the call has put on the list have left the pool. -/
structure NegationSafe (nfa : NFAController Event Related)
    (earlier : List (EngineCall Event Related)) (call : EngineCall Event Related) :
    Prop where
  published : ∀ str ∈ call.emitted, ∀ past ∈ earlier ++ [call],
    ∀ waiting ∈ past.before.toCEPEngine.pool, waiting.equality = str.equality →
      ¬ Violates nfa past.input.1 waiting
  removed : ∀ engine, call.before = .NextMatches engine →
    ∀ handled, NextMatchEngine.beforeSweep call.input.2 engine call.input.1 = some handled →
      ∀ value ∈ handled.1.deletedStructures.drop engine.deletedStructures.length,
        value ∉ call.after.toCEPEngine.pool.map NFAStructure.equality

/-- The event completes or rules out at most one structure of the pool. -/
def AtMostOneDue (nfa : NFAController Event Related) (engine : Engine Event Related)
    (input : Event × IterationOrder (NFAStructure Event Related)) : Prop :=
  (engine.toCEPEngine.pool.filter (isDue nfa input.1)).length ≤ 1

/-- What holds as long as no structure has survived the sweep. -/
structure Swept (nfa : NFAController Event Related)
    (earlier : List (EngineCall Event Related)) (engine : Engine Event Related) :
    Prop where
  invariant : engine.Invariant nfa
  reached : engine.InReached nfa
  nothing : engine.deletedStructures = []
  gone : ∀ past ∈ earlier, ∀ waiting ∈ past.before.toCEPEngine.pool,
    Violates nfa past.input.1 waiting →
    waiting.equality < engine.toCEPEngine.sequence ∧
      waiting.equality ∉ engine.toCEPEngine.pool.map NFAStructure.equality

section

variable {event : Event} {str : NFAStructure Event Related}

theorem Chain.ruledOut_eq {chain : List (List (ForwardEdge Event Related))} {last : Nat}
    (leads : Chain nfa str.currentState chain last) :
    ruledOut nfa event str = negatedBy chain event str.relatedValues := by
  obtain ⟨stateName, edge, edges, rest, rfl, state⟩ := leads.state
  rw [ruledOut, state, Option.any_some, leads.chainResult_eq event]
  cases negatedBy ((edge :: edges) :: rest) event str.relatedValues <;>
    simp [NFAState.getStateType]

/-- On a well-formed automaton the loop over the chain tells whether the event
violates it. -/
theorem violates_iff (wellFormed : WellFormed nfa)
    (reached : Reached nfa str.currentState) :
    Violates nfa event str ↔ ruledOut nfa event str = true := by
  constructor
  · rintro ⟨chain, last, leads, negated⟩
    rw [leads.ruledOut_eq]
    exact negated
  · intro out
    rcases wellFormed.states _ reached with ⟨state, present, _, other⟩ | ⟨chain, last, leads⟩
    · rw [ruledOut, present, Option.any_some, Bool.and_eq_true] at out
      exact absurd (of_decide_eq_true out.1) other
    · rw [leads.ruledOut_eq] at out
      exact ⟨chain, last, leads, out⟩

theorem isDue_of_violates (wellFormed : WellFormed nfa)
    (reached : Reached nfa str.currentState) (violates : Violates nfa event str) :
    isDue nfa event str = true := by
  rw [isDue, (violates_iff wellFormed reached).mp violates, Bool.or_true]

/-- The event that completes a match does not violate it. -/
theorem not_violates_of_completes (wellFormed : WellFormed nfa)
    (reached : Reached nfa str.currentState)
    (last : completes nfa event str = true) : ¬ Violates nfa event str := by
  intro violates
  have none := nextEdge_ruledOut ((violates_iff wellFormed reached).mp violates)
  rw [completes_of_none none] at last
  cases last

end

section

variable {earlier : List (EngineCall Event Related)} {engine next : Engine Event Related}
  {input : Event × IterationOrder (NFAStructure Event Related)}
  {published : List (NFAStructure Event Related)}
  {processed : List (Processed Event Related)} {fresh : List (NFAStructure Event Related)}

/-- With nothing left on the list, those that are due are those that the event
completes or rules out. -/
theorem Swept.due_eq (swept : Swept nfa earlier engine) :
    engine.due input =
      ((engine.offered input.2).filter (isDue nfa input.1)).map NFAStructure.equality := by
  rw [Engine.due, swept.nothing, swept.invariant.automaton, List.nil_append]

theorem Swept.length_due (swept : Swept nfa earlier engine) :
    (engine.due input).length =
      (engine.toCEPEngine.pool.filter (isDue nfa input.1)).length := by
  rw [swept.due_eq, List.length_map]
  exact ((engine.offered_perm input.2).filter _).length_eq

theorem Swept.mem_due (swept : Swept nfa earlier engine)
    {str : NFAStructure Event Related} (member : str ∈ engine.toCEPEngine.pool)
    (due : isDue nfa input.1 str = true) : str.equality ∈ engine.due input := by
  rw [swept.due_eq]
  apply List.mem_map_of_mem
  exact List.mem_filter.mpr ⟨(engine.offered_perm input.2).mem_iff.mpr member, due⟩

/-- With at most one of them the whole list is swept. -/
theorem AtMostOneDue.removes (swept : Swept nfa earlier engine)
    (single : AtMostOneDue nfa engine input) :
    (engine.due input).length ≤ engine.removes input := by
  have length : (engine.due input).length ≤ 1 := by
    rw [swept.length_due]
    exact single
  cases engine with
  | FirstMatch engine => exact Nat.le_refl _
  | NextMatches engine =>
      rw [Engine.removes]
      omega

/-- What is due has then left the pool. -/
theorem AtMostOneDue.gone (swept : Swept nfa earlier engine)
    (single : AtMostOneDue nfa engine input)
    (stepped : engine.Stepped nfa input next published processed fresh) {value : Nat}
    (due : value ∈ engine.due input) :
    value ∉ next.toCEPEngine.pool.map NFAStructure.equality := by
  intro inside
  obtain ⟨str, member, rfl⟩ := List.mem_map.mp inside
  have stays := (stepped.mem_pool.mp member).2
  rw [List.take_of_length_le (single.removes swept)] at stays
  exact stays due

/-- The condition is enough for the call. -/
theorem AtMostOneDue.negationSafe (wellFormed : WellFormed nfa)
    (swept : Swept nfa earlier engine) (single : AtMostOneDue nfa engine input)
    (stepped : engine.Stepped nfa input next published processed fresh) :
    NegationSafe nfa earlier ⟨engine, input, next, published⟩ := by
  constructor
  · intro str emitted past among waiting member same
    obtain ⟨before, pool, last, equal⟩ :=
      (stepped.mem_published swept.invariant).mp (List.mem_map_of_mem emitted)
    rcases List.mem_append.mp among with old | now
    · intro violates
      have gone := (swept.gone past old waiting member violates).2
      rw [same, ← equal] at gone
      exact gone (List.mem_map_of_mem pool)
    · cases List.mem_singleton.mp now
      have one := swept.invariant.eq_of_equality member pool (same.trans equal.symm)
      rw [one]
      exact not_violates_of_completes wellFormed (swept.reached before pool) last
  · intro list same handled ran value newly
    rw [stepped.listed list same handled ran] at newly
    exact single.gone swept stepped (List.mem_of_mem_drop newly)

theorem Swept.nodup_due (swept : Swept nfa earlier engine) : (engine.due input).Nodup := by
  have offered := ((engine.offered_perm input.2).map NFAStructure.equality).nodup_iff.mpr
    swept.invariant.distinct
  rw [swept.due_eq]
  exact offered.sublist (List.filter_sublist.map _)

/-- What is due and not swept is still in the pool. -/
theorem Swept.stays (swept : Swept nfa earlier engine)
    (stepped : engine.Stepped nfa input next published processed fresh) {value : Nat}
    (due : value ∈ engine.due input)
    (left : value ∉ (engine.due input).take (engine.removes input)) :
    value ∈ next.toCEPEngine.pool.map NFAStructure.equality := by
  rw [swept.due_eq] at due
  obtain ⟨str, among, rfl⟩ := List.mem_map.mp due
  have pool := (engine.offered_perm input.2).mem_iff.mp (List.mem_filter.mp among).1
  obtain ⟨entry, member, handled⟩ := stepped.entry pool
  rw [← handled.equality] at left ⊢
  apply List.mem_map_of_mem
  exact stepped.mem_pool.mpr
    ⟨List.mem_append_left _ (List.mem_map_of_mem member), left⟩

/-- The condition is needed for the call. -/
theorem NegationSafe.atMostOneDue (swept : Swept nfa earlier engine)
    (safe : NegationSafe nfa earlier ⟨engine, input, next, published⟩)
    (stepped : engine.Stepped nfa input next published processed fresh) :
    AtMostOneDue nfa engine input := by
  cases engine with
  | FirstMatch first =>
      exact Nat.le_trans (List.length_filter_le _ _) (swept.invariant.single first rfl)
  | NextMatches list =>
      obtain ⟨handled, ran, _⟩ := Option.map_eq_some_iff.mp stepped.before
      by_contra several
      rw [AtMostOneDue, ← swept.length_due] at several
      -- The first entry behind those that the sweep comes to.
      have half : (Engine.NextMatches list).removes input <
          ((Engine.NextMatches list).due input).length := by
        rw [Engine.removes]
        omega
      have due := List.getElem_mem half
      have left : ((Engine.NextMatches list).due input)[
          (Engine.NextMatches list).removes input] ∉
          ((Engine.NextMatches list).due input).take
            ((Engine.NextMatches list).removes input) := by
        intro early
        obtain ⟨index, below, same⟩ := List.getElem_of_mem early
        rw [List.length_take] at below
        rw [List.getElem_take] at same
        have equal := (swept.nodup_due.getElem_inj_iff).mp same
        omega
      have newly := safe.removed list rfl handled ran _ (by
        rw [show list.deletedStructures = [] from swept.nothing, List.length_nil,
          List.drop_zero, stepped.listed list rfl handled ran]
        exact due)
      exact newly (swept.stays stepped due left)

/-- A call that keeps the promise leaves nothing on the list. -/
theorem NegationSafe.swept (wellFormed : WellFormed nfa) (swept : Swept nfa earlier engine)
    (safe : NegationSafe nfa earlier ⟨engine, input, next, published⟩)
    (stepped : engine.Stepped nfa input next published processed fresh) :
    Swept nfa (earlier ++ [⟨engine, input, next, published⟩]) next := by
  have single := safe.atMostOneDue swept stepped
  constructor
  · exact stepped.invariant swept.invariant
  · exact stepped.inReached wellFormed swept.reached
  · rw [stepped.deleted]
    exact List.drop_of_length_le (single.removes swept)
  · intro past among waiting member violates
    rw [stepped.sequence]
    rcases List.mem_append.mp among with old | now
    · obtain ⟨below, gone⟩ := swept.gone past old waiting member violates
      exact ⟨Nat.lt_add_right _ below, stepped.not_mem_next below gone⟩
    · cases List.mem_singleton.mp now
      have due := isDue_of_violates wellFormed (swept.reached waiting member) violates
      exact ⟨Nat.lt_add_right _ (swept.invariant.pool waiting member),
        single.gone swept stepped (swept.mem_due member due)⟩

end

/-- In a run of an engine on a well-formed automaton no published match violates a
negation and the structures on the list leave the pool exactly if every event of the
run completes or rules out at most one structure; and the engine returns from every
call. -/
theorem engine_negationSafe (wellFormed : WellFormed nfa) {engine : Engine Event Related}
    (fresh : engine.Fresh nfa)
    (inputs : List (Event × IterationOrder (NFAStructure Event Related))) :
    (Transducer.Throughout (NegationSafe nfa)
        (Transducer.calls Engine.runEngine engine inputs) ↔
      ∀ call ∈ Transducer.calls Engine.runEngine engine inputs,
        AtMostOneDue nfa call.before call.input) ∧
    (Transducer.calls Engine.runEngine engine inputs).length = inputs.length := by
  constructor
  · apply Transducer.throughout_iff (Swept nfa)
    · intro earlier state input next swept ran
      obtain ⟨processed, started, stepped⟩ := Engine.stepped_of_runEngine swept.invariant ran
      exact ⟨fun safe => safe.atMostOneDue swept stepped,
        fun single => single.negationSafe wellFormed swept stepped⟩
    · intro earlier state input next swept ran safe
      obtain ⟨processed, started, stepped⟩ := Engine.stepped_of_runEngine swept.invariant ran
      exact safe.swept wellFormed swept stepped
    · exact ⟨fresh.invariant, by simp [Engine.InReached, fresh.pool], fresh.deleted,
        fun _ member => absurd member List.not_mem_nil⟩
  · apply Engine.length_calls wellFormed fresh.invariant
    simp [Engine.InReached, fresh.pool]

theorem engine_negationSafe_linear :
    (Transducer.Throughout (NegationSafe negationExampleNFA)
        (Transducer.calls Engine.runEngine (.NextMatches ⟨.new negationExampleNFA 0, []⟩)
          [inOrder 1, inOrder 2, inOrder 9, inOrder 3]) ↔
      ∀ call ∈ Transducer.calls Engine.runEngine
          (.NextMatches ⟨.new negationExampleNFA 0, []⟩)
          [inOrder 1, inOrder 2, inOrder 9, inOrder 3],
        AtMostOneDue negationExampleNFA call.before call.input) ∧
    (Transducer.calls Engine.runEngine (.NextMatches ⟨.new negationExampleNFA 0, []⟩)
      [inOrder 1, inOrder 2, inOrder 9, inOrder 3]).length = 4 :=
  engine_negationSafe negationExample_linear.wellFormed ⟨rfl, rfl, rfl⟩ _

theorem negationExample_chain :
    Chain negationExampleNFA 2 [[⟨⟨2, fun event _ => event = 9⟩, 3⟩]] 3 :=
  .single rfl rfl (by decide)

/-- Two structures wait for 3 when 9 rules them out.  One of them survives the sweep
and is published with the event 9 between 2 and 3. -/
theorem engine_not_negationSafe :
    ¬ Transducer.Throughout (NegationSafe negationExampleNFA)
        (Transducer.calls Engine.runEngine (.NextMatches ⟨.new negationExampleNFA 0, []⟩)
          [inOrder 1, inOrder 1, inOrder 2, inOrder 9, inOrder 3]) := by
  intro every
  apply (every.get 4 rfl).published _ List.mem_cons_self _
    (List.mem_append_left _ (List.mem_of_getElem? (i := 3) rfl)) _
    (List.mem_of_getElem? (i := 1) rfl) rfl
  exact ⟨_, _, negationExample_chain, by decide⟩

end CEP

end PipeFabric
