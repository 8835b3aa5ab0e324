import PipeFabric.Cep.FirstMatch
import PipeFabric.Cep.NegationChain

/-!
# Complete matches leave the pool

A match is complete when its structure reaches a final state.  Completion is detected
where an event is added to a structure of the pool; a structure that an event starts
in a final state, a structure that is moved through a long chain of negation states,
and one that the sweep does not come to are forgotten.
-/

namespace PipeFabric

namespace CEP

variable {Event Related : Type} {nfa : NFAController Event Related}

/-- A call of an engine, with the event and the iteration order. -/
abbrev EngineCall (Event Related : Type) : Type :=
  Transducer.Call (Engine Event Related)
    (Event × IterationOrder (NFAStructure Event Related)) (NFAStructure Event Related)

/-- The matches published in some calls. -/
def publishedIn (calls : List (EngineCall Event Related)) :
    List (NFAStructure Event Related) :=
  calls.flatMap Transducer.Call.emitted

/-- After the call no structure in a final state is in the pool, all structures that
have reached one are published, no structure is published twice, and a structure in a
chain of negation states before a final state is published when the event satisfies
none of the negated predicates. -/
structure Unblocked (nfa : NFAController Event Related)
    (earlier : List (EngineCall Event Related)) (call : EngineCall Event Related) :
    Prop where
  leaves : ∀ str ∈ call.after.toCEPEngine.pool, isFinal nfa str.currentState = false
  published : ∀ handled, call.before.beforeRemoval call.input = some handled →
    ∀ str ∈ handled, isFinal nfa str.currentState = true →
      str.equality ∈ (publishedIn (earlier ++ [call])).map NFAStructure.equality
  once : ((publishedIn (earlier ++ [call])).map NFAStructure.equality).Nodup
  waiting : ∀ str ∈ call.before.toCEPEngine.pool, ∀ chain last,
    Chain nfa str.currentState chain last → isFinal nfa last = true →
    negatedBy chain call.input.1 str.relatedValues = false →
    str.equality ∈ call.emitted.map NFAStructure.equality

/-- The event starts no structure in a final state, no structure in a chain of more
than one negation state before a final state passes the chain, and the structures that
the event completes are among those that the engine removes. -/
structure Unhindered (nfa : NFAController Event Related) (engine : Engine Event Related)
    (input : Event × IterationOrder (NFAStructure Event Related)) : Prop where
  start : engine.starts = true → ∀ edge, startEdge nfa input.1 = some edge →
    isFinal nfa edge.destState = false
  chain : ∀ str ∈ engine.toCEPEngine.pool, ∀ chain last,
    Chain nfa str.currentState chain last → isFinal nfa last = true →
    negatedBy chain input.1 str.relatedValues = false → chain.length = 1
  sweep : ∀ str ∈ engine.toCEPEngine.pool, completes nfa input.1 str = true →
    str.equality ∈ (engine.due input).take (engine.removes input)

/-- What holds as long as no structure has been forgotten. -/
structure Clean (nfa : NFAController Event Related)
    (earlier : List (EngineCall Event Related)) (engine : Engine Event Related) :
    Prop where
  invariant : engine.Invariant nfa
  unfinished : ∀ str ∈ engine.toCEPEngine.pool, isFinal nfa str.currentState = false
  once : ((publishedIn earlier).map NFAStructure.equality).Nodup
  below : ∀ value ∈ (publishedIn earlier).map NFAStructure.equality,
    value < engine.toCEPEngine.sequence
  gone : ∀ value ∈ (publishedIn earlier).map NFAStructure.equality,
    value ∉ engine.toCEPEngine.pool.map NFAStructure.equality

theorem publishedIn_concat (earlier : List (EngineCall Event Related))
    (call : EngineCall Event Related) :
    publishedIn (earlier ++ [call]) = publishedIn earlier ++ call.emitted := by
  simp [publishedIn]

section

variable {earlier : List (EngineCall Event Related)} {engine next : Engine Event Related}
  {input : Event × IterationOrder (NFAStructure Event Related)}
  {published : List (NFAStructure Event Related)}
  {processed : List (Processed Event Related)} {fresh : List (NFAStructure Event Related)}

/-- A new structure is in a final state when the first edge leads to one. -/
theorem Engine.Stepped.fresh_isFinal_iff
    (stepped : engine.Stepped nfa input next published processed fresh) :
    (∃ str ∈ fresh, isFinal nfa str.currentState = true) ↔
      engine.starts = true ∧
        ∃ edge, startEdge nfa input.1 = some edge ∧ isFinal nfa edge.destState = true := by
  have started := stepped.started
  cases looks : engine.starts with
  | true =>
      rw [looks, if_pos rfl] at started
      rw [started.isFinal_iff]
      simp
  | false =>
      rw [looks, if_neg Bool.false_ne_true] at started
      simp [started]

theorem Unhindered.fresh_unfinished (unhindered : Unhindered nfa engine input)
    (stepped : engine.Stepped nfa input next published processed fresh) :
    ∀ str ∈ fresh, isFinal nfa str.currentState = false := by
  intro str new
  cases final : isFinal nfa str.currentState with
  | false => rfl
  | true =>
      obtain ⟨looks, edge, found, last⟩ := stepped.fresh_isFinal_iff.mp ⟨str, new, final⟩
      rw [unhindered.start looks edge found] at last
      cases last

/-- Under the condition the structures in final states are those that the event
completes. -/
theorem Unhindered.isFinal_iff (clean : Clean nfa earlier engine)
    (unhindered : Unhindered nfa engine input)
    (stepped : engine.Stepped nfa input next published processed fresh) {value : Nat} :
    (∃ str ∈ processed.map Processed.str ++ fresh,
        isFinal nfa str.currentState = true ∧ str.equality = value) ↔
      value ∈ published.map NFAStructure.equality := by
  rw [stepped.isFinal_iff, stepped.mem_published clean.invariant]
  constructor
  · rintro (⟨str, pool, last | final, rfl⟩ | ⟨str, new, final, _⟩)
    · exact ⟨str, pool, last, rfl⟩
    · rw [clean.unfinished str pool] at final
      cases final
    · rw [unhindered.fresh_unfinished stepped str new] at final
      cases final
  · rintro ⟨str, pool, last, rfl⟩
    exact .inl ⟨str, pool, .inl last, rfl⟩

/-- The condition is enough for the call. -/
theorem Unhindered.unblocked (clean : Clean nfa earlier engine)
    (unhindered : Unhindered nfa engine input)
    (stepped : engine.Stepped nfa input next published processed fresh) :
    Unblocked nfa earlier ⟨engine, input, next, published⟩ := by
  constructor
  · intro str member
    obtain ⟨touched, stays⟩ := stepped.mem_pool.mp member
    cases final : isFinal nfa str.currentState with
    | false => rfl
    | true =>
        have emitted := (unhindered.isFinal_iff clean stepped).mp ⟨str, touched, final, rfl⟩
        obtain ⟨before, pool, last, same⟩ :=
          (stepped.mem_published clean.invariant).mp emitted
        rw [← same] at stays
        exact absurd (unhindered.sweep before pool last) stays
  · intro handled before str touched final
    cases Option.some.inj (before.symm.trans stepped.before)
    rw [publishedIn_concat, List.map_append]
    apply List.mem_append_right
    exact (unhindered.isFinal_iff clean stepped).mp ⟨str, touched, final, rfl⟩
  · rw [publishedIn_concat, List.map_append]
    apply clean.once.append (stepped.published_nodup clean.invariant)
    intro value old new
    obtain ⟨str, pool, _, same⟩ := (stepped.mem_published clean.invariant).mp new
    rw [← same] at old
    exact clean.gone _ old (List.mem_map_of_mem pool)
  · intro str pool chain last leads final passes
    apply (stepped.equality_mem_published clean.invariant pool).mpr
    exact (leads.completes_iff final passes).mpr
      (unhindered.chain str pool chain last leads final passes)

/-- The condition is needed for the call. -/
theorem Unblocked.unhindered (clean : Clean nfa earlier engine)
    (unblocked : Unblocked nfa earlier ⟨engine, input, next, published⟩)
    (stepped : engine.Stepped nfa input next published processed fresh) :
    Unhindered nfa engine input := by
  have removed : ∀ str ∈ processed.map Processed.str ++ fresh,
      isFinal nfa str.currentState = true →
      str.equality ∈ (engine.due input).take (engine.removes input) := by
    intro str touched final
    by_contra stays
    have left := unblocked.leaves str (stepped.mem_pool.mpr ⟨touched, stays⟩)
    rw [final] at left
    cases left
  constructor
  · intro looks edge found
    cases final : isFinal nfa edge.destState with
    | false => rfl
    | true =>
        obtain ⟨str, new, last⟩ := stepped.fresh_isFinal_iff.mpr ⟨looks, edge, found, final⟩
        have due := removed str (List.mem_append_right _ new) last
        have below := clean.invariant.due_lt _ (List.mem_of_mem_take due)
        rw [(stepped.startedNew.1 str new).2] at below
        exact absurd below (Nat.lt_irrefl _)
  · intro str pool chain last leads final passes
    have emitted := unblocked.waiting str pool chain last leads final passes
    have completed := (stepped.equality_mem_published clean.invariant pool).mp emitted
    exact (leads.completes_iff final passes).mp completed
  · intro str pool last
    obtain ⟨after, touched, final, same⟩ :=
      stepped.isFinal_iff.mpr (.inl ⟨str, pool, .inl last, rfl⟩)
    rw [← same]
    exact removed after touched final

/-- A call that keeps the promise forgets no structure. -/
theorem Unblocked.clean (clean : Clean nfa earlier engine)
    (unblocked : Unblocked nfa earlier ⟨engine, input, next, published⟩)
    (stepped : engine.Stepped nfa input next published processed fresh) :
    Clean nfa (earlier ++ [⟨engine, input, next, published⟩]) next := by
  have unhindered := unblocked.unhindered clean stepped
  constructor
  · exact stepped.invariant clean.invariant
  · exact unblocked.leaves
  · exact unblocked.once
  · intro value member
    rw [publishedIn_concat, List.map_append] at member
    rw [stepped.sequence]
    apply Nat.lt_add_right
    rcases List.mem_append.mp member with old | new
    · exact clean.below value old
    · obtain ⟨str, pool, _, rfl⟩ := (stepped.mem_published clean.invariant).mp new
      exact clean.invariant.pool str pool
  · intro value member
    rw [publishedIn_concat, List.map_append] at member
    rcases List.mem_append.mp member with old | new
    · exact stepped.not_mem_next (clean.below value old) (clean.gone value old)
    · intro inside
      obtain ⟨str, pool, rfl⟩ := List.mem_map.mp inside
      have stays := (stepped.mem_pool.mp pool).2
      obtain ⟨before, among, last, same⟩ := (stepped.mem_published clean.invariant).mp new
      rw [← same] at stays
      exact stays (unhindered.sweep before among last)

end

/-- On every automaton the engines keep the promise in a run exactly if every call of
the run meets the condition, and on a well-formed automaton they return from every
call. -/
theorem engine_unblocked {engine : Engine Event Related} (fresh : engine.Fresh nfa)
    (inputs : List (Event × IterationOrder (NFAStructure Event Related))) :
    (Transducer.Throughout (Unblocked nfa)
        (Transducer.calls Engine.runEngine engine inputs) ↔
      ∀ call ∈ Transducer.calls Engine.runEngine engine inputs,
        Unhindered nfa call.before call.input) ∧
    (WellFormed nfa →
      (Transducer.calls Engine.runEngine engine inputs).length = inputs.length) := by
  constructor
  · apply Transducer.throughout_iff (Clean nfa)
    · intro earlier state input next clean ran
      obtain ⟨processed, started, stepped⟩ := Engine.stepped_of_runEngine clean.invariant ran
      exact ⟨fun unblocked => unblocked.unhindered clean stepped,
        fun unhindered => unhindered.unblocked clean stepped⟩
    · intro earlier state input next clean ran unblocked
      obtain ⟨processed, started, stepped⟩ := Engine.stepped_of_runEngine clean.invariant ran
      exact unblocked.clean clean stepped
    · exact ⟨fresh.invariant, by simp [fresh.pool], List.nodup_nil,
        fun _ member => absurd member List.not_mem_nil,
        fun _ member => absurd member List.not_mem_nil⟩
  · intro wellFormed
    apply Engine.length_calls wellFormed fresh.invariant
    simp [Engine.InReached, fresh.pool]

/-- An event, met in the order of the pool. -/
def inOrder (event : Nat) : Nat × IterationOrder (NFAStructure Nat Unit) :=
  (event, .same _)

theorem engine_unblocked_linear :
    (Transducer.Throughout (Unblocked negationExampleNFA)
        (Transducer.calls Engine.runEngine (.NextMatches ⟨.new negationExampleNFA 0, []⟩)
          [inOrder 1, inOrder 2, inOrder 9, inOrder 1, inOrder 3]) ↔
      ∀ call ∈ Transducer.calls Engine.runEngine
          (.NextMatches ⟨.new negationExampleNFA 0, []⟩)
          [inOrder 1, inOrder 2, inOrder 9, inOrder 1, inOrder 3],
        Unhindered negationExampleNFA call.before call.input) ∧
    (WellFormed negationExampleNFA →
      (Transducer.calls Engine.runEngine (.NextMatches ⟨.new negationExampleNFA 0, []⟩)
        [inOrder 1, inOrder 2, inOrder 9, inOrder 1, inOrder 3]).length = 5) :=
  engine_unblocked ⟨rfl, rfl, rfl⟩ _

/-- One event, from the start state directly to the final one. -/
def immediateNFA : NFAController Nat Unit where
  states := [.start "A" [⟨⟨0, fun event _ => event = 1⟩, 1⟩], .final "B"]
  start := 0
  init := none
  update related _ _ := related

/-- One event, and then neither 8 nor 9. -/
def twoNegationsNFA : NFAController Nat Unit where
  states := [.start "A" [⟨⟨0, fun event _ => event = 1⟩, 1⟩],
    .negation "M" [⟨⟨1, fun event _ => event = 8⟩, 2⟩],
    .negation "N" [⟨⟨2, fun event _ => event = 9⟩, 3⟩],
    .final "B"]
  start := 0
  init := none
  update related _ _ := related

/-- The event 1 and then the event 2. -/
def twoEventsNFA : NFAController Nat Unit where
  states := [.start "A" [⟨⟨0, fun event _ => event = 1⟩, 1⟩],
    .normal "B" [⟨⟨1, fun event _ => event = 2⟩, 2⟩], .final "C"]
  start := 0
  init := none
  update related _ _ := related

theorem twoNegations_chain :
    Chain twoNegationsNFA 1 [[⟨⟨1, fun event _ => event = 8⟩, 2⟩],
      [⟨⟨2, fun event _ => event = 9⟩, 3⟩]] 3 :=
  .more rfl (.single rfl rfl (by decide))

/-- A structure that is complete at once stays in the pool, a structure in front of two
negation states does not complete with an event that satisfies neither predicate, and
of two structures that complete with one event the second stays in the pool. -/
theorem engine_not_unblocked :
    ¬ Transducer.Throughout (Unblocked immediateNFA)
        (Transducer.calls Engine.runEngine (.FirstMatch (.new immediateNFA 0))
          [inOrder 1]) ∧
    ¬ Transducer.Throughout (Unblocked twoNegationsNFA)
        (Transducer.calls Engine.runEngine (.FirstMatch (.new twoNegationsNFA 0))
          [inOrder 1, inOrder 5]) ∧
    ¬ Transducer.Throughout (Unblocked twoEventsNFA)
        (Transducer.calls Engine.runEngine (.NextMatches ⟨.new twoEventsNFA 0, []⟩)
          [inOrder 1, inOrder 1, inOrder 2]) := by
  refine ⟨?_, ?_, ?_⟩
  · intro every
    have stays := (every.get 0 rfl).leaves _ List.mem_cons_self
    exact absurd stays (by decide)
  · intro every
    have completes := (every.get 1 rfl).waiting _ List.mem_cons_self _ _
      twoNegations_chain (by decide) (by decide)
    exact absurd completes (by decide)
  · intro every
    have stays := (every.get 2 rfl).leaves _ List.mem_cons_self
    exact absurd stays (by decide)

end CEP

end PipeFabric
