import PipeFabric.Cep.Completion

/-!
# The counter of a Kleene state

A structure counts how often it has taken the loop of each Kleene state, in a `short`
that is never reset.  Along a run the counter of a structure agrees with the number of
calls in which the structure has taken the loop, up to the overflow of the `short`.
-/

namespace PipeFabric

namespace CEP

variable {Event Related : Type}

/-! ## One event -/

/-- Only the counter of the current state changes. -/
theorem lookup_countLoop {current : Nat} {entries counted : List (Nat × Int16)}
    (counts : NFAStructure.countLoop current entries = some counted) (id : Nat) :
    counted.lookup id =
      (entries.lookup id).map fun count => if id = current then count + 1 else count := by
  induction entries generalizing counted with
  | nil => cases counts
  | cons entry entries induction =>
      obtain ⟨key, count⟩ := entry
      rw [NFAStructure.countLoop] at counts
      by_cases here : key = current
      · subst here
        rw [if_pos rfl] at counts
        cases counts
        by_cases same : id = key
        · subst same
          simp
        · have other : (id == key) = false := beq_eq_false_iff_ne.mpr same
          simp [List.lookup_cons, other, same]
      · rw [if_neg here, Option.map_eq_some_iff] at counts
        obtain ⟨rest, counted, rfl⟩ := counts
        have later := induction counted
        by_cases same : id = key
        · subst same
          simp [here]
        · have other : (id == key) = false := beq_eq_false_iff_ne.mpr same
          simpa [List.lookup_cons, other] using later

theorem countLoop_isSome {current : Nat} {entries : List (Nat × Int16)} {count : Int16}
    (present : entries.lookup current = some count) :
    ∃ counted, NFAStructure.countLoop current entries = some counted := by
  induction entries with
  | nil => cases present
  | cons entry entries induction =>
      rw [NFAStructure.countLoop]
      by_cases here : entry.1 = current
      · exact ⟨_, if_pos here⟩
      · have other : (current == entry.1) = false := beq_eq_false_iff_ne.mpr (Ne.symm here)
        rw [List.lookup_cons, other] at present
        obtain ⟨counted, counts⟩ := induction present
        exact ⟨entry :: counted, by rw [if_neg here, counts, Option.map_some]⟩

section

variable {nfa : NFAController Event Related} {event : Event}
  {str added : NFAStructure Event Related}

/-- A forward edge leaves the counters as they are. -/
theorem kleeneState_forward {edge : ForwardEdge Event Related}
    (stepped : str.addEvent nfa event (.Forward edge) = some added) :
    added.kleeneState = str.kleeneState := by
  simp only [NFAStructure.addEvent, NFAStructure.follow, Option.bind_eq_bind,
    Option.bind_eq_some_iff, Option.bind_some] at stepped
  obtain ⟨state, _, reached, _, equal⟩ := stepped
  cases equal
  split
  · rfl
  · rfl

theorem kleeneState_loop {loop : LoopEdge Event Related}
    (stepped : str.addEvent nfa event (.Loop loop) = some added) :
    NFAStructure.countLoop str.currentState str.kleeneState = some added.kleeneState := by
  simp only [NFAStructure.addEvent, NFAStructure.follow, Option.bind_eq_bind,
    Option.bind_eq_some_iff, Option.map_eq_some_iff] at stepped
  obtain ⟨state, _, moved, ⟨counted, counts, rfl⟩, reached, _, equal⟩ := stepped
  cases equal
  rw [counts]
  split
  · rfl
  · rfl

/-- The counters after an event that takes the loop or not. -/
def Counts (nfa : NFAController Event Related) (event : Event)
    (str : NFAStructure Event Related) (after : List (Nat × Int16)) : Prop :=
  if takesLoop nfa event str then
    NFAStructure.countLoop str.currentState str.kleeneState = some after
  else after = str.kleeneState

theorem counts_unchanged {state : NFAState Event Related}
    (present : nfa.states[str.currentState]? = some state)
    (quiet : (edgeFrom nfa event str state).isSome = true ∨
      loopsIn event str state = false) :
    Counts nfa event str str.kleeneState := by
  have none : takesLoop nfa event str = false := by
    rw [takesLoop, present, Option.any_some]
    rcases quiet with edge | loop
    · rw [Option.isNone_eq_false_iff.mpr edge, Bool.false_and]
    · rw [loop, Bool.and_false]
  rw [Counts, none, if_neg Bool.false_ne_true]

/-- A Kleene state is the only one whose loop is counted. -/
theorem counts_checkKleene {checked : Checked Event Related} {stateName : String}
    {edges : List (ForwardEdge Event Related)} {loop : LoopEdge Event Related}
    {spec : KleeneSpecification}
    (present : nfa.states[str.currentState]? = some (.kleene stateName edges loop spec))
    (answered : checkKleene nfa event str edges loop spec = some checked) :
    Counts nfa event str checked.str.kleeneState := by
  simp only [checkKleene, Option.bind_eq_bind, Option.bind_eq_some_iff] at answered
  obtain ⟨forward, leaves, rest⟩ := answered
  have edge : edgeFrom nfa event str (.kleene stateName edges loop spec) =
      if forward then openEdge edges event str.relatedValues else none := by
    simp [edgeFrom, leaves]
  cases tried : (if forward then firstEdge edges event str.relatedValues else none) with
  | some index =>
      rw [tried] at rest
      cases rest
      apply counts_unchanged present
      left
      rw [edge]
      cases forward with
      | false => cases tried
      | true =>
          have found : firstEdge edges event str.relatedValues = some index := tried
          rw [if_pos rfl, openEdge, List.find?_isSome]
          obtain ⟨inside, holds, _⟩ := List.findIdx?_eq_some_iff_getElem.mp found
          exact ⟨_, List.getElem_mem inside, holds⟩
  | none =>
      rw [tried] at rest
      cases holds : loop.predicate event str.relatedValues with
      | false =>
          simp only [holds, Bool.false_eq_true, if_false] at rest
          cases rest
          exact counts_unchanged present (.inr (by simp [loopsIn, holds]))
      | true =>
          simp only [holds, if_true, Option.bind_eq_some_iff] at rest
          obtain ⟨again, may, rest⟩ := rest
          cases again with
          | false =>
              cases rest
              exact counts_unchanged present (.inr (by simp [loopsIn, may]))
          | true =>
              simp only [if_true, Option.bind_eq_some_iff] at rest
              obtain ⟨added, stepped, equal⟩ := rest
              cases equal
              have closed : edgeFrom nfa event str (.kleene stateName edges loop spec) =
                  none := by
                rw [edge]
                cases forward with
                | true => exact firstEdge_eq_none tried
                | false => rfl
              have taken : takesLoop nfa event str = true := by
                rw [takesLoop, present, Option.any_some, closed]
                simp [loopsIn, may, holds]
              rw [Counts, taken, if_pos rfl]
              exact kleeneState_loop stepped

theorem counts_checkPredicate {checked : Checked Event Related}
    (answered : checkPredicate nfa event str = some checked) :
    Counts nfa event str checked.str.kleeneState := by
  simp only [checkPredicate, Option.bind_eq_bind, Option.bind_eq_some_iff] at answered
  obtain ⟨state, present, rest⟩ := answered
  cases state with
  | start _ _ =>
      cases rest
      exact counts_unchanged present (.inr rfl)
  | final _ =>
      cases rest
      exact counts_unchanged present (.inr rfl)
  | normal _ _ =>
      cases rest
      exact counts_unchanged present (.inr rfl)
  | kleene _ _ _ _ => exact counts_checkKleene present rest
  | negation _ _ =>
      have same : checked.str.kleeneState = str.kleeneState := by
        simp only [checkNegation, Option.bind_eq_bind, Option.bind_eq_some_iff] at rest
        obtain ⟨result, _, rest⟩ := rest
        cases result with
        | negated =>
            cases rest
            rfl
        | left current =>
            simp only [Option.bind_eq_some_iff] at rest
            obtain ⟨next, _, rest⟩ := rest
            split at rest
            · cases rest
              rfl
            · split at rest
              · cases rest
                rfl
              · cases rest
                rfl
      rw [same]
      exact counts_unchanged present (.inr rfl)

/-- What `engineProcess` does to the counters. -/
theorem counts_engineProcess {engine : CEPEngine Event Related}
    {entry : Processed Event Related}
    (stepped : NextMatchEngine.engineProcess engine event str = some entry) :
    Counts engine.nfa event str entry.str.kleeneState := by
  simp only [NextMatchEngine.engineProcess, Option.bind_eq_bind,
    Option.bind_eq_some_iff] at stepped
  obtain ⟨checked, answered, rest⟩ := stepped
  have counts := counts_checkPredicate answered
  cases result : checked.result with
  | some index =>
      simp only [result, CEPEngine.checkWindowTime, Bool.not_true, Bool.and_false,
        Bool.false_eq_true, if_false, Option.bind_eq_some_iff] at rest
      obtain ⟨added, taken, equal⟩ := rest
      cases equal
      simp only [CEPEngine.takeEdge, Option.bind_eq_bind, Option.bind_eq_some_iff] at taken
      obtain ⟨state, _, edge, _, taken⟩ := taken
      rw [kleeneState_forward taken]
      exact counts
  | none =>
      rw [result] at rest
      cases rest
      exact counts

end

/-! ## One call -/

/-- Where the structures come from that a call publishes or leaves in the pool. -/
structure Engine.Origins (engine : Engine Event Related)
    (input : Event × IterationOrder (NFAStructure Event Related))
    (next : Engine Event Related) (published : List (NFAStructure Event Related)) :
    Prop where
  published : ∀ str ∈ published, ∃ waiting ∈ engine.toCEPEngine.pool, ∃ entry,
    NextMatchEngine.engineProcess engine.toCEPEngine input.1 waiting = some entry ∧
      entry.fate = .published ∧ entry.str = str
  pool : ∀ str ∈ next.toCEPEngine.pool,
    (∃ waiting ∈ engine.toCEPEngine.pool, ∃ entry,
      NextMatchEngine.engineProcess engine.toCEPEngine input.1 waiting = some entry ∧
        entry.str = str) ∨
    str.equality = engine.toCEPEngine.sequence ∧
      str.kleeneState = engine.toCEPEngine.nfa.getKleeneStates.map fun id => (id, 0)

theorem createStartStructure_pool {engine after : CEPEngine Event Related} {event : Event}
    (stepped : engine.createStartStructure event = some after) :
    ∀ str ∈ after.pool, str ∈ engine.pool ∨
      str.equality = engine.sequence ∧
        str.kleeneState = engine.nfa.getKleeneStates.map fun id => (id, 0) := by
  simp only [CEPEngine.createStartStructure, Option.bind_eq_bind,
    Option.bind_eq_some_iff] at stepped
  obtain ⟨state, _, rest⟩ := stepped
  split at rest
  · cases rest
    exact fun str member => .inl member
  · obtain ⟨added, taken, equal⟩ := Option.bind_eq_some_iff.mp rest
    cases equal
    intro str member
    rcases List.mem_append.mp member with old | new
    · exact .inl old
    · cases List.mem_singleton.mp new
      right
      exact ⟨(extended_of_addEvent_forward taken).equality, kleeneState_forward taken⟩

theorem mem_of_mem_runGCstructures (deletedStructures : List Nat) (i : Nat)
    (pool : List (NFAStructure Event Related)) :
    ∀ str ∈ (NextMatchEngine.runGCstructures i pool deletedStructures).1, str ∈ pool := by
  induction deletedStructures generalizing i pool with
  | nil => exact fun _ member => member
  | cons front deletedStructures induction =>
      rw [NextMatchEngine.runGCstructures]
      split
      · intro str member
        exact List.mem_of_mem_eraseP (induction _ _ str member)
      · exact fun _ member => member

theorem NextMatchEngine.origins {engine next : NextMatchEngine Event Related}
    {input : Event × IterationOrder (NFAStructure Event Related)}
    {published : List (NFAStructure Event Related)}
    (stepped : NextMatchEngine.runEngine input.2 engine input.1 = some (next, published)) :
    (Engine.NextMatches engine).Origins input (.NextMatches next) published := by
  simp only [NextMatchEngine.runEngine, Option.map_eq_some_iff] at stepped
  obtain ⟨handled, before, equal⟩ := stepped
  simp only [NextMatchEngine.beforeSweep, NextMatchEngine.processPool,
    Option.bind_eq_some_iff, Option.map_eq_some_iff] at before
  obtain ⟨looped, ⟨processed, mapped, rfl⟩, after, started, rfl⟩ := before
  cases equal
  have offered : ∀ entry ∈ processed, ∃ waiting ∈ engine.pool,
      NextMatchEngine.engineProcess engine.toCEPEngine input.1 waiting = some entry := by
    intro entry member
    obtain ⟨waiting, among, handled⟩ :=
      ListPairs.exists_of_mem_right (ListPairs.forall₂_of_mapM mapped) member
    exact ⟨waiting, (input.2.perm _).mem_iff.mp among, handled⟩
  constructor
  · intro str emitted
    obtain ⟨entry, member, fate, same⟩ := mem_published_iff.mp emitted
    obtain ⟨waiting, pool, handled⟩ := offered entry member
    exact ⟨waiting, pool, entry, handled, fate, same⟩
  · intro str member
    have before := mem_of_mem_runGCstructures _ _ _ str member
    rcases createStartStructure_pool started str before with old | new
    · obtain ⟨entry, among, same⟩ := List.mem_map.mp old
      obtain ⟨waiting, pool, handled⟩ := offered entry among
      exact .inl ⟨waiting, pool, entry, handled, same⟩
    · exact .inr new

theorem FirstMatchEngine.origins {engine next : CEPEngine Event Related}
    {input : Event × IterationOrder (NFAStructure Event Related)}
    {published : List (NFAStructure Event Related)} (single : engine.pool.length ≤ 1)
    (stepped : FirstMatchEngine.runEngine engine input.1 = some (next, published)) :
    (Engine.FirstMatch engine).Origins input (.FirstMatch next) published := by
  cases pool : engine.pool with
  | nil =>
      simp only [FirstMatchEngine.runEngine, pool, Option.map_eq_some_iff] at stepped
      obtain ⟨after, started, equal⟩ := stepped
      cases equal
      constructor
      · exact fun _ emitted => absurd emitted List.not_mem_nil
      · intro str member
        rcases createStartStructure_pool started str member with old | new
        · rw [pool] at old
          exact absurd old List.not_mem_nil
        · exact .inr new
  | cons str others =>
      rw [pool] at single
      obtain rfl := List.length_eq_zero_iff.mp (Nat.le_zero.mp (Nat.le_of_succ_le_succ single))
      simp only [FirstMatchEngine.runEngine, pool, FirstMatchEngine.engineProcess_eq,
        Option.map_eq_some_iff] at stepped
      obtain ⟨entry, handled, equal⟩ := stepped
      cases equal
      have inside : str ∈ (Engine.FirstMatch engine).toCEPEngine.pool := by
        rw [show (Engine.FirstMatch engine).toCEPEngine.pool = [str] from pool]
        exact List.mem_singleton_self str
      constructor
      · intro emitted member
        obtain ⟨published, among, fate, same⟩ := mem_published_iff.mp member
        cases List.mem_singleton.mp among
        exact ⟨str, inside, entry, handled, fate, same⟩
      · intro left member
        have kept : left ∈ [entry.str] := by
          revert member
          cases fate : entry.fate with
          | kept => simp [Engine.toCEPEngine]
          | published => simp [Engine.toCEPEngine]
          | deleted => simp [Engine.toCEPEngine]
        cases List.mem_singleton.mp kept
        exact .inl ⟨str, inside, entry, handled, rfl⟩

theorem Engine.origins_of_runEngine {nfa : NFAController Event Related}
    {engine next : Engine Event Related}
    {input : Event × IterationOrder (NFAStructure Event Related)}
    {published : List (NFAStructure Event Related)} (invariant : engine.Invariant nfa)
    (stepped : engine.runEngine input = some (next, published)) :
    engine.Origins input next published := by
  cases engine with
  | FirstMatch engine =>
      obtain ⟨after, ran, equal⟩ := Option.map_eq_some_iff.mp stepped
      cases equal
      exact FirstMatchEngine.origins (invariant.single engine rfl) ran
  | NextMatches engine =>
      obtain ⟨after, ran, equal⟩ := Option.map_eq_some_iff.mp stepped
      cases equal
      exact NextMatchEngine.origins ran

end CEP

end PipeFabric
