import PipeFabric.Cep.Completion
import PipeFabric.Cep.FirstMatch

/-!
# Next matches of a linear automaton

On a linear automaton the next-match engine carries attempts on side by side: one
starts at every event that qualifies, and each goes its own way.  What the sweep does
not remove stays in the pool.  A complete partial match that is left there does no
harm, but one that was ruled out goes on.  As long as an event that rules an attempt
out is the only reason to sweep, the engine publishes the matches of all attempts.
-/

namespace PipeFabric

namespace CEP

open ListPairs (exists_of_mem_left)
open SequencePattern (Progress advance arrive arriveAll everyMatch)

variable {Event Related : Type} {nfa : NFAController Event Related}

/-! ### One partial match -/

/-- A partial match in front of a normal state is an attempt that waits. -/
inductive Attempting (nfa : NFAController Event Related)
    (str : NFAStructure Event Related) : Progress Event (Option Related) → Prop where
  | waiting {step : PatternStep Event Related} {later : List (PatternStep Event Related)} :
      str.complete = false → Path nfa str.currentState (step :: later) →
      Attempting nfa str (.waiting str.relatedValues str.matched (step.toStep nfa)
        (later.map (PatternStep.toStep nfa)))

/-- What has become of a partial match, and of the attempt that it stands for. -/
inductive Followed (nfa : NFAController Event Related)
    (entry : Processed Event Related) :
    Progress Event (Option Related) × List (List Event) → Prop where
  | waiting {progress : Progress Event (Option Related)} :
      entry.fate = .kept → Attempting nfa entry.str progress →
      Followed nfa entry (progress, [])
  | completed : entry.fate = .published → Followed nfa entry (.idle, [entry.str.matched])
  | excluded : entry.fate = .deleted → Followed nfa entry (.idle, [])

theorem Path.isFinal_eq {id : Nat} {steps : List (PatternStep Event Related)}
    (path : Path nfa id steps) : isFinal nfa id = steps.isEmpty := by
  obtain ⟨state, present, final⟩ := path.exists_state
  rw [isFinal_of_state present]
  cases steps with
  | nil => exact decide_eq_true (final.mpr rfl)
  | cons step later =>
      exact decide_eq_false fun last => List.cons_ne_nil _ _ (final.mp last)

theorem openEdge_singleton (edge : ForwardEdge Event Related) (event : Event)
    (related : Option Related) :
    openEdge [edge] event related =
      if edge.predicate event related then some edge else none := by
  cases held : edge.predicate event related <;> simp [openEdge, held]

section

variable {event : Event} {str : NFAStructure Event Related} {target : Nat}
  {step : PatternStep Event Related}

/-- In front of a normal state the chain rules the partial match out, or the edge of
the normal state is tried. -/
theorem Waits.nextEdge_eq (waits : Waits nfa str.currentState step target) :
    nextEdge nfa event str =
      if (step.toStep nfa).negated event str.relatedValues then none
      else if (step.toStep nfa).positive event str.relatedValues then some step.positive
      else none := by
  obtain ⟨stateName, decides⟩ := waits.target_eq
  have rounds := Nat.le_of_lt waits.length_lt
  generalize current : str.currentState = id at waits
  cases waits with
  | normal state =>
      subst current
      rw [nextEdge, state, Option.bind_some, edgeFrom, openEdge_singleton]
      rfl
  | @negation _ _ stateName edge positive negated state rest =>
      have left := (Waits.negation state rest).leaveChain (List.cons_ne_nil _ _)
        rounds event str.relatedValues
      subst current
      rw [nextEdge, state, Option.bind_some, edgeFrom, chainResult, left]
      cases out : (PatternStep.toStep nfa ⟨edge :: negated, positive⟩).negated event
          str.relatedValues with
      | true => rfl
      | false =>
          simp only [edgeBehindChain, decides, Option.bind_some, NFAState.getStateType,
            reduceCtorEq, if_false, Bool.false_eq_true, NFAState.getForwardEdges,
            openEdge_singleton]
          rfl

theorem Waits.ruledOut_eq (waits : Waits nfa str.currentState step target) :
    ruledOut nfa event str = (step.toStep nfa).negated event str.relatedValues := by
  have rounds := Nat.le_of_lt waits.length_lt
  generalize current : str.currentState = id at waits
  cases waits with
  | normal state =>
      subst current
      rw [ruledOut, state, Option.any_some]
      rfl
  | @negation _ _ stateName edge positive negated state rest =>
      have left := (Waits.negation state rest).leaveChain (List.cons_ne_nil _ _)
        rounds event str.relatedValues
      subst current
      rw [ruledOut, state, Option.any_some, chainResult, left]
      cases (PatternStep.toStep nfa ⟨edge :: negated, positive⟩).negated event
          str.relatedValues <;> simp [NFAState.getStateType]

theorem Waits.takesLoop_eq (waits : Waits nfa str.currentState step target) :
    takesLoop nfa event str = false := by
  rw [takesLoop]
  cases waits with
  | normal state => rw [state, Option.any_some, loopsIn, Bool.and_false]
  | negation state _ => rw [state, Option.any_some, loopsIn, Bool.and_false]

end

section

variable {event : Event} {str : NFAStructure Event Related}
  {progress : Progress Event (Option Related)} {entry : Processed Event Related}

/-- Where an event has been bound the attempt waits for the next one, if there is a
next one. -/
theorem attempting_of_extended {added : NFAStructure Event Related} {edgeID : Int}
    {destState : Nat} {steps : List (PatternStep Event Related)}
    (extended : Extended nfa event edgeID destState str added)
    (incomplete : str.complete = false) (path : Path nfa destState steps)
    (more : steps ≠ []) :
    Attempting nfa added (advance (nfa.update str.relatedValues edgeID event)
        (str.matched ++ [event]) (steps.map (PatternStep.toStep nfa))).1 ∧
      (advance (nfa.update str.relatedValues edgeID event)
        (str.matched ++ [event]) (steps.map (PatternStep.toStep nfa))).2 = [] := by
  have complete : added.complete = false := by
    rw [extended.complete, incomplete, path.isFinal_eq]
    simpa using more
  rw [← extended.currentState] at path
  rw [← extended.relatedValues, ← extended.matched]
  cases steps with
  | nil => exact absurd rfl more
  | cons step later => exact ⟨.waiting complete path, rfl⟩

/-- An event does to a partial match what it does to the attempt. -/
theorem Attempting.followed (pattern : SequencePattern.Pattern Event (Option Related))
    (attempting : Attempting nfa str progress) (handled : Handled nfa event str entry) :
    Followed nfa entry (arrive pattern progress event) := by
  cases attempting with
  | @waiting step later incomplete path =>
      cases path with
      | @step _ target _ _ waits rest =>
          have edge : nextEdge nfa event str = _ := waits.nextEdge_eq
          have out : ruledOut nfa event str = _ := waits.ruledOut_eq
          cases handled with
          | @taken taken added next extended =>
              rw [next] at edge
              cases negated : (step.toStep nfa).negated event str.relatedValues with
              | true => simp [negated] at edge
              | false =>
                  cases met : (step.toStep nfa).positive event str.relatedValues with
                  | false => simp [negated, met] at edge
                  | true =>
                      simp only [negated, met, Bool.false_eq_true, if_false, if_true,
                        Option.some.injEq] at edge
                      subst edge
                      simp only [arrive, negated, met, Bool.false_eq_true, if_false, if_true]
                      have complete : added.complete = later.isEmpty := by
                        rw [extended.complete, incomplete, rest.isFinal_eq, Bool.false_or]
                      cases later with
                      | nil =>
                          have matched : str.matched ++ [event] = added.matched :=
                            extended.matched.symm
                          rw [matched]
                          exact .completed (if_pos complete)
                      | cons following later =>
                          obtain ⟨waits, silent⟩ := attempting_of_extended extended incomplete
                            rest (List.cons_ne_nil _ _)
                          exact .waiting (if_neg (by simp [complete])) waits
          | looped _ loop _ _ => cases loop.symm.trans waits.takesLoop_eq
          | excluded _ _ ruled =>
              rw [ruled] at out
              simp only [arrive, ← out, if_true]
              exact .excluded rfl
          | idle next _ free =>
              rw [free] at out
              rw [next, ← out] at edge
              have unmet : (step.toStep nfa).positive event str.relatedValues = false := by
                simpa using edge
              simp only [arrive, ← out, unmet, Bool.false_eq_true, if_false]
              exact .waiting rfl (.waiting incomplete (.step waits rest))

end

/-! ### The pool -/

/-- A partial match that is not in a final state. -/
def isLive (nfa : NFAController Event Related) (str : NFAStructure Event Related) : Bool :=
  !isFinal nfa str.currentState

/-- A partial match that stays in the pool for the next event. -/
def isCarriedOn (nfa : NFAController Event Related) (entry : Processed Event Related) :
    Bool :=
  entry.fate = .kept && isLive nfa entry.str

section

variable {event : Event} {str : NFAStructure Event Related}
  {progress : Progress Event (Option Related)} {entry : Processed Event Related}

theorem Attempting.isLive (attempting : Attempting nfa str progress) :
    isLive nfa str = true := by
  cases attempting with
  | waiting _ path =>
      rw [CEP.isLive, path.isFinal_eq]
      rfl

theorem Attempting.isWaiting (attempting : Attempting nfa str progress) :
    progress.isWaiting = true := by
  cases attempting with
  | waiting _ _ => rfl

theorem Attempting.alone (attempting : Attempting nfa str progress) :
    List.Forall₂ (Attempting nfa) [str] ([progress].filter Progress.isWaiting) := by
  rw [List.filter_cons_of_pos attempting.isWaiting]
  exact .cons attempting .nil

/-- An event is due for a partial match when it ends the attempt. -/
theorem Attempting.isDue_eq (attempting : Attempting nfa str progress) :
    isDue nfa event str = progress.isEnded event := by
  cases attempting with
  | @waiting step later _ path =>
      cases path with
      | @step _ target _ _ waits rest =>
          rw [isDue, completes, waits.nextEdge_eq, waits.ruledOut_eq]
          cases negated : (step.toStep nfa).negated event str.relatedValues with
          | true => simp [Progress.isEnded, negated]
          | false =>
              cases met : (step.toStep nfa).positive event str.relatedValues with
              | false => simp [Progress.isEnded, negated, met]
              | true => simp [Progress.isEnded, negated, met, rest.isFinal_eq]

theorem Attempting.ruledOut_eq (attempting : Attempting nfa str progress) :
    ruledOut nfa event str = progress.isExcluded event := by
  cases attempting with
  | waiting _ path =>
      cases path with
      | step waits _ => exact waits.ruledOut_eq

/-- An event does nothing to a partial match in a final state. -/
theorem isDue_of_final (final : isLive nfa str = false) : isDue nfa event str = false := by
  have ends : isFinal nfa str.currentState = true := by simpa [isLive] using final
  rw [isDue, completes_of_none (nextEdge_isFinal ends), Bool.false_or, ruledOut]
  rw [isFinal] at ends
  cases present : nfa.states[str.currentState]? with
  | none => rfl
  | some state =>
      rw [present, Option.any_some, decide_eq_true_iff] at ends
      rw [Option.any_some, ends]
      rfl

theorem Handled.of_final (final : isLive nfa str = false) (sound : Sound nfa str)
    (handled : Handled nfa event str entry) :
    entry.fate ≠ .published ∧ isLive nfa entry.str = false := by
  have ends : isFinal nfa str.currentState = true := by simpa [isLive] using final
  have idle : nextEdge nfa event str = none := nextEdge_isFinal ends
  have nothing := completes_of_none idle
  constructor
  · rw [Ne, handled.published_iff sound, nothing]
    exact Bool.false_ne_true
  · rw [isLive, handled.isFinal_eq, nothing, ends]
    rfl

theorem Followed.published_eq {arrived : Progress Event (Option Related) × List (List Event)}
    (followed : Followed nfa entry arrived) :
    (NextMatchEngine.published [entry]).map NFAStructure.matched = arrived.2 := by
  cases followed with
  | waiting kept _ => simp [NextMatchEngine.published, kept]
  | completed fate => simp [NextMatchEngine.published, fate]
  | excluded fate => simp [NextMatchEngine.published, fate]

theorem Followed.carriedOn {arrived : Progress Event (Option Related) × List (List Event)}
    (followed : Followed nfa entry arrived) :
    List.Forall₂ (Attempting nfa) (([entry].filter (isCarriedOn nfa)).map Processed.str)
      ([arrived.1].filter Progress.isWaiting) := by
  cases followed with
  | waiting kept attempting =>
      have stays : isCarriedOn nfa entry = true := by
        simp [isCarriedOn, kept, attempting.isLive]
      rw [List.filter_cons_of_pos stays]
      exact attempting.alone
  | completed fate =>
      rw [List.filter_cons_of_neg (by simp [isCarriedOn, fate])]
      exact .nil
  | excluded fate =>
      rw [List.filter_cons_of_neg (by simp [isCarriedOn, fate])]
      exact .nil

end

/-- What the loop over the pool does to the attempts. -/
theorem forall₂_followed (pattern : SequencePattern.Pattern Event (Option Related))
    {event : Event}
    {offered : List (NFAStructure Event Related)}
    {processed : List (Processed Event Related)}
    {attempts : List (Progress Event (Option Related))}
    (handled : List.Forall₂ (Handled nfa event) offered processed)
    (sound : ∀ str ∈ offered, Sound nfa str)
    (alike : List.Forall₂ (Attempting nfa) (offered.filter (isLive nfa)) attempts) :
    List.Forall₂ (Attempting nfa) ((processed.filter (isCarriedOn nfa)).map Processed.str)
        ((attempts.map fun progress => (arrive pattern progress event).1).filter
          Progress.isWaiting) ∧
      (NextMatchEngine.published processed).map NFAStructure.matched =
        attempts.flatMap fun progress => (arrive pattern progress event).2 := by
  induction handled generalizing attempts with
  | nil =>
      cases alike
      exact ⟨.nil, rfl⟩
  | @cons str entry offered processed here _ induction =>
      obtain ⟨holds, rest⟩ := List.forall_mem_cons.mp sound
      have carried : (entry :: processed).filter (isCarriedOn nfa) =
          [entry].filter (isCarriedOn nfa) ++ processed.filter (isCarriedOn nfa) :=
        List.filter_append [entry] processed
      have emitted : NextMatchEngine.published (entry :: processed) =
          NextMatchEngine.published [entry] ++ NextMatchEngine.published processed := by
        simp only [NextMatchEngine.published, ← List.map_append, ← List.filter_append,
          List.singleton_append]
      rw [carried, emitted, List.map_append, List.map_append]
      cases live : isLive nfa str with
      | true =>
          rw [List.filter_cons_of_pos live] at alike
          cases alike with
          | @cons _ progress _ attempts attempting later =>
              obtain ⟨waits, published⟩ := induction rest later
              have followed := attempting.followed pattern here
              refine ⟨?_, ?_⟩
              · rw [List.map_cons, ← List.singleton_append (l := attempts.map _),
                  List.filter_append]
                exact List.rel_append followed.carriedOn waits
              · rw [List.flatMap_cons, ← followed.published_eq, published]
      | false =>
          rw [List.filter_cons_of_neg (by simp [live])] at alike
          obtain ⟨waits, published⟩ := induction rest alike
          obtain ⟨silent, final⟩ := here.of_final live holds
          rw [List.filter_cons_of_neg (by simp [isCarriedOn, final]), published]
          exact ⟨waits, by simp [NextMatchEngine.published, silent]⟩

/-- A new partial match is a new attempt. -/
theorem Started.attempting {pattern : LinearPattern Event Related}
    (linear : Linear nfa pattern) {event : Event} {sequence : Nat}
    {fresh : List (NFAStructure Event Related)}
    (started : Started nfa event sequence fresh) :
    List.Forall₂ (Attempting nfa) fresh
        ([(arrive (pattern.toPattern nfa) .idle event).1].filter Progress.isWaiting) ∧
      (arrive (pattern.toPattern nfa) .idle event).2 = [] := by
  obtain ⟨stateName, start⟩ := linear.start
  have edge : startEdge nfa event =
      if pattern.first.predicate event none then some pattern.first else none := by
    rw [startEdge, start, Option.bind_some]
    apply openEdge_singleton
  have first : (pattern.toPattern nfa).first event = pattern.first.predicate event none := rfl
  cases started with
  | nothing none =>
      rw [none] at edge
      have closed : pattern.first.predicate event Option.none = false := by
        cases held : pattern.first.predicate event Option.none with
        | false => rfl
        | true => simp [held] at edge
      rw [closed] at first
      simp only [arrive, first, Bool.false_eq_true, if_false]
      exact ⟨.nil, trivial⟩
  | @created taken added some extended =>
      rw [some] at edge
      cases held : pattern.first.predicate event none with
      | false => simp [held] at edge
      | true =>
          simp only [held, if_true, Option.some.injEq] at edge
          subst edge
          rw [held] at first
          obtain ⟨waits, silent⟩ :=
            attempting_of_extended extended rfl linear.path linear.normal
          simp only [arrive, first, if_true]
          exact ⟨waits.alone, silent⟩

/-! ### The sweep -/

/-- Whenever an event rules an attempt out, nothing else is left to be swept.  Of those
left from earlier events and those that the event ends, one half stays for the next
event. -/
def SweptInTime (pattern : SequencePattern.Pattern Event (Option Related)) :
    List (Progress Event (Option Related)) → Nat → List Event → Prop
  | _, _, [] => True
  | waiting, backlog, event :: events =>
      ((∃ progress ∈ waiting, progress.isExcluded event = true) →
        backlog + (waiting.filter (Progress.isEnded event)).length ≤ 1) ∧
      SweptInTime pattern (arriveAll pattern waiting event).1
        ((backlog + (waiting.filter (Progress.isEnded event)).length) / 2) events

/-- The live partial matches in the pool are the attempts that wait, and those that the
sweep has left on the list are in final states. -/
structure Concurrent (nfa : NFAController Event Related)
    (engine : NextMatchEngine Event Related)
    (waiting : List (Progress Event (Option Related))) : Prop where
  invariant : (Engine.NextMatches engine).Invariant nfa
  reached : (Engine.NextMatches engine).InReached nfa
  attempts : ∃ attempts, List.Forall₂ (Attempting nfa) (engine.pool.filter (isLive nfa))
    attempts ∧ attempts.Perm waiting
  listed : ∀ str ∈ engine.pool, str.equality ∈ engine.deletedStructures →
    isLive nfa str = false

section

variable {engine next : NextMatchEngine Event Related}
  {waiting : List (Progress Event (Option Related))}
  {input : Event × IterationOrder (NFAStructure Event Related)}
  {published : List (NFAStructure Event Related)}
  {processed : List (Processed Event Related)} {fresh : List (NFAStructure Event Related)}

/-- The attempts in the order in which the iterator meets the pool. -/
theorem Concurrent.offered (concurrent : Concurrent nfa engine waiting)
    (order : IterationOrder (NFAStructure Event Related)) :
    ∃ attempts,
      List.Forall₂ (Attempting nfa) ((order.arrange engine.pool).filter (isLive nfa))
        attempts ∧ attempts.Perm waiting := by
  obtain ⟨attempts, alike, same⟩ := concurrent.attempts
  have order := (order.perm engine.pool).filter (isLive nfa)
  obtain ⟨aligned, pairs, perm⟩ := List.perm_comp_forall₂ order alike
  exact ⟨aligned, pairs, perm.trans same⟩

theorem length_filter_of_attempting {strs : List (NFAStructure Event Related)}
    {attempts : List (Progress Event (Option Related))}
    (alike : List.Forall₂ (Attempting nfa) strs attempts) (event : Event) :
    (strs.filter (isDue nfa event)).length =
      (attempts.filter (Progress.isEnded event)).length := by
  induction alike with
  | nil => rfl
  | cons here _ induction =>
      rw [List.filter_cons, List.filter_cons, here.isDue_eq]
      split
      · rw [List.length_cons, List.length_cons, induction]
      · exact induction

/-- What is due after the event is what was left and what the event ends. -/
theorem Concurrent.length_due (concurrent : Concurrent nfa engine waiting) :
    ((Engine.NextMatches engine).due input).length =
      engine.deletedStructures.length +
        (waiting.filter (Progress.isEnded input.1)).length := by
  obtain ⟨attempts, alike, same⟩ := concurrent.offered input.2
  have live : ∀ str, isDue nfa input.1 str = true →
      isDue nfa input.1 str && isLive nfa str := by
    intro str due
    cases final : isLive nfa str with
    | true => rw [due, Bool.and_true]
    | false => cases due.symm.trans (isDue_of_final final)
  have filtered : (input.2.arrange engine.pool).filter (isDue nfa input.1) =
      ((input.2.arrange engine.pool).filter (isLive nfa)).filter (isDue nfa input.1) := by
    rw [List.filter_filter]
    apply List.filter_congr
    intro str _
    exact Bool.eq_iff_iff.mpr ⟨live str, fun both => (Bool.and_eq_true_iff.mp both).1⟩
  rw [Engine.due, concurrent.invariant.automaton, List.length_append, List.length_map]
  rw [← (same.filter _).length_eq, ← length_filter_of_attempting alike]
  exact congrArg (engine.deletedStructures.length + List.length ·) filtered

/-- A partial match that is ruled out is the only one to be swept. -/
theorem Concurrent.swept (concurrent : Concurrent nfa engine waiting)
    (inTime : (∃ progress ∈ waiting, progress.isExcluded input.1 = true) →
      engine.deletedStructures.length +
        (waiting.filter (Progress.isEnded input.1)).length ≤ 1)
    {str : NFAStructure Event Related} (member : str ∈ engine.pool)
    (out : ruledOut nfa input.1 str = true) :
    ((Engine.NextMatches engine).due input).take
        ((Engine.NextMatches engine).removes input) =
      (Engine.NextMatches engine).due input := by
  obtain ⟨attempts, alike, same⟩ := concurrent.attempts
  have due : isDue nfa input.1 str = true := by rw [isDue, out, Bool.or_true]
  have live : isLive nfa str = true := by
    cases final : isLive nfa str with
    | true => rfl
    | false => cases due.symm.trans (isDue_of_final final)
  obtain ⟨progress, among, attempting⟩ :=
    exists_of_mem_left alike (List.mem_filter.mpr ⟨member, live⟩)
  have few := inTime ⟨progress, same.mem_iff.mp among, attempting.ruledOut_eq.symm.trans out⟩
  rw [← concurrent.length_due] at few
  apply List.take_of_length_le
  rw [Engine.removes]
  omega

/-- A partial match that goes on is not due. -/
theorem Concurrent.not_mem_due (concurrent : Concurrent nfa engine waiting)
    (stepped : (Engine.NextMatches engine).Stepped nfa input (.NextMatches next) published
      processed fresh)
    {entry : Processed Event Related} (member : entry ∈ processed)
    (carried : isCarriedOn nfa entry = true) :
    entry.str.equality ∉ (Engine.NextMatches engine).due input := by
  obtain ⟨str, pool, handled⟩ := stepped.origin member
  obtain ⟨kept, live⟩ := Bool.and_eq_true_iff.mp carried
  have fate := of_decide_eq_true kept
  rw [handled.equality]
  intro due
  rcases List.mem_append.mp due with left | ended
  · have final := concurrent.listed str pool left
    have stays := (handled.of_final final (concurrent.invariant.sound str pool)).2
    cases live.symm.trans stays
  · obtain ⟨other, among, same⟩ := List.mem_map.mp ended
    obtain ⟨offered, ends⟩ := List.mem_filter.mp among
    have inside := (Engine.offered_perm (.NextMatches engine) input.2).mem_iff.mp offered
    rw [concurrent.invariant.eq_of_equality inside pool same,
      concurrent.invariant.automaton, isDue, Bool.or_eq_true,
      ← handled.published_iff (concurrent.invariant.sound str pool),
      ← handled.deleted_iff, fate] at ends
    rcases ends with published | deleted
    · cases published
    · cases deleted

/-- A live partial match that is not swept goes on. -/
theorem Concurrent.isCarriedOn_iff (concurrent : Concurrent nfa engine waiting)
    (inTime : (∃ progress ∈ waiting, progress.isExcluded input.1 = true) →
      engine.deletedStructures.length +
        (waiting.filter (Progress.isEnded input.1)).length ≤ 1)
    (stepped : (Engine.NextMatches engine).Stepped nfa input (.NextMatches next) published
      processed fresh)
    {entry : Processed Event Related} (member : entry ∈ processed) :
    isLive nfa entry.str = true ∧ entry.str.equality ∉
        ((Engine.NextMatches engine).due input).take
          ((Engine.NextMatches engine).removes input) ↔
      isCarriedOn nfa entry = true := by
  constructor
  · intro stays
    obtain ⟨live, left⟩ := stays
    obtain ⟨str, pool, handled⟩ := stepped.origin member
    cases fate : entry.fate with
    | kept => simp [isCarriedOn, fate, live]
    | published =>
        have last := (handled.published_iff (concurrent.invariant.sound str pool)).mp fate
        simp [isLive, handled.isFinal_eq, last] at live
    | deleted =>
        have out := handled.deleted_iff.mp fate
        rw [concurrent.swept inTime pool out, handled.equality] at left
        apply absurd _ left
        apply List.mem_append_right
        apply List.mem_map_of_mem
        apply List.mem_filter.mpr
        refine ⟨(Engine.offered_perm (.NextMatches engine) input.2).mem_iff.mpr pool, ?_⟩
        rw [concurrent.invariant.automaton, isDue, out, Bool.or_true]
  · intro carried
    refine ⟨(Bool.and_eq_true_iff.mp carried).2, fun swept => ?_⟩
    exact concurrent.not_mem_due stepped member carried (List.mem_of_mem_take swept)

/-- The live partial matches after a call. -/
theorem Concurrent.filter_pool (concurrent : Concurrent nfa engine waiting)
    (inTime : (∃ progress ∈ waiting, progress.isExcluded input.1 = true) →
      engine.deletedStructures.length +
        (waiting.filter (Progress.isEnded input.1)).length ≤ 1)
    (stepped : (Engine.NextMatches engine).Stepped nfa input (.NextMatches next) published
      processed fresh)
    (live : ∀ str ∈ fresh, isLive nfa str = true) :
    next.pool.filter (isLive nfa) =
      (processed.filter (isCarriedOn nfa)).map Processed.str ++ fresh := by
  have pool : next.pool = _ := stepped.pool
  rw [pool, List.filter_filter, List.filter_append, List.filter_map]
  congr 1
  · congr 1
    apply List.filter_congr
    intro entry member
    have iff := concurrent.isCarriedOn_iff inTime stepped member
    rw [Bool.eq_iff_iff, ← iff, Function.comp_apply, Bool.and_eq_true, decide_eq_true_iff]
  · apply List.filter_eq_self.mpr
    intro str member
    rw [Bool.and_eq_true, decide_eq_true_iff]
    refine ⟨live str member, fun swept => ?_⟩
    have below := concurrent.invariant.due_lt _ (List.mem_of_mem_take swept)
    rw [(stepped.startedNew.1 str member).2] at below
    exact Nat.lt_irrefl _ below

/-- One call is one event for all the attempts. -/
theorem Concurrent.runEngine {pattern : LinearPattern Event Related}
    (linear : Linear nfa pattern) (concurrent : Concurrent nfa engine waiting)
    (input : Event × IterationOrder (NFAStructure Event Related))
    (inTime : (∃ progress ∈ waiting, progress.isExcluded input.1 = true) →
      engine.deletedStructures.length +
        (waiting.filter (Progress.isEnded input.1)).length ≤ 1) :
    ∃ next, NextMatchEngine.runEngine input.2 engine input.1 = some next ∧
      Concurrent nfa next.1 (arriveAll (pattern.toPattern nfa) waiting input.1).1 ∧
      next.1.deletedStructures.length = (engine.deletedStructures.length +
        (waiting.filter (Progress.isEnded input.1)).length) / 2 ∧
      (next.2.map NFAStructure.matched).Perm
        (arriveAll (pattern.toPattern nfa) waiting input.1).2 := by
  have automaton : engine.nfa = nfa := concurrent.invariant.automaton
  have wellFormed : WellFormed engine.nfa := by
    rw [automaton]
    exact linear.wellFormed
  have inside : ∀ str ∈ engine.pool, Reached engine.nfa str.currentState := by
    rw [automaton]
    exact concurrent.reached
  obtain ⟨⟨next, published⟩, ran⟩ :=
    NextMatchEngine.runEngine_returns wellFormed inside input.2 input.1
  obtain ⟨processed, fresh, stepped⟩ :=
    Engine.stepped_of_nextMatches concurrent.invariant ran
  obtain ⟨attempts, alike, same⟩ := concurrent.offered input.2
  have handled : List.Forall₂ (Handled nfa input.1) (input.2.arrange engine.pool) processed :=
    stepped.handled
  obtain ⟨carried, emitted⟩ := forall₂_followed (pattern.toPattern nfa) handled
    (concurrent.invariant.sound_offered input.2) alike
  obtain ⟨started, silent⟩ := Started.attempting linear (stepped.started)
  have live : ∀ str ∈ fresh, isLive nfa str = true := by
    intro str member
    obtain ⟨progress, _, attempting⟩ := exists_of_mem_left started member
    exact attempting.isLive
  have pool := concurrent.filter_pool inTime stepped live
  obtain ⟨states, outputs⟩ :=
    SequencePattern.arriveAll_perm (pattern.toPattern nfa) same input.1
  refine ⟨(next, published), ran, ⟨stepped.invariant concurrent.invariant,
    stepped.inReached linear.wellFormed concurrent.reached, ?_, ?_⟩, ?_, ?_⟩
  · refine ⟨_, ?_, states⟩
    have both := List.rel_append carried started
    rw [pool]
    simpa [arriveAll, List.map_map, Function.comp_def] using both
  · intro str member left
    rw [show next.deletedStructures = _ from stepped.deleted] at left
    have due := List.mem_of_mem_drop left
    cases final : isLive nfa str with
    | false => rfl
    | true =>
        have among : str ∈ next.pool.filter (isLive nfa) := List.mem_filter.mpr ⟨member, final⟩
        rw [pool] at among
        rcases List.mem_append.mp among with old | new
        · obtain ⟨entry, inside, rfl⟩ := List.mem_map.mp old
          obtain ⟨entered, goes⟩ := List.mem_filter.mp inside
          exact absurd due (concurrent.not_mem_due stepped entered goes)
        · have below := concurrent.invariant.due_lt _ due
          rw [(stepped.startedNew.1 str new).2] at below
          exact absurd below (Nat.lt_irrefl _)
  · rw [show next.deletedStructures = _ from stepped.deleted, List.length_drop,
      Engine.removes, concurrent.length_due]
    omega
  · rw [show published = _ from stepped.published, emitted]
    apply List.Perm.trans _ outputs
    simp [arriveAll, silent, List.flatMap_map]

end

/-- On every stream in which an event that rules an attempt out finds nothing else to be
swept the engine publishes the matches of all attempts. -/
theorem Concurrent.tryRun {pattern : LinearPattern Event Related}
    (linear : Linear nfa pattern)
    (inputs : List (Event × IterationOrder (NFAStructure Event Related)))
    {engine : NextMatchEngine Event Related}
    {waiting : List (Progress Event (Option Related))}
    (concurrent : Concurrent nfa engine waiting)
    (inTime : SweptInTime (pattern.toPattern nfa) waiting engine.deletedStructures.length
      (inputs.map Prod.fst)) :
    ∃ final, Transducer.tryRun (fun engine input =>
        NextMatchEngine.runEngine input.2 engine input.1) engine inputs = some final ∧
      (final.2.map NFAStructure.matched).Perm
        (Transducer.run (arriveAll (pattern.toPattern nfa)) waiting
          (inputs.map Prod.fst)).2 := by
  induction inputs generalizing engine waiting with
  | nil => exact ⟨(engine, []), rfl, .refl _⟩
  | cons input inputs induction =>
      obtain ⟨now, later⟩ := inTime
      obtain ⟨next, ran, continues, backlog, emitted⟩ :=
        concurrent.runEngine linear input now
      rw [← backlog] at later
      obtain ⟨final, rest, published⟩ := induction continues later
      refine ⟨(final.1, next.2 ++ final.2), ?_, ?_⟩
      · simp [Transducer.tryRun, ran, rest]
      · rw [List.map_append]
        exact emitted.append published

/-- An engine that has seen nothing carries no attempt on. -/
theorem Concurrent.of_fresh {engine : NextMatchEngine Event Related}
    (fresh : (Engine.NextMatches engine).Fresh nfa) : Concurrent nfa engine [] := by
  have empty : engine.pool = [] := fresh.pool
  refine ⟨fresh.invariant, ?_, ⟨[], ?_, .refl _⟩, ?_⟩
  · intro str member
    cases fresh.pool ▸ member
  · rw [empty]
    exact .nil
  · intro str member
    rw [empty] at member
    cases member

/-- Where nothing is ruled out it does no harm that a part of the complete partial
matches stays in the pool. -/
theorem sweptInTime_of_isPositive {pattern : SequencePattern.Pattern Event (Option Related)}
    (steps : ∀ step ∈ pattern.steps, step.IsPositive)
    {waiting : List (Progress Event (Option Related))}
    (positive : ∀ progress ∈ waiting, progress.IsPositive) (backlog : Nat)
    (events : List Event) : SweptInTime pattern waiting backlog events := by
  induction events generalizing waiting backlog with
  | nil => trivial
  | cons event events induction =>
      refine ⟨?_, induction (SequencePattern.arriveAll_isPositive steps positive event) _⟩
      intro excluded
      obtain ⟨progress, member, out⟩ := excluded
      cases out.symm.trans ((positive progress member).isExcluded event)

/-- On an automaton without negation states the engine publishes the matches of all
attempts on every stream. -/
theorem positiveMatches_eq_everyMatch {pattern : LinearPattern Event Related}
    (linear : Linear nfa pattern) (positive : ∀ step ∈ pattern.steps, step.negated = [])
    {engine : NextMatchEngine Event Related}
    (fresh : (Engine.NextMatches engine).Fresh nfa)
    (inputs : List (Event × IterationOrder (NFAStructure Event Related))) :
    ∃ final, Transducer.tryRun (fun engine input =>
        NextMatchEngine.runEngine input.2 engine input.1) engine inputs = some final ∧
      (final.2.map NFAStructure.matched).Perm
        (everyMatch (pattern.toPattern nfa) (inputs.map Prod.fst)) := by
  have steps : ∀ step ∈ (pattern.toPattern nfa).steps, step.IsPositive := by
    intro step member event related
    obtain ⟨asked, among, rfl⟩ := List.mem_map.mp member
    rw [PatternStep.toStep, positive asked among]
    rfl
  obtain ⟨final, ran, published⟩ := (Concurrent.of_fresh fresh).tryRun linear inputs
    (sweptInTime_of_isPositive steps (fun _ member => absurd member List.not_mem_nil) _ _)
  refine ⟨final, ran, published.trans ?_⟩
  exact SequencePattern.run_arriveAll (fun _ member => absurd member List.not_mem_nil) _

/-- On every stream in which an event that rules an attempt out finds nothing else to be
swept, and in whatever order the pool is met, the engine publishes the matches of all
attempts, each once. -/
theorem nextMatches_eq_everyMatch {pattern : LinearPattern Event Related}
    (linear : Linear nfa pattern) {engine : NextMatchEngine Event Related}
    (fresh : (Engine.NextMatches engine).Fresh nfa)
    (inputs : List (Event × IterationOrder (NFAStructure Event Related)))
    (inTime : SweptInTime (pattern.toPattern nfa) [] 0 (inputs.map Prod.fst)) :
    ∃ final, Transducer.tryRun (fun engine input =>
        NextMatchEngine.runEngine input.2 engine input.1) engine inputs = some final ∧
      (final.2.map NFAStructure.matched).Perm
        (everyMatch (pattern.toPattern nfa) (inputs.map Prod.fst)) := by
  have nothing : engine.deletedStructures.length = 0 := by
    rw [show engine.deletedStructures = [] from fresh.deleted]
    rfl
  rw [← nothing] at inTime
  obtain ⟨final, ran, published⟩ :=
    (Concurrent.of_fresh fresh).tryRun linear inputs inTime
  refine ⟨final, ran, published.trans ?_⟩
  exact SequencePattern.run_arriveAll (fun _ member => absurd member List.not_mem_nil) _

/-- The event 9 rules out one attempt, and 3 completes two others at once. -/
theorem nextMatches_eq_everyMatch_negation :
    ∃ final, Transducer.tryRun (fun engine input =>
        NextMatchEngine.runEngine input.2 engine input.1)
        (⟨.new negationExampleNFA 0, []⟩ : NextMatchEngine Nat Unit)
        [inOrder 1, inOrder 2, inOrder 9, inOrder 1, inOrder 1, inOrder 2, inOrder 3] =
          some final ∧
      (final.2.map NFAStructure.matched).Perm
        (everyMatch (negationExample.toPattern negationExampleNFA) [1, 2, 9, 1, 1, 2, 3]) := by
  apply nextMatches_eq_everyMatch negationExample_linear ⟨rfl, rfl, rfl⟩
  exact ⟨by decide, by decide, by decide, by decide, by decide, by decide, by decide, trivial⟩

end CEP

end PipeFabric
