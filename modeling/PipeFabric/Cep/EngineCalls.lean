import PipeFabric.Library.ListPairs
import PipeFabric.Library.Transducer
import PipeFabric.Cep.EngineSteps

/-!
# Calls of the engines

A call of `runEngine` offers the event to the partial matches in the pool, can start
a new one, and removes some of those that are complete or ruled out.  What it removes
is given by the state before the call: the first-match engine clears its pool, and the
next-match engine removes one half of the partial matches that are due.
-/

namespace PipeFabric

namespace CEP

open ListPairs (exists_of_mem_left exists_of_mem_right forall₂_of_mapM)

variable {Event Related : Type}

/-! ### The loops -/

/-- `i` grows while the list gets shorter, so the loop ends half-way. -/
theorem runGCstructures_eq (deletedStructures : List Nat) (i : Nat)
    (pool : List (NFAStructure Event Related)) :
    NextMatchEngine.runGCstructures i pool deletedStructures =
      ((deletedStructures.take ((deletedStructures.length + 1 - i) / 2)).foldl
          NextMatchEngine.removeValue pool,
        deletedStructures.drop ((deletedStructures.length + 1 - i) / 2)) := by
  induction deletedStructures generalizing i pool with
  | nil => simp [NextMatchEngine.runGCstructures]
  | cons front deletedStructures induction =>
      rw [NextMatchEngine.runGCstructures]
      by_cases more : i < (front :: deletedStructures).length
      · have half : ((front :: deletedStructures).length + 1 - i) / 2 =
            (deletedStructures.length + 1 - (i + 1)) / 2 + 1 := by
          simp only [List.length_cons] at more ⊢
          omega
        rw [if_pos more, induction, half]
        rfl
      · have half : ((front :: deletedStructures).length + 1 - i) / 2 = 0 := by
          simp only [List.length_cons] at more ⊢
          omega
        rw [if_neg more, half]
        rfl

/-- With pairwise different values there is at most one partial match to remove. -/
theorem removeValue_eq_filter (value : Nat) (pool : List (NFAStructure Event Related))
    (distinct : (pool.map NFAStructure.equality).Nodup) :
    NextMatchEngine.removeValue pool value =
      pool.filter fun str => str.equality ≠ value := by
  induction pool with
  | nil => rfl
  | cons str pool induction =>
      obtain ⟨fresh, rest⟩ := List.nodup_cons.mp distinct
      by_cases same : str.equality = value
      · have others : pool.filter (fun str => str.equality ≠ value) = pool := by
          apply List.filter_eq_self.mpr
          intro other member
          apply decide_eq_true
          rintro rfl
          exact fresh (List.mem_map.mpr ⟨other, member, same.symm⟩)
        rw [NextMatchEngine.removeValue, List.eraseP_cons_of_pos (by simpa using same),
          List.filter_cons_of_neg (by simpa using same), others]
      · have later := induction rest
        rw [NextMatchEngine.removeValue] at later
        rw [NextMatchEngine.removeValue, List.eraseP_cons_of_neg (by simpa using same),
          List.filter_cons_of_pos (by simpa using same), later]

theorem foldl_removeValue_eq_filter (values : List Nat)
    (pool : List (NFAStructure Event Related))
    (distinct : (pool.map NFAStructure.equality).Nodup) :
    values.foldl NextMatchEngine.removeValue pool =
      pool.filter fun str => str.equality ∉ values := by
  induction values generalizing pool with
  | nil => simp
  | cons value values induction =>
      have kept : ((pool.filter fun str => str.equality ≠ value).map
          NFAStructure.equality).Nodup :=
        distinct.sublist (List.filter_sublist.map _)
      rw [List.foldl_cons, removeValue_eq_filter value pool distinct, induction _ kept,
        List.filter_filter]
      congr 1
      funext str
      simp [Bool.and_comm]

/-! ### Starting a partial match -/

/-- The edge along which a new partial match starts. -/
def startEdge (nfa : NFAController Event Related) (event : Event) :
    Option (ForwardEdge Event Related) :=
  nfa.states[nfa.start]?.bind fun state => openEdge state.getForwardEdges event none

/-- The partial match that the event starts, if any. -/
inductive Started (nfa : NFAController Event Related) (event : Event) (sequence : Nat) :
    List (NFAStructure Event Related) → Prop where
  | nothing : startEdge nfa event = none → Started nfa event sequence []
  | created {edge : ForwardEdge Event Related} {added : NFAStructure Event Related} :
      startEdge nfa event = some edge →
      Extended nfa event edge.edgeID edge.destState (.new nfa sequence) added →
      Started nfa event sequence [added]

/-- What is common to the states of an engine before and after it starts a partial
match. -/
theorem started_of_createStartStructure {engine after : CEPEngine Event Related}
    {event : Event} (stepped : engine.createStartStructure event = some after) :
    ∃ fresh, Started engine.nfa event engine.sequence fresh ∧
      after = { engine with
        pool := engine.pool ++ fresh
        sequence := engine.sequence + fresh.length } := by
  simp only [CEPEngine.createStartStructure, Option.bind_eq_bind,
    Option.bind_eq_some_iff] at stepped
  obtain ⟨state, present, rest⟩ := stepped
  have edge : startEdge engine.nfa event = openEdge state.getForwardEdges event none := by
    rw [startEdge, present, Option.bind_some]
  rw [← openEdge] at rest
  cases found : openEdge state.getForwardEdges event none with
  | none =>
      rw [found] at rest
      cases rest
      exact ⟨[], .nothing (edge.trans found), by simp⟩
  | some taken =>
      rw [found] at rest
      simp only [Option.bind_eq_some_iff] at rest
      obtain ⟨added, extended, equal⟩ := rest
      cases equal
      exact ⟨[added], .created (edge.trans found) (extended_of_addEvent_forward extended), rfl⟩

namespace Started

variable {nfa : NFAController Event Related} {event : Event} {sequence : Nat}
  {fresh : List (NFAStructure Event Related)}

theorem equality (started : Started nfa event sequence fresh) :
    ∀ str ∈ fresh, str.equality = sequence := by
  cases started with
  | nothing _ => exact fun _ member => absurd member List.not_mem_nil
  | created _ extended =>
      have same := extended.equality
      simpa [NFAStructure.new] using same

theorem sound (started : Started nfa event sequence fresh) :
    ∀ str ∈ fresh, Sound nfa str := by
  cases started with
  | nothing _ => exact fun _ member => absurd member List.not_mem_nil
  | created _ extended => simpa using extended.sound rfl

theorem length_le (started : Started nfa event sequence fresh) : fresh.length ≤ 1 := by
  cases started with
  | nothing _ => exact Nat.zero_le 1
  | created _ _ => exact Nat.le_refl 1

/-- A partial match is complete from the start when its first edge leads to a final
state. -/
theorem isFinal_iff (started : Started nfa event sequence fresh) :
    (∃ str ∈ fresh, isFinal nfa str.currentState = true) ↔
      ∃ edge, startEdge nfa event = some edge ∧ isFinal nfa edge.destState = true := by
  cases started with
  | nothing none => simp [none]
  | created some extended => simp [some, extended.currentState]

end Started

/-! ### One call -/

namespace Engine

/-- The partial matches on the list of those to be deleted. -/
def deletedStructures : Engine Event Related → List Nat
  | .FirstMatch _ => []
  | .NextMatches engine => engine.deletedStructures

/-- The partial matches that the event is offered to. -/
def offered (engine : Engine Event Related)
    (order : IterationOrder (NFAStructure Event Related)) :
    List (NFAStructure Event Related) :=
  match engine with
  | .FirstMatch engine => engine.pool
  | .NextMatches engine => order.arrange engine.pool

/-- Whether the engine looks for a new match. -/
def starts : Engine Event Related → Bool
  | .FirstMatch engine => engine.pool.isEmpty
  | .NextMatches _ => true

/-- The partial matches that are complete or ruled out: those that are still on the
list, and those that the event is the last one of or rules out. -/
def due (engine : Engine Event Related)
    (input : Event × IterationOrder (NFAStructure Event Related)) : List Nat :=
  engine.deletedStructures ++
    ((engine.offered input.2).filter (isDue engine.toCEPEngine.nfa input.1)).map
      NFAStructure.equality

/-- How many of them the engine removes. -/
def removes (engine : Engine Event Related)
    (input : Event × IterationOrder (NFAStructure Event Related)) : Nat :=
  match engine with
  | .FirstMatch _ => (engine.due input).length
  | .NextMatches _ => ((engine.due input).length + 1) / 2

/-- The pool once the event has been handled, and before anything is removed from
it. -/
def beforeRemoval (engine : Engine Event Related)
    (input : Event × IterationOrder (NFAStructure Event Related)) :
    Option (List (NFAStructure Event Related)) :=
  match engine with
  | .FirstMatch engine =>
      match engine.pool with
      | [] => (engine.createStartStructure input.1).map CEPEngine.pool
      | str :: others =>
          (NextMatchEngine.engineProcess engine input.1 str).map fun processed =>
            processed.str :: others
  | .NextMatches engine =>
      (NextMatchEngine.beforeSweep input.2 engine input.1).map fun handled =>
        handled.1.pool

/-- What always holds of an engine. -/
structure Invariant (nfa : NFAController Event Related) (engine : Engine Event Related) :
    Prop where
  automaton : engine.toCEPEngine.nfa = nfa
  sound : ∀ str ∈ engine.toCEPEngine.pool, Sound nfa str
  distinct : (engine.toCEPEngine.pool.map NFAStructure.equality).Nodup
  pool : ∀ str ∈ engine.toCEPEngine.pool, str.equality < engine.toCEPEngine.sequence
  deleted : ∀ value ∈ engine.deletedStructures, value < engine.toCEPEngine.sequence
  single : ∀ first, engine = .FirstMatch first → first.pool.length ≤ 1

/-- What a call does: each partial match is handled, at most one is started, and those
in front of the list of the due ones are removed. -/
structure Stepped (nfa : NFAController Event Related) (engine : Engine Event Related)
    (input : Event × IterationOrder (NFAStructure Event Related))
    (next : Engine Event Related) (published : List (NFAStructure Event Related))
    (processed : List (Processed Event Related))
    (fresh : List (NFAStructure Event Related)) : Prop where
  handled : List.Forall₂ (Handled nfa input.1) (engine.offered input.2) processed
  started : if engine.starts then
      Started nfa input.1 engine.toCEPEngine.sequence fresh else fresh = []
  published : published = NextMatchEngine.published processed
  automaton : next.toCEPEngine.nfa = nfa
  sequence : next.toCEPEngine.sequence = engine.toCEPEngine.sequence + fresh.length
  before : engine.beforeRemoval input = some (processed.map Processed.str ++ fresh)
  pool : next.toCEPEngine.pool = (processed.map Processed.str ++ fresh).filter fun str =>
    str.equality ∉ (engine.due input).take (engine.removes input)
  listed : ∀ list, engine = .NextMatches list →
    ∀ handled, NextMatchEngine.beforeSweep input.2 list input.1 = some handled →
      handled.1.deletedStructures = engine.due input
  deleted : next.deletedStructures = (engine.due input).drop (engine.removes input)
  first : (∃ first, engine = .FirstMatch first) ↔ ∃ first, next = .FirstMatch first

end Engine

/-! ### What the loop over the pool hands on -/

section

variable {nfa : NFAController Event Related} {event : Event}
  {offered : List (NFAStructure Event Related)} {processed : List (Processed Event Related)}

theorem map_equality_of_handled (handled : List.Forall₂ (Handled nfa event) offered processed) :
    (processed.map Processed.str).map NFAStructure.equality =
      offered.map NFAStructure.equality := by
  induction handled with
  | nil => rfl
  | cons first _ induction =>
      rw [List.map_cons, List.map_cons, List.map_cons, first.equality, induction]

theorem sound_of_handled (handled : List.Forall₂ (Handled nfa event) offered processed)
    (sound : ∀ str ∈ offered, Sound nfa str) :
    ∀ str ∈ processed.map Processed.str, Sound nfa str := by
  induction handled with
  | nil => exact fun _ member => absurd member List.not_mem_nil
  | cons first _ induction =>
      obtain ⟨holds, rest⟩ := List.forall_mem_cons.mp sound
      exact List.forall_mem_cons.mpr ⟨first.sound holds, induction rest⟩

/-- Put on the list are those that the event completes or rules out. -/
theorem deleted_of_handled (handled : List.Forall₂ (Handled nfa event) offered processed)
    (sound : ∀ str ∈ offered, Sound nfa str) :
    NextMatchEngine.deleted processed =
      (offered.filter (isDue nfa event)).map NFAStructure.equality := by
  induction handled with
  | nil => rfl
  | @cons str entry _ _ first _ induction =>
      obtain ⟨holds, rest⟩ := List.forall_mem_cons.mp sound
      have later := induction rest
      rw [NextMatchEngine.deleted] at later ⊢
      have published := first.published_iff holds
      have excluded := first.deleted_iff
      cases leaves : isDue nfa event str with
      | true =>
          have gone : entry.fate ≠ .kept := by
            intro stays
            rw [stays] at published excluded
            rw [isDue, Bool.or_eq_true, ← published, ← excluded] at leaves
            simp at leaves
          rw [List.filter_cons_of_pos (by simpa using gone),
            List.filter_cons_of_pos leaves, List.map_cons, List.map_cons, later,
            first.equality]
      | false =>
          have stays : entry.fate = .kept := by
            rw [isDue, Bool.or_eq_false_iff, ← Bool.not_eq_true, ← Bool.not_eq_true,
              ← published, ← excluded] at leaves
            cases fate : entry.fate with
            | kept => rfl
            | published => exact absurd fate leaves.1
            | deleted => exact absurd fate leaves.2
          rw [List.filter_cons_of_neg (by simpa using stays),
            List.filter_cons_of_neg (by simpa using leaves), later]

theorem mem_published_iff {str : NFAStructure Event Related} :
    str ∈ NextMatchEngine.published processed ↔
      ∃ entry ∈ processed, entry.fate = .published ∧ entry.str = str := by
  simp [NextMatchEngine.published, and_assoc]

end

/-! ### Every call is such a step -/

/-- The first-match engine clears its pool where the next-match engine uses the list. -/
theorem FirstMatchEngine.engineProcess_eq (engine : CEPEngine Event Related)
    (event : Event) (str : NFAStructure Event Related)
    (others : List (NFAStructure Event Related)) :
    FirstMatchEngine.engineProcess engine event str others =
      (NextMatchEngine.engineProcess engine event str).map fun processed =>
        ({ engine with
            pool := if processed.fate = .kept then processed.str :: others else []
            counter := engine.counter + (NextMatchEngine.published [processed]).length },
          NextMatchEngine.published [processed]) := by
  simp only [FirstMatchEngine.engineProcess, NextMatchEngine.engineProcess,
    Option.bind_eq_bind, CEPEngine.checkWindowTime, Bool.not_true, Bool.and_false,
    Bool.false_eq_true, if_false]
  cases checkPredicate engine.nfa event str with
  | none => rfl
  | some checked =>
      simp only [Option.bind_some]
      cases checked.result with
      | none =>
          by_cases negated : checked.type = .Negation <;>
            simp [negated, NextMatchEngine.published]
      | some index =>
          dsimp only
          cases engine.takeEdge event checked.str index with
          | none => rfl
          | some added =>
              cases complete : added.complete <;>
                simp [complete, NextMatchEngine.published]

namespace Engine

variable {nfa : NFAController Event Related} {engine next : Engine Event Related}
  {input : Event × IterationOrder (NFAStructure Event Related)}
  {published : List (NFAStructure Event Related)}

theorem offered_perm (engine : Engine Event Related)
    (order : IterationOrder (NFAStructure Event Related)) :
    (engine.offered order).Perm engine.toCEPEngine.pool := by
  cases engine with
  | FirstMatch engine => exact .refl _
  | NextMatches engine => exact order.perm _

theorem Invariant.sound_offered (invariant : engine.Invariant nfa)
    (order : IterationOrder (NFAStructure Event Related)) :
    ∀ str ∈ engine.offered order, Sound nfa str := by
  intro str member
  exact invariant.sound str ((engine.offered_perm order).mem_iff.mp member)

/-- The values stay pairwise different. -/
theorem distinct_of_handled (invariant : engine.Invariant nfa)
    {order : IterationOrder (NFAStructure Event Related)} {event : Event}
    {processed : List (Processed Event Related)}
    {fresh : List (NFAStructure Event Related)}
    (handled : List.Forall₂ (Handled nfa event) (engine.offered order) processed)
    (new : ∀ str ∈ fresh, str.equality = engine.toCEPEngine.sequence)
    (single : fresh.length ≤ 1) :
    ((processed.map Processed.str ++ fresh).map NFAStructure.equality).Nodup := by
  have values := map_equality_of_handled handled
  rw [List.map_append, values]
  apply List.Nodup.append
  · exact ((engine.offered_perm order).map _).nodup_iff.mpr invariant.distinct
  · cases fresh with
    | nil => exact List.nodup_nil
    | cons str rest =>
        cases rest with
        | nil => exact List.nodup_singleton _
        | cons _ _ => simp at single
  · intro value old recent
    obtain ⟨str, member, rfl⟩ := List.mem_map.mp old
    obtain ⟨other, started, same⟩ := List.mem_map.mp recent
    have below := invariant.pool str ((engine.offered_perm order).mem_iff.mp member)
    rw [← same, new other started] at below
    exact Nat.lt_irrefl _ below

/-- A call of the next-match engine. -/
theorem stepped_of_nextMatches {engine next : NextMatchEngine Event Related}
    (invariant : (Engine.NextMatches engine).Invariant nfa)
    (stepped : NextMatchEngine.runEngine input.2 engine input.1 = some (next, published)) :
    ∃ processed fresh,
      (Engine.NextMatches engine).Stepped nfa input (.NextMatches next) published
        processed fresh := by
  simp only [NextMatchEngine.runEngine, Option.map_eq_some_iff] at stepped
  obtain ⟨handled, before, equal⟩ := stepped
  have beforeRemoval := before
  simp only [NextMatchEngine.beforeSweep, NextMatchEngine.processPool,
    Option.bind_eq_some_iff, Option.map_eq_some_iff] at before
  obtain ⟨looped, ⟨processed, mapped, rfl⟩, after, started, rfl⟩ := before
  obtain ⟨fresh, new, rfl⟩ := started_of_createStartStructure started
  have same : engine.nfa = nfa := invariant.automaton
  subst same
  have all : List.Forall₂ (Handled engine.nfa input.1)
      (input.2.arrange engine.pool) processed :=
    (forall₂_of_mapM mapped).imp fun _ _ => handled_of_engineProcess
  have due : engine.deletedStructures ++ NextMatchEngine.deleted processed =
      (Engine.NextMatches engine).due input := by
    rw [deleted_of_handled all (invariant.sound_offered input.2)]
    rfl
  have distinct := distinct_of_handled invariant all new.equality new.length_le
  cases equal
  refine ⟨processed, fresh, all, new, rfl, rfl, rfl, ?_, ?_, ?_, ?_, ?_⟩
  · simp only [beforeRemoval, Engine.beforeRemoval, Option.map_some]
  · simp only [toCEPEngine, NextMatchEngine.sweep, runGCstructures_eq, due]
    exact foldl_removeValue_eq_filter _ _ distinct
  · intro list same handled ran
    cases same
    cases Option.some.inj (ran.symm.trans beforeRemoval)
    exact due
  · simp only [deletedStructures, NextMatchEngine.sweep, runGCstructures_eq, due]
    rfl
  · simp

/-- A call of the first-match engine. -/
theorem stepped_of_firstMatch {engine next : CEPEngine Event Related}
    (invariant : (Engine.FirstMatch engine).Invariant nfa)
    (stepped : FirstMatchEngine.runEngine engine input.1 = some (next, published)) :
    ∃ processed fresh,
      (Engine.FirstMatch engine).Stepped nfa input (.FirstMatch next) published
        processed fresh := by
  have same : engine.nfa = nfa := invariant.automaton
  subst same
  have single := invariant.single engine rfl
  cases pool : engine.pool with
  | nil =>
      simp only [FirstMatchEngine.runEngine, pool, Option.map_eq_some_iff] at stepped
      obtain ⟨after, started, equal⟩ := stepped
      have before : (Engine.FirstMatch engine).beforeRemoval input = some after.pool := by
        simp [beforeRemoval, pool, started]
      obtain ⟨fresh, new, rfl⟩ := started_of_createStartStructure started
      cases equal
      refine ⟨[], fresh, ?_, ?_, rfl, rfl, rfl, ?_, ?_, by simp, ?_, ?_⟩
      · rw [show (Engine.FirstMatch engine).offered input.2 = [] from pool]
        exact .nil
      · rw [if_pos (by simp [starts, pool])]
        exact new
      · rw [before, pool]
        rfl
      · simp [toCEPEngine, due, deletedStructures, offered, pool]
      · simp [due, deletedStructures, offered, pool]
      · exact ⟨fun _ => ⟨_, rfl⟩, fun _ => ⟨_, rfl⟩⟩
  | cons str others =>
      rw [pool] at single
      obtain rfl := List.length_eq_zero_iff.mp (Nat.le_zero.mp (Nat.le_of_succ_le_succ single))
      simp only [FirstMatchEngine.runEngine, pool, FirstMatchEngine.engineProcess_eq,
        Option.map_eq_some_iff] at stepped
      obtain ⟨processed, offered, equal⟩ := stepped
      have handled := handled_of_engineProcess offered
      have all : List.Forall₂ (Handled engine.nfa input.1)
          ((Engine.FirstMatch engine).offered input.2) [processed] := by
        rw [show (Engine.FirstMatch engine).offered input.2 = [str] from pool]
        exact .cons handled .nil
      have due : NextMatchEngine.deleted [processed] = (Engine.FirstMatch engine).due input := by
        rw [deleted_of_handled all (invariant.sound_offered input.2)]
        rfl
      have removes : (Engine.FirstMatch engine).removes input =
          ((Engine.FirstMatch engine).due input).length := rfl
      cases equal
      refine ⟨[processed], [], all, ?_, rfl, rfl, rfl, ?_, ?_, by simp, ?_, ?_⟩
      · simp [starts, pool]
      · simp [beforeRemoval, pool, offered]
      · rw [removes, List.take_length, ← due]
        cases fate : processed.fate <;>
          simp [toCEPEngine, NextMatchEngine.deleted, fate]
      · rw [removes, List.drop_length]
        rfl
      · exact ⟨fun _ => ⟨_, rfl⟩, fun _ => ⟨_, rfl⟩⟩

/-- A call of any engine. -/
theorem stepped_of_runEngine (invariant : engine.Invariant nfa)
    (stepped : engine.runEngine input = some (next, published)) :
    ∃ processed fresh, engine.Stepped nfa input next published processed fresh := by
  cases engine with
  | FirstMatch engine =>
      obtain ⟨after, ran, equal⟩ := Option.map_eq_some_iff.mp stepped
      cases equal
      exact stepped_of_firstMatch invariant ran
  | NextMatches engine =>
      obtain ⟨after, ran, equal⟩ := Option.map_eq_some_iff.mp stepped
      cases equal
      exact stepped_of_nextMatches invariant ran

section

variable {processed : List (Processed Event Related)}
  {fresh : List (NFAStructure Event Related)}

theorem Stepped.startedNew (stepped : engine.Stepped nfa input next published processed fresh) :
    (∀ str ∈ fresh, Sound nfa str ∧ str.equality = engine.toCEPEngine.sequence) ∧
      fresh.length ≤ 1 := by
  have started := stepped.started
  cases looks : engine.starts with
  | true =>
      rw [looks, if_pos rfl] at started
      exact ⟨fun str member => ⟨started.sound str member, started.equality str member⟩,
        started.length_le⟩
  | false =>
      rw [looks, if_neg Bool.false_ne_true] at started
      simp [started]

theorem Invariant.due_lt (invariant : engine.Invariant nfa) :
    ∀ value ∈ engine.due input, value < engine.toCEPEngine.sequence := by
  intro value member
  rcases List.mem_append.mp member with waiting | leaving
  · exact invariant.deleted value waiting
  · obtain ⟨str, among, rfl⟩ := List.mem_map.mp leaving
    have offered := (List.mem_filter.mp among).1
    exact invariant.pool str ((engine.offered_perm input.2).mem_iff.mp offered)

theorem Stepped.distinct (invariant : engine.Invariant nfa)
    (stepped : engine.Stepped nfa input next published processed fresh) :
    ((processed.map Processed.str ++ fresh).map NFAStructure.equality).Nodup :=
  distinct_of_handled invariant stepped.handled
    (fun str member => (stepped.startedNew.1 str member).2) stepped.startedNew.2

theorem Stepped.single (invariant : engine.Invariant nfa)
    (stepped : engine.Stepped nfa input next published processed fresh)
    {first : CEPEngine Event Related} (firstMatch : engine = .FirstMatch first) :
    (processed.map Processed.str ++ fresh).length ≤ 1 := by
  subst firstMatch
  have started := stepped.started
  have one := invariant.single first rfl
  have size := stepped.handled.length_eq
  rw [offered] at size
  rw [List.length_append, List.length_map, ← size]
  cases pool : first.pool with
  | nil => simpa using stepped.startedNew.2
  | cons str others =>
      rw [starts, pool, if_neg (by simp)] at started
      rw [pool] at one
      rw [started]
      exact one

/-- Every call keeps the invariant. -/
theorem Stepped.invariant (invariant : engine.Invariant nfa)
    (stepped : engine.Stepped nfa input next published processed fresh) :
    next.Invariant nfa := by
  have later : ∀ str ∈ next.toCEPEngine.pool, str ∈ processed.map Processed.str ++ fresh := by
    rw [stepped.pool]
    exact fun str member => (List.mem_filter.mp member).1
  have sound := sound_of_handled stepped.handled (invariant.sound_offered input.2)
  have values := map_equality_of_handled stepped.handled
  constructor
  · exact stepped.automaton
  · intro str member
    rcases List.mem_append.mp (later str member) with old | new
    · exact sound str old
    · exact (stepped.startedNew.1 str new).1
  · rw [stepped.pool]
    exact (stepped.distinct invariant).sublist (List.filter_sublist.map _)
  · intro str member
    rw [stepped.sequence]
    rcases List.mem_append.mp (later str member) with old | new
    · have value : str.equality ∈ (engine.offered input.2).map NFAStructure.equality := by
        rw [← values]
        exact List.mem_map_of_mem old
      obtain ⟨other, offered, same⟩ := List.mem_map.mp value
      have below := invariant.pool other ((engine.offered_perm input.2).mem_iff.mp offered)
      rw [← same]
      exact Nat.lt_add_right _ below
    · rw [(stepped.startedNew.1 str new).2]
      exact Nat.lt_add_of_pos_right (List.length_pos_of_mem new)
  · intro value member
    rw [stepped.deleted] at member
    rw [stepped.sequence]
    exact Nat.lt_add_right _ (invariant.due_lt value (List.mem_of_mem_drop member))
  · intro first same
    obtain ⟨before, firstMatch⟩ := stepped.first.mpr ⟨first, same⟩
    have pool : first.pool = next.toCEPEngine.pool := by
      rw [same]
      rfl
    rw [pool, stepped.pool]
    exact Nat.le_trans (List.length_filter_le _ _) (stepped.single invariant firstMatch)

/-! ### What a call publishes -/

theorem Invariant.eq_of_equality (invariant : engine.Invariant nfa)
    {str other : NFAStructure Event Related} (member : str ∈ engine.toCEPEngine.pool)
    (inside : other ∈ engine.toCEPEngine.pool) (same : str.equality = other.equality) :
    str = other :=
  List.inj_on_of_nodup_map invariant.distinct member inside same

theorem Stepped.mem_pool (stepped : engine.Stepped nfa input next published processed fresh)
    {str : NFAStructure Event Related} :
    str ∈ next.toCEPEngine.pool ↔
      str ∈ processed.map Processed.str ++ fresh ∧
        str.equality ∉ (engine.due input).take (engine.removes input) := by
  rw [stepped.pool, List.mem_filter, decide_eq_true_iff]

/-- The partial match that an entry was before the call. -/
theorem Stepped.origin (stepped : engine.Stepped nfa input next published processed fresh)
    {entry : Processed Event Related} (member : entry ∈ processed) :
    ∃ str ∈ engine.toCEPEngine.pool, Handled nfa input.1 str entry := by
  obtain ⟨str, offered, handled⟩ := exists_of_mem_right stepped.handled member
  exact ⟨str, (engine.offered_perm input.2).mem_iff.mp offered, handled⟩

/-- What has become of a partial match of the pool. -/
theorem Stepped.entry (stepped : engine.Stepped nfa input next published processed fresh)
    {str : NFAStructure Event Related} (member : str ∈ engine.toCEPEngine.pool) :
    ∃ entry ∈ processed, Handled nfa input.1 str entry :=
  exists_of_mem_left stepped.handled ((engine.offered_perm input.2).mem_iff.mpr member)

/-- A value that has left the pool does not come back. -/
theorem Stepped.not_mem_next (stepped : engine.Stepped nfa input next published processed fresh)
    {value : Nat} (below : value < engine.toCEPEngine.sequence)
    (gone : value ∉ engine.toCEPEngine.pool.map NFAStructure.equality) :
    value ∉ next.toCEPEngine.pool.map NFAStructure.equality := by
  intro inside
  obtain ⟨str, member, rfl⟩ := List.mem_map.mp inside
  rcases List.mem_append.mp (stepped.mem_pool.mp member).1 with kept | started
  · obtain ⟨entry, among, rfl⟩ := List.mem_map.mp kept
    obtain ⟨before, pool, handled⟩ := stepped.origin among
    rw [handled.equality] at gone
    exact gone (List.mem_map_of_mem pool)
  · rw [(stepped.startedNew.1 str started).2] at below
    exact Nat.lt_irrefl _ below

/-- The matches published are those that the event completes. -/
theorem Stepped.mem_published (invariant : engine.Invariant nfa)
    (stepped : engine.Stepped nfa input next published processed fresh) {value : Nat} :
    value ∈ published.map NFAStructure.equality ↔
      ∃ str ∈ engine.toCEPEngine.pool, completes nfa input.1 str = true ∧
        str.equality = value := by
  rw [List.mem_map, stepped.published]
  constructor
  · rintro ⟨str, emitted, rfl⟩
    obtain ⟨entry, member, fate, rfl⟩ := mem_published_iff.mp emitted
    obtain ⟨str, pool, handled⟩ := stepped.origin member
    exact ⟨str, pool, (handled.published_iff (invariant.sound str pool)).mp fate,
      handled.equality.symm⟩
  · rintro ⟨str, pool, last, rfl⟩
    obtain ⟨entry, member, handled⟩ := stepped.entry pool
    have fate := (handled.published_iff (invariant.sound str pool)).mpr last
    exact ⟨entry.str, mem_published_iff.mpr ⟨entry, member, fate, rfl⟩, handled.equality⟩

theorem Stepped.equality_mem_published (invariant : engine.Invariant nfa)
    (stepped : engine.Stepped nfa input next published processed fresh)
    {str : NFAStructure Event Related} (member : str ∈ engine.toCEPEngine.pool) :
    str.equality ∈ published.map NFAStructure.equality ↔
      completes nfa input.1 str = true := by
  rw [stepped.mem_published invariant]
  constructor
  · rintro ⟨other, inside, last, same⟩
    rw [invariant.eq_of_equality member inside same.symm]
    exact last
  · intro last
    exact ⟨str, member, last, rfl⟩

theorem Stepped.published_nodup (invariant : engine.Invariant nfa)
    (stepped : engine.Stepped nfa input next published processed fresh) :
    (published.map NFAStructure.equality).Nodup := by
  have distinct := stepped.distinct invariant
  rw [List.map_append] at distinct
  rw [stepped.published, NextMatchEngine.published]
  exact distinct.of_append_left.sublist ((List.filter_sublist.map _).map _)

/-- What has reached a final state once the event has been handled. -/
theorem Stepped.isFinal_iff (stepped : engine.Stepped nfa input next published processed fresh)
    {value : Nat} :
    (∃ str ∈ processed.map Processed.str ++ fresh,
        isFinal nfa str.currentState = true ∧ str.equality = value) ↔
      (∃ str ∈ engine.toCEPEngine.pool, (completes nfa input.1 str = true ∨
          isFinal nfa str.currentState = true) ∧ str.equality = value) ∨
      (∃ str ∈ fresh, isFinal nfa str.currentState = true ∧ str.equality = value) := by
  constructor
  · rintro ⟨str, touched, final, rfl⟩
    rcases List.mem_append.mp touched with old | new
    · obtain ⟨entry, member, rfl⟩ := List.mem_map.mp old
      obtain ⟨str, pool, handled⟩ := stepped.origin member
      rw [handled.isFinal_eq, Bool.or_eq_true] at final
      exact .inl ⟨str, pool, final, handled.equality.symm⟩
    · exact .inr ⟨str, new, final, rfl⟩
  · rintro (⟨str, pool, final, rfl⟩ | ⟨str, new, final, rfl⟩)
    · obtain ⟨entry, member, handled⟩ := stepped.entry pool
      refine ⟨entry.str, List.mem_append_left _ (List.mem_map_of_mem member), ?_,
        handled.equality⟩
      rw [handled.isFinal_eq, Bool.or_eq_true]
      exact final
    · exact ⟨str, List.mem_append_right _ new, final, rfl⟩

end

/-- A new engine, with or without a window constraint. -/
structure Fresh (nfa : NFAController Event Related) (engine : Engine Event Related) :
    Prop where
  automaton : engine.toCEPEngine.nfa = nfa
  pool : engine.toCEPEngine.pool = []
  deleted : engine.deletedStructures = []

theorem fresh_of_createEngine {sequence : Nat} {strategy : SelectionStrategy}
    (created : createEngine nfa sequence strategy = some engine) : engine.Fresh nfa := by
  cases strategy with
  | FirstMatch =>
      cases created
      exact ⟨rfl, rfl, rfl⟩
  | NextMatches =>
      cases created
      exact ⟨rfl, rfl, rfl⟩
  | AllMatches => cases created
  | ContiyuityMatches => cases created
  | RecentMatch => cases created

theorem Fresh.setWindowConstraint (fresh : engine.Fresh nfa)
    (period fromEvent toEvent : Int) :
    (engine.setWindowConstraint period fromEvent toEvent).Fresh nfa := by
  cases engine with
  | FirstMatch engine => exact ⟨fresh.automaton, fresh.pool, fresh.deleted⟩
  | NextMatches engine => exact ⟨fresh.automaton, fresh.pool, fresh.deleted⟩

theorem Fresh.invariant (fresh : engine.Fresh nfa) : engine.Invariant nfa where
  automaton := fresh.automaton
  sound := by simp [fresh.pool]
  distinct := by simp [fresh.pool]
  pool := by simp [fresh.pool]
  deleted := by simp [fresh.deleted]
  single := by
    rintro first rfl
    rw [show first.pool = [] from fresh.pool]
    exact Nat.zero_le 1

end Engine

end CEP

end PipeFabric
