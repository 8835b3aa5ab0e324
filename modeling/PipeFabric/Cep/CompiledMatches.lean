import PipeFabric.Cep.Compilation
import PipeFabric.Cep.NextMatches

/-!
# From a pattern expression to its matches

The automaton of a straight expression is linear and has no negation states.  So the
next-match engine on it finds what the expression asks for: with every event that can
be the first one of a match it publishes one match that begins there.
-/

namespace PipeFabric

namespace CEP

open SequencePattern (Fits attempt matchAtHead everyMatch)

variable {Event Related : Type}

/-! ### One transition from every state of the spine -/

/-- No transition leaves the state that an opening returns. -/
theorem Opening.returned_source (opening : Opening) (plain : opening.plain = true)
    (numbered : opening.Numbered) : ∀ edge ∈ opening.edges, edge.1 ≠ opening.returned := by
  cases opening with
  | start => exact fun _ member => absurd member List.not_mem_nil
  | seq opening pattern =>
      obtain ⟨_, single⟩ := Bool.and_eq_true_iff.mp plain
      intro edge member
      simp only [edges, List.mem_append, List.mem_singleton] at member
      rcases member with (member | member) | rfl
      · exact (pattern.plain_edges single numbered.operand edge member).1
      · intro same
        have source := (opening.edges_mem edge member).1
        rw [same] at source
        exact numbered.apart source pattern.returned_mem
      · intro same
        apply numbered.apart opening.returned_mem
        rw [show opening.returned = pattern.returned from same]
        exact pattern.returned_mem

theorem Opening.returned_mem_spine (opening : Opening) :
    opening.returned ∈ opening.spine := by
  cases opening with
  | start => exact List.mem_cons_self
  | seq _ _ => exact List.mem_append_right _ List.mem_cons_self

theorem Opening.returned_ne_zero (opening : Opening) (numbered : opening.Numbered)
    (longer : opening ≠ .start) : opening.returned ≠ 0 := by
  cases opening with
  | start => exact absurd rfl longer
  | seq opening pattern =>
      have below := numbered.positive _ (List.mem_append_right _ pattern.returned_mem)
      exact Nat.ne_of_gt below

/-- The transitions from a state in a table. -/
def transitionsFrom (table : List (Nat × Nat)) (id : Nat) : List (Nat × Nat) :=
  table.filter fun transition => transition.1 = id

theorem transitionsFrom_append (first second : List (Nat × Nat)) (id : Nat) :
    transitionsFrom (first ++ second) id =
      transitionsFrom first id ++ transitionsFrom second id :=
  List.filter_append first second

theorem transitionsFrom_eq_nil {table : List (Nat × Nat)} {id : Nat}
    (others : ∀ transition ∈ table, transition.1 ≠ id) : transitionsFrom table id = [] := by
  apply List.filter_eq_nil_iff.mpr
  intro transition member
  simpa using others transition member

/-- The operand that a sequence ends with has no transitions from the states before. -/
theorem Opening.transitionsFrom_seq {opening : Opening} {pattern : Pattern}
    (numbered : (Opening.seq opening pattern).Numbered) {id : Nat}
    (early : id ∈ 0 :: opening.ids) :
    transitionsFrom (Opening.seq opening pattern).edges id =
      transitionsFrom opening.edges id ++
        transitionsFrom [(opening.returned, pattern.returned)] id := by
  have nothing : transitionsFrom pattern.edges id = [] := by
    apply transitionsFrom_eq_nil
    rintro transition member rfl
    exact numbered.apart early (pattern.edges_mem transition member).1
  rw [Opening.edges, transitionsFrom_append, transitionsFrom_append, nothing, List.nil_append]

/-! ### The edges of a state -/

/-- The edge to a state, as `createForwardTransition` makes it. -/
def edgeTo (infos : List (StateInfo Event Related)) (target : Nat) :
    Option (ForwardEdge Event Related) :=
  (infos.find? fun info => info.id = target).bind fun info =>
    info.eptr.map fun edge => { edge with destState := info.nptr }

theorem outEdge_eq (infos : List (StateInfo Event Related)) (id : Nat)
    (expr : Expr Event Related) :
    outEdge infos id expr =
      if expr.op = .SEQ ∧ expr.fromState.id = id then
        expr.toState.bind fun toState => edgeTo infos toState.id
      else none := rfl

theorem filterMap_outEdge (infos : List (StateInfo Event Related))
    (exprs : List (Expr Event Related)) (id : Nat) :
    exprs.filterMap (outEdge infos id) =
      (transitionsFrom (transitions exprs) id).filterMap fun transition =>
        edgeTo infos transition.2 := by
  induction exprs with
  | nil => rfl
  | cons expr exprs induction =>
      have rest : transitions (expr :: exprs) = transitions [expr] ++ transitions exprs :=
        transitions_append [expr] exprs
      rw [rest, transitionsFrom_append, List.filterMap_append, ← induction,
        ← List.singleton_append, List.filterMap_append]
      congr 1
      rw [List.filterMap_cons, outEdge_eq, List.filterMap_nil]
      by_cases sequence : expr.op = .SEQ
      · cases target : expr.toState with
        | none => simp [transitions, transitionsFrom, target]
        | some toState =>
            by_cases source : expr.fromState.id = id
            · cases edge : edgeTo infos toState.id <;>
                simp [transitions, transitionsFrom, target, sequence, source, edge]
            · simp [transitions, transitionsFrom, target, sequence, source]
      · simp [transitions, transitionsFrom, sequence]

section

variable {predicates : Predicates Event Related} {infos : List (StateInfo Event Related)}

/-- The position of a state in the automaton. -/
def IsPlaced (infos : List (StateInfo Event Related)) (id position : Nat) : Prop :=
  ∃ info, infos[position]? = some info ∧ info.id = id

/-- A state with one transition has the edge to the target of it. -/
theorem Entries.single_edge (entries : Entries predicates infos)
    {exprs : List (Expr Event Related)} {id target : Nat}
    (single : transitionsFrom (transitions exprs) id = [(id, target)])
    (member : target ∈ infos.map StateInfo.id) (positive : target ≠ 0) :
    ∃ edge, exprs.filterMap (outEdge infos id) = [edge] ∧
      IsPlaced infos target edge.destState := by
  obtain ⟨info, found, same, inside, here⟩ := entries.find member
  obtain ⟨edge, eptr, _⟩ := entries.edges info inside (same ▸ positive)
  refine ⟨{ edge with destState := info.nptr }, ?_, info, here, same⟩
  rw [filterMap_outEdge, single]
  simp [edgeTo, found, eptr]

theorem Entries.isPlaced_unique (entries : Entries predicates infos)
    {id position other : Nat} (here : IsPlaced infos id position)
    (there : IsPlaced infos id other) : position = other := by
  obtain ⟨info, found, rfl⟩ := here
  obtain ⟨second, also, same⟩ := there
  exact entries.position_eq found also same.symm

/-! ### The way through the automaton -/

/-- The automaton of an expression and the entries that it is made of. -/
theorem Expression.constructNFA_eq (expression : Expression)
    (predicates : Predicates Event Related)
    (unfinished : ∀ edge ∈ expression.edges, edge.1 ≠ 1000) :
    ∃ infos start, Entries predicates infos ∧
      (∀ expr ∈ (expression.build predicates).exprs, Known infos expr) ∧
      IsPlaced infos 0 start ∧
      constructNFA (expression.build predicates) =
        some ⟨statesAfter infos (expression.build predicates).exprs, start, none,
          fun related _ _ => related⟩ := by
  obtain ⟨infos, created, entries, known, zero⟩ := expression.entries predicates
  have initially : infos.map (fun info => createState info.id) =
      statesAfter infos ([] : List (Expr Event Related)) := rfl
  obtain ⟨start, found, same, _, here⟩ := entries.find zero
  have looped := foldlM_addTransition entries (expression.build predicates).exprs known []
  have leaves := any_leavesFinal_iff known
  rw [expression.transitions_build predicates] at leaves
  have none : ¬ (expression.build predicates).exprs.any leavesFinal = true := by
    intro some
    obtain ⟨edge, member, final⟩ := leaves.mp some
    exact unfinished edge member final
  rw [if_neg none, List.nil_append] at looped
  refine ⟨infos, start.nptr, entries, known, ⟨start, here, same⟩, ?_⟩
  simp [constructNFA, created, initially, looped, found]

variable {nfa : NFAController Event Related} {exprs : List (Expr Event Related)}

/-- What stands at the position of a state with one transition. -/
theorem Entries.state_of_single (entries : Entries predicates infos)
    (known : ∀ expr ∈ exprs, Known infos expr) (states : nfa.states = statesAfter infos exprs)
    {id target : Nat} (single : transitionsFrom (transitions exprs) id = [(id, target)])
    (positive : target ≠ 0) :
    ∃ edge, IsPlaced infos target edge.destState ∧
      ∀ position, IsPlaced infos id position →
        nfa.states[position]? = some (stateWith id [edge]) := by
  have listed : (id, target) ∈ transitions exprs := by
    apply List.mem_of_mem_filter (p := fun transition => transition.1 = id)
    rw [show (transitions exprs).filter _ = _ from single]
    exact List.mem_cons_self
  obtain ⟨edge, edges, there⟩ :=
    entries.single_edge single (target_mem known listed) positive
  refine ⟨edge, there, ?_⟩
  rintro position ⟨info, found, rfl⟩
  rw [states, getElem?_statesAfter found, edges]

/-- With the way from the last state of an opening the automaton is linear. -/
theorem Opening.linear (opening : Opening) (plain : opening.plain = true)
    (numbered : opening.Numbered) (intermediate : 1000 ∉ opening.spine)
    (entries : Entries predicates infos) (known : ∀ expr ∈ exprs, Known infos expr)
    (states : nfa.states = statesAfter infos exprs) (start : IsPlaced infos 0 nfa.start)
    (sources : ∀ id ∈ opening.spine, id ≠ opening.returned →
      transitionsFrom (transitions exprs) id = transitionsFrom opening.edges id)
    (longer : opening ≠ .start) {steps : List (PatternStep Event Related)}
    (rest : ∀ position, IsPlaced infos opening.returned position → Path nfa position steps)
    (more : steps ≠ []) (positive : ∀ step ∈ steps, step.negated = []) :
    ∃ pattern, Linear nfa pattern ∧ ∀ step ∈ pattern.steps, step.negated = [] := by
  induction opening generalizing steps with
  | start => exact absurd rfl longer
  | seq opening pattern induction =>
      obtain ⟨before, single⟩ := Bool.and_eq_true_iff.mp plain
      have nonzero : pattern.returned ≠ 0 :=
        (Opening.seq opening pattern).returned_ne_zero numbered longer
      have apart : ∀ id ∈ 0 :: opening.ids, id ≠ pattern.returned := by
        rintro id early rfl
        exact numbered.apart early pattern.returned_mem
      have table : ∀ id ∈ opening.spine, transitionsFrom (transitions exprs) id =
          transitionsFrom opening.edges id ++
            transitionsFrom [(opening.returned, pattern.returned)] id := by
        intro id member
        have early := opening.spine_subset member
        rw [sources id (List.mem_append_left _ member) (apart id early)]
        exact Opening.transitionsFrom_seq numbered early
      have inside := opening.returned_mem_spine
      have last : transitionsFrom (transitions exprs) opening.returned =
          [(opening.returned, pattern.returned)] := by
        rw [table _ inside, transitionsFrom_eq_nil
          (opening.returned_source before numbered.before)]
        simp [transitionsFrom]
      obtain ⟨edge, there, state⟩ := entries.state_of_single known states last nonzero
      by_cases first : opening = .start
      · subst first
        exact ⟨⟨edge, steps⟩, ⟨⟨_, state _ start⟩, rest _ there, more⟩, positive⟩
      · have waits : ∀ position, IsPlaced infos opening.returned position →
            Path nfa position (⟨[], edge⟩ :: steps) := by
          intro position here
          have normal := state position here
          have unfinished : opening.returned ≠ 1000 := by
            intro same
            rw [same] at inside
            exact intermediate (List.mem_append_left _ inside)
          rw [stateWith, if_neg (opening.returned_ne_zero numbered.before first),
            if_neg unfinished] at normal
          exact .step (.normal normal) (rest _ there)
        apply induction before numbered.before
          (fun member => intermediate (List.mem_append_left _ member)) ?_ first waits
          (List.cons_ne_nil _ _) (List.forall_mem_cons.mpr ⟨rfl, positive⟩)
        intro id member other
        rw [table id member]
        have nothing : transitionsFrom [(opening.returned, pattern.returned)] id = [] := by
          apply transitionsFrom_eq_nil
          intro transition single
          rw [List.mem_singleton.mp single]
          exact fun same => other same.symm
        rw [nothing, List.append_nil]

end

/-- The automaton of a straight expression with an intermediate state is linear and has
no negation states. -/
theorem Expression.Straight.linear {expression : Expression} (straight : expression.Straight)
    (longer : expression.opening ≠ .start) (predicates : Predicates Event Related) :
    ∃ nfa, constructNFA (expression.build predicates) = some nfa ∧
      nfa.init = none ∧ (∀ related edgeID event, nfa.update related edgeID event = related) ∧
      ∃ pattern, Linear nfa pattern ∧ ∀ step ∈ pattern.steps, step.negated = [] := by
  obtain ⟨infos, start, entries, known, here, constructed⟩ :=
    expression.constructNFA_eq predicates straight.unfinished
  refine ⟨_, constructed, rfl, fun _ _ _ => rfl, ?_⟩
  have table : ∀ id, transitionsFrom (transitions (expression.build predicates).exprs) id =
      transitionsFrom expression.opening.edges id ++
        transitionsFrom [(expression.opening.returned, 1000)] id := by
    intro id
    rw [expression.transitions_build predicates, straight.edges_eq, transitionsFrom_append]
  have last : transitionsFrom (transitions (expression.build predicates).exprs)
      expression.opening.returned = [(expression.opening.returned, 1000)] := by
    rw [table, transitionsFrom_eq_nil
      (expression.opening.returned_source straight.single expression.numbered)]
    simp [transitionsFrom]
  have states : (⟨statesAfter infos (expression.build predicates).exprs, start, none,
      fun related _ _ => related⟩ : NFAController Event Related).states =
        statesAfter infos (expression.build predicates).exprs := rfl
  obtain ⟨edge, there, state⟩ :=
    entries.state_of_single known states last (Nat.succ_ne_zero 999)
  have final : Path (⟨statesAfter infos (expression.build predicates).exprs, start, none,
      fun related _ _ => related⟩ : NFAController Event Related) edge.destState [] := by
    obtain ⟨info, found, same⟩ := there
    have reached := getElem?_statesAfter found (expression.build predicates).exprs
    rw [same] at reached
    exact .final reached
  apply expression.opening.linear straight.single expression.numbered straight.intermediate
    entries known states here ?_ longer ?_ (List.cons_ne_nil ⟨[], edge⟩ [])
  · exact List.forall_mem_cons.mpr ⟨rfl, fun _ member => absurd member List.not_mem_nil⟩
  · intro id _ other
    have nothing : transitionsFrom [(expression.opening.returned, 1000)] id = [] := by
      apply transitionsFrom_eq_nil
      intro transition single
      rw [List.mem_singleton.mp single]
      exact fun same => other same.symm
    rw [table, nothing, List.append_nil]
  · intro position placed
    have normal := state position placed
    have unfinished : expression.opening.returned ≠ 1000 := by
      intro same
      apply straight.intermediate
      rw [← same]
      exact expression.opening.returned_mem_spine
    rw [stateWith, if_neg (expression.opening.returned_ne_zero expression.numbered longer),
      if_neg unfinished] at normal
    exact .step (.normal normal) final

/-! ### What the automaton accepts and what the engine publishes -/

section

variable {nfa : NFAController Event Related}

/-- Without negation states the automaton accepts what fits the steps. -/
theorem Path.acceptsFrom_iff {id : Nat} {steps : List (PatternStep Event Related)}
    (path : Path nfa id steps) (positive : ∀ step ∈ steps, step.negated = [])
    (related : Option Related) (events : List Event) :
    AcceptsFrom nfa id related events ↔
      Fits (steps.map (PatternStep.toStep nfa)) related events := by
  induction path generalizing related events with
  | final state =>
      cases events with
      | nil => exact ⟨fun _ => trivial, fun _ => ⟨_, state⟩⟩
      | cons event events =>
          constructor
          · rintro ⟨other, edge, present, member, _⟩
            cases Option.some.inj (state.symm.trans present)
            cases member
          · exact False.elim
  | @step id target step later waits rest induction =>
      obtain ⟨alone, others⟩ := List.forall_mem_cons.mp positive
      cases waits with
      | negation _ _ => cases alone
      | @normal _ stateName taken state =>
          cases events with
          | nil =>
              constructor
              · rintro ⟨_, final⟩
                cases state.symm.trans final
              · exact False.elim
          | cons event events =>
              rw [List.map_cons, Fits, AcceptsFrom]
              constructor
              · rintro ⟨other, edge, present, member, holds, follows⟩
                cases Option.some.inj (state.symm.trans present)
                rw [List.mem_singleton.mp member] at holds follows
                exact ⟨holds, (induction others _ _).mp follows⟩
              · rintro ⟨holds, follows⟩
                exact ⟨_, taken, state, List.mem_singleton_self _, holds,
                  (induction others _ _).mpr follows⟩

theorem Linear.accepts_iff {pattern : LinearPattern Event Related}
    (linear : Linear nfa pattern) (positive : ∀ step ∈ pattern.steps, step.negated = [])
    (events : List Event) :
    Accepts nfa events ↔ ∃ event rest, events = event :: rest ∧
      pattern.first.predicate event nfa.init = true ∧
      Fits (pattern.toPattern nfa).steps ((pattern.toPattern nfa).start event) rest := by
  obtain ⟨stateName, start⟩ := linear.start
  cases events with
  | nil =>
      constructor
      · rintro ⟨_, final⟩
        cases start.symm.trans final
      · rintro ⟨_, _, nothing, _⟩
        cases nothing
  | cons event rest =>
      have follows := linear.path.acceptsFrom_iff positive
        (nfa.update nfa.init pattern.first.edgeID event) rest
      constructor
      · rintro ⟨state, edge, present, member, holds, accepts⟩
        cases Option.some.inj (start.symm.trans present)
        rw [List.mem_singleton.mp member] at holds accepts
        exact ⟨event, rest, rfl, holds, follows.mp accepts⟩
      · rintro ⟨_, _, same, holds, fits⟩
        cases same
        exact ⟨_, pattern.first, start, List.mem_singleton_self _, holds, follows.mpr fits⟩

end

/-- On the automaton of a straight expression the next-match engine publishes one match
of the expression for each event that a match can begin with, whatever the events and
the order in which the pool is met, and nothing else. -/
theorem straight_nextMatches {expression : Expression} (straight : expression.Straight)
    (longer : expression.opening ≠ .start) (predicates : Predicates Event Related) :
    ∃ nfa, constructNFA (expression.build predicates) = some nfa ∧
      ∃ found : List Event → Option (List Event),
        (∀ events matched, found events = some matched →
          expression.Matches predicates matched ∧ matched.Sublist events ∧
            matched.head? = events.head?) ∧
        (∀ events, found events = none → ∀ part, part.Sublist events →
          part.head? = events.head? → ¬ expression.Matches predicates part) ∧
        ∀ engine, (Engine.NextMatches engine).Fresh nfa →
          ∀ inputs : List (Event × IterationOrder (NFAStructure Event Related)),
            ∃ final, Transducer.tryRun (fun engine input =>
                NextMatchEngine.runEngine input.2 engine input.1) engine inputs =
                  some final ∧
              (final.2.map NFAStructure.matched).Perm
                ((inputs.map Prod.fst).tails.filterMap found) := by
  obtain ⟨nfa, constructed, init, constant, pattern, linear, positive⟩ :=
    straight.linear longer predicates
  obtain ⟨other, same, accepted⟩ := straight.faithful Event Related predicates
  obtain rfl := Option.some.inj (constructed.symm.trans same)
  have steps : ∀ step ∈ (pattern.toPattern nfa).steps, step.IsPositive ∧
      ∀ related event, step.update related event = related := by
    intro step member
    obtain ⟨asked, among, rfl⟩ := List.mem_map.mp member
    constructor
    · intro event related
      rw [PatternStep.toStep, positive asked among]
      rfl
    · exact fun related event => constant related _ event
  refine ⟨nfa, constructed, matchAtHead (pattern.toPattern nfa), ?_, ?_, ?_⟩
  · intro events matched found
    rw [← accepted, linear.accepts_iff positive, init]
    cases events with
    | nil => cases found
    | cons event rest =>
        simp only [matchAtHead, Option.ite_none_right_eq_some] at found
        obtain ⟨begins, succeeds⟩ := found
        obtain ⟨part, rfl, inside, fits⟩ := SequencePattern.fits_of_attempt succeeds
        exact ⟨⟨event, part, rfl, begins, fits⟩, inside.cons_cons event, rfl⟩
  · intro events fails part inside head matched
    rw [← accepted, linear.accepts_iff positive, init] at matched
    obtain ⟨event, chosen, rfl, begins, fits⟩ := matched
    cases events with
    | nil => cases inside
    | cons first rest =>
        obtain rfl : event = first := Option.some.inj head
        have qualifies : (pattern.toPattern nfa).first event = true := begins
        rw [matchAtHead, if_pos qualifies] at fails
        exact SequencePattern.not_fits_of_attempt (fun step member => (steps step member).1)
          (fun step member => (steps step member).2) fails
          (List.cons_sublist_cons.mp inside) fits
  · intro engine fresh inputs
    obtain ⟨final, ran, published⟩ := (Concurrent.of_fresh fresh).tryRun linear inputs
      (sweptInTime_of_isPositive (fun step member => (steps step member).1)
        (fun _ member => absurd member List.not_mem_nil) _ _)
    refine ⟨final, ran, published.trans ?_⟩
    exact SequencePattern.run_arriveAll (fun _ member => absurd member List.not_mem_nil) _

theorem plainSequence_distinct : ([1, 2] : List Nat).Nodup := by decide

theorem plainSequence_positive : ∀ id ∈ [1, 2], 0 < id := by decide

/-- `start >> a >> b >> end`. -/
def plainSequence : Expression where
  opening := .seq (.seq .start (.state 1)) (.state 2)
  closing := .stop
  distinct := plainSequence_distinct
  positive := plainSequence_positive

theorem plainSequence_straight : plainSequence.Straight where
  single := rfl
  unnested := rfl
  unfinished := by decide

theorem plainSequence_longer : plainSequence.opening ≠ .start := by
  intro same
  cases same

theorem straight_nextMatches_plainSequence :
    ∃ nfa, constructNFA (plainSequence.build Pattern.letters) = some nfa ∧
      ∃ found : List (Option Nat) → Option (List (Option Nat)),
        (∀ events matched, found events = some matched →
          plainSequence.Matches Pattern.letters matched ∧ matched.Sublist events ∧
            matched.head? = events.head?) ∧
        (∀ events, found events = none → ∀ part, part.Sublist events →
          part.head? = events.head? → ¬ plainSequence.Matches Pattern.letters part) ∧
        ∀ engine, (Engine.NextMatches engine).Fresh nfa →
          ∀ inputs : List (Option Nat × IterationOrder (NFAStructure (Option Nat) Unit)),
            ∃ final, Transducer.tryRun (fun engine input =>
                NextMatchEngine.runEngine input.2 engine input.1) engine inputs =
                  some final ∧
              (final.2.map NFAStructure.matched).Perm
                ((inputs.map Prod.fst).tails.filterMap found) :=
  straight_nextMatches plainSequence_straight plainSequence_longer Pattern.letters

end CEP

end PipeFabric
