import PipeFabric.Library.LabelledWalk
import PipeFabric.Library.ListPairs
import PipeFabric.Cep.PatternExpression

/-!
# The automaton of a table

`constructNFA` identifies states by number.  For every table whose states have their
predicates the automaton is the graph of its transitions: it accepts the events along
the walks from the start state to the state with number 1000.
-/

namespace PipeFabric

namespace CEP

open LabelledWalk (Walks)
open ListPairs (exists_of_mem_right)

variable {Event Related : Type}

/-- A state has the predicate of its number.  Number 1000 is that of the end state, but
the counter can come to it as well. -/
def HasPredicate (predicates : Predicates Event Related)
    (state : CEPStatePtr Event Related) : Prop :=
  (state.id ≠ 0 → state.pred.isSome) ∧
    (state.id ≠ 0 → state.id ≠ 1000 → state.pred = some (predicates.intermediate state.id))

/-- The events that lead to a state. -/
def Reads (predicates : Predicates Event Related) (id : Nat) (event : Event) : Prop :=
  (if id = 1000 then predicates.stop event none else predicates.intermediate id event none) =
    true

/-- A step along a transition. -/
def Transition (predicates : Predicates Event Related) (edges : List (Nat × Nat))
    (source : Nat) (event : Event) (target : Nat) : Prop :=
  (source, target) ∈ edges ∧ Reads predicates target event

/-! ### The map of the states -/

/-- The keys are in ascending order. -/
def Ordered (states : List (Nat × CEPStatePtr Event Related)) : Prop :=
  (states.map Prod.fst).Pairwise (· < ·)

theorem ordered_nil : Ordered ([] : List (Nat × CEPStatePtr Event Related)) :=
  List.Pairwise.nil

theorem mem_assignState {id : Nat} {state : CEPStatePtr Event Related}
    {states : List (Nat × CEPStatePtr Event Related)} {entry : Nat × CEPStatePtr Event Related}
    (ordered : Ordered states) :
    entry ∈ assignState id state states ↔
      entry = (id, state) ∨ (entry.1 ≠ id ∧ entry ∈ states) := by
  induction states with
  | nil => simp [assignState]
  | cons first states induction =>
      obtain ⟨least, rest⟩ := List.pairwise_cons.mp ordered
      have above : ∀ other ∈ states, first.1 < other.1 :=
        fun other member => least other.1 (List.mem_map_of_mem member)
      rw [assignState]
      by_cases less : id < first.1
      · rw [if_pos less, List.mem_cons]
        constructor
        · rintro (new | old)
          · exact .inl new
          · refine .inr ⟨?_, old⟩
            rcases List.mem_cons.mp old with rfl | later
            · exact Nat.ne_of_gt less
            · exact Nat.ne_of_gt (Nat.lt_trans less (above entry later))
        · rintro (new | ⟨_, old⟩)
          · exact .inl new
          · exact .inr old
      · rw [if_neg less]
        by_cases same : id = first.1
        · rw [if_pos same, List.mem_cons, List.mem_cons]
          constructor
          · rintro (new | old)
            · exact .inl new
            · exact .inr ⟨same ▸ Nat.ne_of_gt (above entry old), .inr old⟩
          · rintro (new | ⟨different, rfl | old⟩)
            · exact .inl new
            · exact absurd same.symm different
            · exact .inr old
        · rw [if_neg same, List.mem_cons, List.mem_cons, induction rest]
          constructor
          · rintro (rfl | new | ⟨different, old⟩)
            · exact .inr ⟨fun equal => same equal.symm, .inl rfl⟩
            · exact .inl new
            · exact .inr ⟨different, .inr old⟩
          · rintro (new | ⟨different, rfl | old⟩)
            · exact .inr (.inl new)
            · exact .inl rfl
            · exact .inr (.inr ⟨different, old⟩)

theorem ordered_assignState {id : Nat} {state : CEPStatePtr Event Related}
    {states : List (Nat × CEPStatePtr Event Related)} (ordered : Ordered states) :
    Ordered (assignState id state states) := by
  induction states with
  | nil => exact List.pairwise_singleton _ _
  | cons first states induction =>
      obtain ⟨least, rest⟩ := List.pairwise_cons.mp ordered
      rw [assignState]
      by_cases less : id < first.1
      · rw [if_pos less]
        refine List.pairwise_cons.mpr ⟨?_, ordered⟩
        intro other member
        rcases List.mem_cons.mp member with rfl | later
        · exact less
        · exact Nat.lt_trans less (least other later)
      · rw [if_neg less]
        by_cases same : id = first.1
        · rw [if_pos same]
          exact List.pairwise_cons.mpr ⟨same ▸ least, rest⟩
        · rw [if_neg same]
          refine List.pairwise_cons.mpr ⟨?_, induction rest⟩
          intro other member
          obtain ⟨entry, inside, rfl⟩ := List.mem_map.mp member
          rcases (mem_assignState rest).mp inside with new | ⟨_, old⟩
          · rw [new]
            omega
          · exact least _ (List.mem_map_of_mem old)

/-- The states of an entry of the table. -/
def exprStates (expr : Expr Event Related) : List (CEPStatePtr Event Related) :=
  expr.fromState :: expr.toState.toList

theorem ordered_extractStates {states : List (Nat × CEPStatePtr Event Related)}
    (ordered : Ordered states) (expr : Expr Event Related) :
    Ordered (extractStates states expr) := by
  rw [extractStates]
  cases expr.toState with
  | none => exact ordered_assignState ordered
  | some toState => exact ordered_assignState (ordered_assignState ordered)

/-- What is in the map after one entry of the table. -/
theorem mem_extractStates {states : List (Nat × CEPStatePtr Event Related)}
    (ordered : Ordered states) {expr : Expr Event Related}
    {entry : Nat × CEPStatePtr Event Related} (member : entry ∈ extractStates states expr) :
    entry ∈ states ∨ ∃ state ∈ exprStates expr, entry = (state.id, state) := by
  rw [extractStates] at member
  have source : ∀ entry ∈ assignState expr.fromState.id expr.fromState states,
      entry ∈ states ∨ ∃ state ∈ exprStates expr, entry = (state.id, state) := by
    intro entry inside
    rcases (mem_assignState ordered).mp inside with new | ⟨_, old⟩
    · exact .inr ⟨expr.fromState, List.mem_cons_self, new⟩
    · exact .inl old
  cases target : expr.toState with
  | none =>
      rw [target] at member
      exact source entry member
  | some toState =>
      rw [target] at member
      rcases (mem_assignState (ordered_assignState ordered)).mp member with new | ⟨_, old⟩
      · exact .inr ⟨toState, by simp [exprStates, target], new⟩
      · exact source entry old

theorem mem_keys_assignState {id key : Nat} {state : CEPStatePtr Event Related}
    {states : List (Nat × CEPStatePtr Event Related)} (ordered : Ordered states) :
    key ∈ (assignState id state states).map Prod.fst ↔
      key = id ∨ key ∈ states.map Prod.fst := by
  simp only [List.mem_map, mem_assignState ordered]
  constructor
  · rintro ⟨entry, new | ⟨_, old⟩, rfl⟩
    · exact .inl (by rw [new])
    · exact .inr ⟨entry, old, rfl⟩
  · rintro (rfl | ⟨entry, old, rfl⟩)
    · exact ⟨(key, state), .inl rfl, rfl⟩
    · by_cases same : entry.1 = id
      · exact ⟨(id, state), .inl rfl, same.symm⟩
      · exact ⟨entry, .inr ⟨same, old⟩, rfl⟩

/-- The numbers in the map after one entry of the table. -/
theorem mem_keys_extractStates {states : List (Nat × CEPStatePtr Event Related)}
    (ordered : Ordered states) {expr : Expr Event Related} {id : Nat} :
    id ∈ (extractStates states expr).map Prod.fst ↔
      id ∈ states.map Prod.fst ∨ id ∈ (exprStates expr).map CEPStatePtr.id := by
  rw [extractStates, exprStates]
  cases expr.toState with
  | none =>
      rw [mem_keys_assignState ordered, or_comm]
      simp
  | some toState =>
      rw [mem_keys_assignState (ordered_assignState ordered), mem_keys_assignState ordered]
      simp only [Option.toList_some, List.map_cons, List.map_nil, List.mem_cons,
        List.not_mem_nil, or_false]
      tauto

/-- The map of a whole table. -/
theorem extractStates_spec (exprs : List (Expr Event Related))
    {states : List (Nat × CEPStatePtr Event Related)} (ordered : Ordered states) :
    Ordered (exprs.foldl extractStates states) ∧
    (∀ entry ∈ exprs.foldl extractStates states, entry ∈ states ∨
      ∃ expr ∈ exprs, ∃ state ∈ exprStates expr, entry = (state.id, state)) ∧
    (∀ id, id ∈ (exprs.foldl extractStates states).map Prod.fst ↔
      id ∈ states.map Prod.fst ∨
        ∃ expr ∈ exprs, id ∈ (exprStates expr).map CEPStatePtr.id) := by
  induction exprs generalizing states with
  | nil => simp [ordered]
  | cons expr exprs induction =>
      obtain ⟨kept, entries, keys⟩ := induction (ordered_extractStates ordered expr)
      refine ⟨kept, ?_, ?_⟩
      · intro entry member
        rcases entries entry member with early | ⟨other, inside, state, among, equal⟩
        · rcases mem_extractStates ordered early with old | ⟨state, among, equal⟩
          · exact .inl old
          · exact .inr ⟨expr, List.mem_cons_self, state, among, equal⟩
        · exact .inr ⟨other, List.mem_cons_of_mem _ inside, state, among, equal⟩
      · intro id
        rw [List.foldl_cons, keys id, mem_keys_extractStates ordered, or_assoc]
        simp

/-! ### The states and edges -/

/-- What `createStates` makes of an entry. -/
def Creates (entry : Nat × CEPStatePtr Event Related) (info : StateInfo Event Related) :
    Prop :=
  info.id = entry.1 ∧
    (entry.1 ≠ 0 → ∃ edge, info.eptr = some edge ∧ entry.2.pred = some edge.predicate)

theorem map_id_of_creates {entries : List (Nat × CEPStatePtr Event Related)}
    {infos : List (StateInfo Event Related)} (creates : List.Forall₂ Creates entries infos) :
    infos.map StateInfo.id = entries.map Prod.fst := by
  induction creates with
  | nil => rfl
  | cons same _ induction => rw [List.map_cons, List.map_cons, same.1, induction]

/-- The states of a longer list are numbered one after the other, too. -/
private theorem positions_cons {first : StateInfo Event Related}
    {infos : List (StateInfo Event Related)} {nptr : Nat} (head : first.nptr = nptr)
    (tail : ∀ index info, infos[index]? = some info → info.nptr = nptr + 1 + index) :
    ∀ index info, (first :: infos)[index]? = some info → info.nptr = nptr + index := by
  intro index info here
  cases index with
  | zero =>
      cases here
      exact head
  | succ index =>
      rw [tail index info here]
      omega

theorem createStates_spec (entries : List (Nat × CEPStatePtr Event Related))
    (predicates : ∀ entry ∈ entries, entry.1 ≠ 0 → entry.2.pred.isSome)
    (nptr edgeCountID : Nat) :
    ∃ infos, createStates nptr edgeCountID entries = some infos ∧
      List.Forall₂ Creates entries infos ∧
      ∀ index info, infos[index]? = some info → info.nptr = nptr + index := by
  induction entries generalizing nptr edgeCountID with
  | nil => exact ⟨[], rfl, .nil, by simp⟩
  | cons entry entries induction =>
      obtain ⟨first, rest⟩ := List.forall_mem_cons.mp predicates
      by_cases start : entry.1 = 0
      · obtain ⟨infos, created, creates, positions⟩ := induction rest (nptr + 1) edgeCountID
        refine ⟨⟨0, nptr, none⟩ :: infos, ?_, .cons ⟨start.symm, absurd start⟩ creates, ?_⟩
        · rw [createStates, if_pos start, created]
          rfl
        · exact positions_cons rfl positions
      · obtain ⟨predicate, known⟩ := Option.isSome_iff_exists.mp (first start)
        obtain ⟨infos, created, creates, positions⟩ :=
          induction rest (nptr + 1) (edgeCountID + 1)
        refine ⟨⟨entry.1, nptr, some ⟨edgeCountID, predicate⟩⟩ :: infos, ?_,
          .cons ⟨rfl, fun _ => ⟨_, rfl, known⟩⟩ creates, ?_⟩
        · rw [createStates, if_neg start, known, created]
          rfl
        · exact positions_cons rfl positions

/-! ### The transitions -/

/-- What is known of the entries of the map. -/
structure Entries (predicates : Predicates Event Related)
    (infos : List (StateInfo Event Related)) : Prop where
  positions : ∀ (index : Nat) info, infos[index]? = some info → info.nptr = index
  distinct : (infos.map StateInfo.id).Nodup
  edges : ∀ info ∈ infos, info.id ≠ 0 → ∃ edge, info.eptr = some edge ∧
    ∀ event, edge.predicate event none = true ↔ Reads predicates info.id event

/-- An entry of the table can be carried out if its states are in the map, and no
transition leads to the start state. -/
def Known (infos : List (StateInfo Event Related)) (expr : Expr Event Related) : Prop :=
  expr.op = .SEQ → expr.fromState.id ∈ infos.map StateInfo.id ∧
    ∃ toState, expr.toState = some toState ∧ toState.id ≠ 0 ∧
      toState.id ∈ infos.map StateInfo.id

/-- A state with its edges. -/
def stateWith (id : Nat) (edges : List (ForwardEdge Event Related)) :
    NFAState Event Related :=
  if id = 0 then .start (toString id) edges
  else if id = 1000 then .final (toString id)
  else .normal (toString id) edges

/-- The edge that an entry of the table adds to a state. -/
def outEdge (infos : List (StateInfo Event Related)) (id : Nat) (expr : Expr Event Related) :
    Option (ForwardEdge Event Related) :=
  if expr.op = .SEQ ∧ expr.fromState.id = id then
    expr.toState.bind fun toState =>
      (infos.find? fun info => info.id = toState.id).bind fun info =>
        info.eptr.map fun edge => { edge with destState := info.nptr }
  else none

/-- The states after some entries of the table. -/
def statesAfter (infos : List (StateInfo Event Related)) (exprs : List (Expr Event Related)) :
    List (NFAState Event Related) :=
  infos.map fun info => stateWith info.id (exprs.filterMap (outEdge infos info.id))

/-- A transition starts in the state with number 1000. -/
def leavesFinal (expr : Expr Event Related) : Bool :=
  expr.op = .SEQ && expr.fromState.id = 1000

section

variable {predicates : Predicates Event Related} {infos : List (StateInfo Event Related)}

theorem Entries.find (entries : Entries predicates infos) {id : Nat}
    (member : id ∈ infos.map StateInfo.id) :
    ∃ info, infos.find? (fun info => info.id = id) = some info ∧ info.id = id ∧
      info ∈ infos ∧ infos[info.nptr]? = some info := by
  obtain ⟨info, inside, same⟩ := List.mem_map.mp member
  have isSome : (infos.find? fun info => info.id = id).isSome = true :=
    List.find?_isSome.mpr ⟨info, inside, decide_eq_true same⟩
  obtain ⟨found, finds⟩ := Option.isSome_iff_exists.mp isSome
  have among := List.mem_of_find?_eq_some finds
  obtain ⟨index, below, here⟩ := List.getElem_of_mem among
  have position := entries.positions index found (List.getElem?_eq_some_iff.mpr ⟨below, here⟩)
  have same : found.id = id := by simpa using List.find?_some finds
  refine ⟨found, finds, same, among, ?_⟩
  rw [position]
  exact List.getElem?_eq_some_iff.mpr ⟨below, here⟩

/-- There is one entry for a number. -/
theorem Entries.position_eq (entries : Entries predicates infos) {first second : Nat}
    {info other : StateInfo Event Related} (here : infos[first]? = some info)
    (there : infos[second]? = some other) (same : info.id = other.id) : first = second := by
  have below := (List.getElem?_eq_some_iff.mp here).1
  apply (List.getElem?_inj (List.length_map StateInfo.id ▸ below) entries.distinct).mp
  rw [List.getElem?_map, List.getElem?_map, here, there, Option.map_some, Option.map_some, same]

theorem addEdge_stateWith {id : Nat} (edges : List (ForwardEdge Event Related))
    (edge : ForwardEdge Event Related) :
    addEdge edge (stateWith id edges) =
      if id = 1000 then none else some (stateWith id (edges ++ [edge])) := by
  by_cases start : id = 0
  · subst start
    rfl
  · by_cases final : id = 1000
    · subst final
      rfl
    · simp [stateWith, start, final, addEdge]

theorem getElem?_statesAfter {index : Nat} {info : StateInfo Event Related}
    (here : infos[index]? = some info) (exprs : List (Expr Event Related)) :
    (statesAfter infos exprs)[index]? =
      some (stateWith info.id (exprs.filterMap (outEdge infos info.id))) := by
  rw [statesAfter, List.getElem?_map, here, Option.map_some]

/-- The edge of a transition. -/
theorem Entries.outEdge_eq (entries : Entries predicates infos)
    {expr : Expr Event Related} (known : Known infos expr) (sequence : expr.op = .SEQ) :
    ∃ toState info edge, expr.toState = some toState ∧
      infos.find? (fun info => info.id = toState.id) = some info ∧
      info ∈ infos ∧ info.id = toState.id ∧ infos[info.nptr]? = some info ∧
      info.eptr = some edge ∧
      (∀ event, edge.predicate event none = true ↔ Reads predicates toState.id event) ∧
      ∀ id, outEdge infos id expr =
        if expr.fromState.id = id then some { edge with destState := info.nptr } else none := by
  obtain ⟨_, toState, target, positive, member⟩ := known sequence
  obtain ⟨info, found, same, inside, here⟩ := entries.find member
  obtain ⟨edge, eptr, reads⟩ := entries.edges info inside (same ▸ positive)
  refine ⟨toState, info, edge, target, found, inside, same, here, eptr, same ▸ reads, ?_⟩
  intro id
  by_cases source : expr.fromState.id = id
  · rw [outEdge, if_pos ⟨sequence, source⟩, if_pos source, target, Option.bind_some, found,
      Option.bind_some, eptr, Option.map_some]
  · rw [outEdge, if_neg (fun both => source both.2), if_neg source]

/-- One round of the loop over the table. -/
theorem addTransition_statesAfter (entries : Entries predicates infos)
    (done : List (Expr Event Related)) {expr : Expr Event Related} (known : Known infos expr) :
    addTransition infos (statesAfter infos done) expr =
      if leavesFinal expr then none else some (statesAfter infos (done ++ [expr])) := by
  by_cases sequence : expr.op = .SEQ
  · obtain ⟨begins, found, beginID, _, here⟩ := entries.find (known sequence).1
    obtain ⟨toState, ends, edge, target, reached, _, _, _, eptr, _, added⟩ :=
      entries.outEdge_eq known sequence
    simp only [addTransition, if_pos sequence, found, target, reached, eptr,
      Option.bind_eq_bind, Option.bind_some, createForwardTransition,
      getElem?_statesAfter here, addEdge_stateWith, leavesFinal, beginID]
    by_cases final : expr.fromState.id = 1000
    · simp [final, sequence]
    · simp only [final, if_false, Option.bind_some, sequence, decide_true, decide_false,
        Bool.and_false, Bool.false_eq_true, Option.pure_def]
      apply congrArg some
      apply List.ext_getElem?
      intro index
      rw [List.getElem?_set]
      by_cases same : begins.nptr = index
      · subst same
        have below := (List.getElem?_eq_some_iff.mp (getElem?_statesAfter here done)).1
        have last : [expr].filterMap (outEdge infos expr.fromState.id) =
            [{ edge with destState := ends.nptr }] := by
          rw [List.filterMap_cons, added, if_pos rfl, List.filterMap_nil]
        rw [if_pos rfl, if_pos below, getElem?_statesAfter here, List.filterMap_append,
          beginID, last]
      · rw [if_neg same]
        simp only [statesAfter, List.getElem?_map]
        cases other : infos[index]? with
        | none => rfl
        | some info =>
            have different : expr.fromState.id ≠ info.id := by
              intro equal
              exact same (entries.position_eq here other (beginID.trans equal))
            simp [List.filterMap_append, added, different]
  · have nothing : ∀ id, outEdge infos id expr = none := by
      intro id
      rw [outEdge, if_neg (fun both => sequence both.1)]
    simp [addTransition, sequence, leavesFinal, statesAfter, List.filterMap_append, nothing]

/-- The loop over the table fails where a transition starts in the final state. -/
theorem foldlM_addTransition (entries : Entries predicates infos)
    (exprs : List (Expr Event Related)) (known : ∀ expr ∈ exprs, Known infos expr)
    (done : List (Expr Event Related)) :
    exprs.foldlM (addTransition infos) (statesAfter infos done) =
      if exprs.any leavesFinal then none else some (statesAfter infos (done ++ exprs)) := by
  induction exprs generalizing done with
  | nil => simp
  | cons expr exprs induction =>
      obtain ⟨first, rest⟩ := List.forall_mem_cons.mp known
      rw [List.foldlM_cons, addTransition_statesAfter entries done first, List.any_cons]
      cases leavesFinal expr with
      | true => rfl
      | false =>
          simp only [Bool.false_eq_true, if_false, Option.bind_eq_bind, Option.bind_some,
            Bool.false_or, induction rest, List.append_assoc, List.singleton_append]

theorem any_leavesFinal_iff {exprs : List (Expr Event Related)}
    (known : ∀ expr ∈ exprs, Known infos expr) :
    exprs.any leavesFinal = true ↔ ∃ edge ∈ transitions exprs, edge.1 = 1000 := by
  simp only [List.any_eq_true, transitions, List.mem_filterMap]
  constructor
  · rintro ⟨expr, member, leaves⟩
    rw [leavesFinal, Bool.and_eq_true] at leaves
    have sequence := of_decide_eq_true leaves.1
    obtain ⟨_, toState, target, _⟩ := known expr member sequence
    refine ⟨(expr.fromState.id, toState.id), ⟨expr, member, ?_⟩,
      of_decide_eq_true leaves.2⟩
    rw [if_pos sequence, target, Option.map_some]
  · rintro ⟨edge, ⟨expr, member, asked⟩, final⟩
    by_cases sequence : expr.op = .SEQ
    · rw [if_pos sequence, Option.map_eq_some_iff] at asked
      obtain ⟨toState, _, rfl⟩ := asked
      refine ⟨expr, member, ?_⟩
      rw [leavesFinal, decide_eq_true sequence, decide_eq_true final, Bool.and_self]
    · rw [if_neg sequence] at asked
      cases asked

/-- The edges of a state are its transitions. -/
theorem Entries.edge_iff (entries : Entries predicates infos)
    {exprs : List (Expr Event Related)} (known : ∀ expr ∈ exprs, Known infos expr)
    {id : Nat} {event : Event} (follows : Nat → Prop) :
    (∃ edge ∈ exprs.filterMap (outEdge infos id), edge.predicate event none = true ∧
        follows edge.destState) ↔
      ∃ info ∈ infos, infos[info.nptr]? = some info ∧
        Transition predicates (transitions exprs) id event info.id ∧ follows info.nptr := by
  constructor
  · rintro ⟨edge, member, holds, next⟩
    obtain ⟨expr, inside, asked⟩ := List.mem_filterMap.mp member
    have sequence : expr.op = .SEQ := by
      by_contra other
      rw [outEdge, if_neg (fun both => other both.1)] at asked
      cases asked
    obtain ⟨toState, info, created, target, _, among, same, here, _, reads, added⟩ :=
      entries.outEdge_eq (known expr inside) sequence
    rw [added] at asked
    by_cases source : expr.fromState.id = id
    · rw [if_pos source] at asked
      cases asked
      refine ⟨info, among, here, ⟨?_, same ▸ (reads event).mp holds⟩, next⟩
      refine List.mem_filterMap.mpr ⟨expr, inside, ?_⟩
      rw [if_pos sequence, target, Option.map_some, source, same]
    · rw [if_neg source] at asked
      cases asked
  · rintro ⟨info, among, here, ⟨asked, reads⟩, next⟩
    obtain ⟨expr, inside, edge⟩ := List.mem_filterMap.mp asked
    by_cases sequence : expr.op = .SEQ
    · obtain ⟨toState, found, created, target, _, _, same, there, _, holds, added⟩ :=
        entries.outEdge_eq (known expr inside) sequence
      rw [if_pos sequence, target, Option.map_some] at edge
      obtain ⟨source, goal⟩ := Prod.mk.inj (Option.some.inj edge)
      have position : found.nptr = info.nptr :=
        entries.position_eq there here (same.trans goal)
      refine ⟨{ created with destState := found.nptr }, ?_,
        (holds event).mpr (goal ▸ reads), ?_⟩
      · refine List.mem_filterMap.mpr ⟨expr, inside, ?_⟩
        rw [added, if_pos source]
      · exact position ▸ next
    · rw [if_neg sequence] at edge
      cases edge

/-- Transitions lead to states of the map. -/
theorem target_mem {exprs : List (Expr Event Related)}
    (known : ∀ expr ∈ exprs, Known infos expr) {source target : Nat}
    (asked : (source, target) ∈ transitions exprs) : target ∈ infos.map StateInfo.id := by
  obtain ⟨expr, inside, edge⟩ := List.mem_filterMap.mp asked
  by_cases sequence : expr.op = .SEQ
  · obtain ⟨_, toState, reached, _, member⟩ := known expr inside sequence
    rw [if_pos sequence, reached, Option.map_some] at edge
    rw [← (Prod.mk.inj (Option.some.inj edge)).2]
    exact member
  · rw [if_neg sequence] at edge
    cases edge

/-- The final state has no edges, and the edges of the others are their transitions. -/
theorem mem_getForwardEdges_stateWith {exprs : List (Expr Event Related)}
    (known : ∀ expr ∈ exprs, Known infos expr)
    (stays : ∀ edge ∈ transitions exprs, edge.1 ≠ 1000) {id : Nat}
    {edge : ForwardEdge Event Related} :
    edge ∈ (stateWith id (exprs.filterMap (outEdge infos id))).getForwardEdges ↔
      edge ∈ exprs.filterMap (outEdge infos id) := by
  by_cases final : id = 1000
  · have nothing : exprs.filterMap (outEdge infos id) = [] := by
      apply List.filterMap_eq_nil_iff.mpr
      intro expr among
      rw [outEdge]
      split
      · rename_i both
        have leaves : exprs.any leavesFinal = true := by
          refine List.any_eq_true.mpr ⟨expr, among, ?_⟩
          simp [leavesFinal, both.1, both.2, final]
        obtain ⟨transition, asks, source⟩ := (any_leavesFinal_iff known).mp leaves
        exact absurd source (stays transition asks)
      · rfl
    rw [nothing]
    simp [stateWith, final, NFAState.getForwardEdges]
  · by_cases start : id = 0
    · simp [stateWith, start, NFAState.getForwardEdges]
    · simp [stateWith, start, final, NFAState.getForwardEdges]

/-- The automaton accepts along the walks through the transitions. -/
theorem Entries.acceptsFrom_iff (entries : Entries predicates infos)
    {exprs : List (Expr Event Related)} (known : ∀ expr ∈ exprs, Known infos expr)
    (stays : ∀ edge ∈ transitions exprs, edge.1 ≠ 1000) {nfa : NFAController Event Related}
    (states : nfa.states = statesAfter infos exprs)
    (update : nfa.update = fun related _ _ => related) (events : List Event)
    {info : StateInfo Event Related} (here : infos[info.nptr]? = some info) :
    AcceptsFrom nfa info.nptr none events ↔
      Walks (Transition predicates (transitions exprs)) info.id events 1000 := by
  induction events generalizing info with
  | nil =>
      rw [AcceptsFrom, states, getElem?_statesAfter here, Walks]
      by_cases start : info.id = 0
      · simp [stateWith, start]
      · by_cases final : info.id = 1000
        · simp [stateWith, final]
        · simp [stateWith, start, final]
  | cons event events induction =>
      have step : (∃ edge ∈ exprs.filterMap (outEdge infos info.id),
            edge.predicate event none = true ∧
              AcceptsFrom nfa edge.destState none events) ↔
          ∃ next ∈ infos, infos[next.nptr]? = some next ∧
            Transition predicates (transitions exprs) info.id event next.id ∧
              AcceptsFrom nfa next.nptr none events :=
        entries.edge_iff known fun id => AcceptsFrom nfa id none events
      rw [AcceptsFrom, states, getElem?_statesAfter here, Walks, update]
      constructor
      · rintro ⟨state, edge, found, member, holds, rest⟩
        cases Option.some.inj found
        obtain ⟨next, _, there, taken, accepts⟩ := step.mp
          ⟨edge, (mem_getForwardEdges_stateWith known stays).mp member, holds, rest⟩
        exact ⟨next.id, taken, (induction there).mp accepts⟩
      · rintro ⟨target, taken, walks⟩
        obtain ⟨next, _, rfl, among, there⟩ := entries.find (target_mem known taken.1)
        obtain ⟨edge, member, holds, rest⟩ :=
          step.mpr ⟨next, among, there, taken, (induction there).mpr walks⟩
        exact ⟨_, edge, rfl, (mem_getForwardEdges_stateWith known stays).mpr member, holds,
          rest⟩

end

/-! ### The tables of expressions -/

/-- What holds of every entry of the table of an expression. -/
structure Proper (predicates : Predicates Event Related) (expr : Expr Event Related) :
    Prop where
  states : ∀ state ∈ exprStates expr, HasPredicate predicates state
  target : expr.op = .SEQ → ∃ toState, expr.toState = some toState ∧ toState.id ≠ 0

section

variable {predicates : Predicates Event Related}

/-- An entry for one state. -/
theorem proper_single {state : CEPStatePtr Event Related} {op : Op}
    (has : HasPredicate predicates state) (other : op ≠ .SEQ) :
    Proper predicates ⟨op, state, none⟩ := by
  constructor
  · intro inside member
    obtain rfl : inside = state := by simpa [exprStates] using member
    exact has
  · exact fun same => absurd same other

/-- An entry for two states. -/
theorem proper_pair {first second : CEPStatePtr Event Related} {op : Op}
    (left : HasPredicate predicates first) (right : HasPredicate predicates second)
    (positive : second.id ≠ 0) : Proper predicates ⟨op, first, some second⟩ := by
  constructor
  · intro state member
    have either : state = first ∨ state = second := by simpa [exprStates] using member
    rcases either with rfl | rfl
    · exact left
    · exact right
  · exact fun _ => ⟨second, rfl, positive⟩

variable (predicates)

theorem Pattern.build_proper (pattern : Pattern) (positive : ∀ id ∈ pattern.ids, 0 < id) :
    (HasPredicate predicates (pattern.build predicates).toCEPStatePtr ∧
      (pattern.build predicates).id ≠ 0) ∧
    ∀ expr ∈ (pattern.build predicates).exprs, Proper predicates expr := by
  induction pattern with
  | state id =>
      have nonzero : id ≠ 0 := Nat.ne_of_gt (positive id (List.mem_singleton.mpr rfl))
      exact ⟨⟨⟨fun _ => rfl, fun _ _ => rfl⟩, nonzero⟩,
        fun _ member => absurd member List.not_mem_nil⟩
  | seq first second left right =>
      obtain ⟨one, inside⟩ := left fun id member => positive id (List.mem_append_left _ member)
      obtain ⟨two, among⟩ := right fun id member => positive id (List.mem_append_right _ member)
      refine ⟨two, ?_⟩
      intro expr member
      simp only [build, CEPState.seq, List.mem_append, List.mem_singleton] at member
      rcases member with (member | member) | rfl
      · exact among expr member
      · exact inside expr member
      · exact proper_pair one.1 two.1 two.2
  | or first second left right =>
      obtain ⟨one, inside⟩ := left fun id member => positive id (List.mem_append_left _ member)
      obtain ⟨two, among⟩ := right fun id member => positive id (List.mem_append_right _ member)
      refine ⟨one, ?_⟩
      intro expr member
      simp only [build, CEPState.or, List.mem_append, List.mem_singleton] at member
      rcases member with (member | member) | rfl
      · exact inside expr member
      · exact among expr member
      · exact proper_pair one.1 two.1 two.2
  | not pattern induction =>
      obtain ⟨one, inside⟩ := induction positive
      refine ⟨one, ?_⟩
      intro expr member
      simp only [build, CEPState.not, List.mem_append, List.mem_singleton] at member
      rcases member with member | rfl
      · exact inside expr member
      · exact proper_single one.1 (by decide)

theorem Opening.build_proper (opening : Opening) (positive : ∀ id ∈ opening.ids, 0 < id) :
    HasPredicate predicates (opening.build predicates).toCEPStatePtr ∧
    (∀ expr ∈ (opening.build predicates).exprs, Proper predicates expr) ∧
    ∃ expr ∈ (opening.build predicates).exprs, expr.fromState.id = 0 := by
  have start : HasPredicate predicates ⟨none, 0, .Start⟩ :=
    ⟨fun nonzero => absurd rfl nonzero, fun nonzero => absurd rfl nonzero⟩
  induction opening with
  | start =>
      refine ⟨start, ?_, _, List.mem_cons_self, rfl⟩
      intro expr member
      rw [List.mem_singleton.mp member]
      exact proper_single start (by decide)
  | seq opening pattern induction =>
      obtain ⟨one, inside, first, early, zero⟩ :=
        induction fun id member => positive id (List.mem_append_left _ member)
      obtain ⟨two, among⟩ := pattern.build_proper predicates
        fun id member => positive id (List.mem_append_right _ member)
      refine ⟨two.1, ?_, first, ?_, zero⟩
      · intro expr member
        simp only [build, CEPState.seq, List.mem_append, List.mem_singleton] at member
        rcases member with (member | member) | rfl
        · exact among expr member
        · exact inside expr member
        · exact proper_pair one two.1 two.2
      · simp only [build, CEPState.seq, List.mem_append]
        exact .inl (.inr early)

theorem Closing.build_proper (closing : Closing) (positive : ∀ id ∈ closing.ids, 0 < id) :
    ∀ expr ∈ (closing.build predicates).exprs, Proper predicates expr := by
  have stop : HasPredicate predicates ⟨some predicates.stop, 1000, .Stopp⟩ :=
    ⟨fun _ => rfl, fun _ other => absurd rfl other⟩
  induction closing with
  | stop =>
      intro expr member
      rw [List.mem_singleton.mp member]
      exact proper_single stop (by decide)
  | seq pattern closing induction =>
      have inside := induction fun id member => positive id (List.mem_append_right _ member)
      obtain ⟨one, among⟩ := pattern.build_proper predicates
        fun id member => positive id (List.mem_append_left _ member)
      have last := (closing.build_spec predicates).1
      intro expr member
      simp only [build, CEPState.seq, List.mem_append, List.mem_singleton] at member
      rcases member with (member | member) | rfl
      · exact inside expr member
      · exact among expr member
      · rw [last]
        exact proper_pair one.1 stop (Nat.succ_ne_zero 999)

/-- The last entry of the table has the end state. -/
theorem Expression.build_exprs (expression : Expression) :
    (expression.build predicates).exprs =
      (expression.closing.build predicates).exprs ++
        (expression.opening.build predicates).exprs ++
        [⟨.SEQ, (expression.opening.build predicates).toCEPStatePtr,
          some ⟨some predicates.stop, 1000, .Stopp⟩⟩] := by
  rw [build, CEPState.seq, (expression.closing.build_spec predicates).1]

theorem Expression.build_proper (expression : Expression) :
    (∀ expr ∈ (expression.build predicates).exprs, Proper predicates expr) ∧
      ∃ expr ∈ (expression.build predicates).exprs, expr.fromState.id = 0 := by
  obtain ⟨last, inside, first, early, zero⟩ := expression.opening.build_proper predicates
    fun id member => expression.positive id (List.mem_append_left _ member)
  have among := expression.closing.build_proper predicates
    fun id member => expression.positive id (List.mem_append_right _ member)
  rw [build_exprs]
  refine ⟨?_, first, List.mem_append_left _ (List.mem_append_right _ early), zero⟩
  intro expr member
  rcases List.mem_append.mp member with before | final
  · rcases List.mem_append.mp before with closing | opening
    · exact among expr closing
    · exact inside expr opening
  · rw [List.mem_singleton.mp final]
    exact proper_pair last ⟨fun _ => rfl, fun _ other => absurd rfl other⟩
      (Nat.succ_ne_zero 999)

/-- The number 1000 ends up with the end state, whoever had it before. -/
theorem Expression.stop_wins (expression : Expression)
    {entry : Nat × CEPStatePtr Event Related}
    (member : entry ∈ (expression.build predicates).exprs.foldl extractStates [])
    (final : entry.1 = 1000) : entry.2.pred = some predicates.stop := by
  rw [build_exprs, List.foldl_append] at member
  have ordered := (extractStates_spec ((expression.closing.build predicates).exprs ++
    (expression.opening.build predicates).exprs) ordered_nil).1
  rcases (mem_assignState (ordered_assignState ordered)).mp member with rfl | ⟨other, _⟩
  · rfl
  · exact absurd final other

/-- The entries of the map for an expression. -/
theorem Expression.entries (expression : Expression) :
    ∃ infos, createStates 0 0
        ((expression.build predicates).exprs.foldl extractStates []) = some infos ∧
      Entries predicates infos ∧
      (∀ expr ∈ (expression.build predicates).exprs, Known infos expr) ∧
      0 ∈ infos.map StateInfo.id := by
  obtain ⟨proper, first, early, zero⟩ := expression.build_proper predicates
  obtain ⟨ordered, origins, keys⟩ :=
    extractStates_spec (expression.build predicates).exprs ordered_nil
  have has : ∀ entry ∈ (expression.build predicates).exprs.foldl extractStates [],
      HasPredicate predicates entry.2 ∧ entry.2.id = entry.1 := by
    intro entry member
    rcases origins entry member with nothing | ⟨expr, inside, state, among, rfl⟩
    · cases nothing
    · exact ⟨(proper expr inside).states state among, rfl⟩
  obtain ⟨infos, created, creates, positions⟩ := createStates_spec
    ((expression.build predicates).exprs.foldl extractStates []) (by
      intro entry member nonzero
      obtain ⟨predicate, same⟩ := has entry member
      exact predicate.1 (same ▸ nonzero)) 0 0
  have ids : infos.map StateInfo.id =
      ((expression.build predicates).exprs.foldl extractStates []).map Prod.fst :=
    map_id_of_creates creates
  have known : ∀ expr ∈ (expression.build predicates).exprs, ∀ state ∈ exprStates expr,
      state.id ∈ infos.map StateInfo.id := by
    intro expr inside state among
    rw [ids]
    exact (keys state.id).mpr (.inr ⟨expr, inside, List.mem_map_of_mem among⟩)
  refine ⟨infos, created, ⟨?_, ?_, ?_⟩, ?_, ?_⟩
  · intro index info here
    rw [positions index info here, Nat.zero_add]
  · rw [ids]
    exact ordered.imp Nat.ne_of_lt
  · intro info member nonzero
    obtain ⟨entry, among, same, edges⟩ := exists_of_mem_right creates member
    obtain ⟨edge, eptr, predicate⟩ := edges (same ▸ nonzero)
    obtain ⟨right, number⟩ := has entry among
    refine ⟨edge, eptr, ?_⟩
    intro event
    by_cases final : entry.1 = 1000
    · rw [expression.stop_wins predicates among final] at predicate
      rw [Reads, same, if_pos final, Option.some.inj predicate]
    · rw [right.2 (number ▸ same ▸ nonzero) (number ▸ final), number] at predicate
      rw [Reads, same, if_neg final, Option.some.inj predicate]
  · intro expr inside sequence
    obtain ⟨toState, target, positive⟩ := (proper expr inside).target sequence
    refine ⟨known expr inside _ List.mem_cons_self, toState, target, positive, ?_⟩
    apply known expr inside
    simp [exprStates, target]
  · rw [← zero]
    exact known first early _ List.mem_cons_self

/-- The automaton of an expression accepts along the walks through its transitions,
unless one of them starts in the state with number 1000. -/
theorem Expression.constructNFA_spec (expression : Expression) :
    ((∃ edge ∈ expression.edges, edge.1 = 1000) →
      constructNFA (expression.build predicates) = none) ∧
    ((∀ edge ∈ expression.edges, edge.1 ≠ 1000) →
      ∃ nfa, constructNFA (expression.build predicates) = some nfa ∧
        ∀ events, Accepts nfa events ↔
          Walks (Transition predicates expression.edges) 0 events 1000) := by
  obtain ⟨infos, created, entries, known, zero⟩ := expression.entries predicates
  have initially : infos.map (fun info => createState info.id) =
      statesAfter infos ([] : List (Expr Event Related)) := rfl
  obtain ⟨start, found, same, _, here⟩ := entries.find zero
  have looped := foldlM_addTransition entries (expression.build predicates).exprs known []
  have leaves := any_leavesFinal_iff known
  rw [expression.transitions_build predicates] at leaves
  constructor
  · intro final
    rw [leaves.mpr final, if_pos rfl] at looped
    simp [constructNFA, created, initially, looped]
  · intro stays
    have none : ¬ (expression.build predicates).exprs.any leavesFinal = true := by
      intro some
      obtain ⟨edge, member, final⟩ := leaves.mp some
      exact stays edge member final
    rw [if_neg none, List.nil_append] at looped
    refine ⟨⟨statesAfter infos (expression.build predicates).exprs, start.nptr, .none,
      fun related _ _ => related⟩, ?_, ?_⟩
    · simp [constructNFA, created, initially, looped, found]
    · intro events
      rw [Accepts, ← expression.transitions_build predicates]
      have accepts := entries.acceptsFrom_iff known
        (expression.transitions_build predicates ▸ stays) (Eq.refl
          (⟨statesAfter infos (expression.build predicates).exprs, start.nptr, .none,
            fun related _ _ => related⟩ : NFAController Event Related).states) rfl events here
      rw [← same]
      exact accepts

end

end CEP

end PipeFabric
