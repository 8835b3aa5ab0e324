import PipeFabric.Dsl.Dataflow

/-!
# What `merge` connects

`merge` connects all operators from the iterator of its pipe to the end of the list.
These are the operators of the pipe just when nothing was added behind them.
-/

namespace PipeFabric.Dataflow

variable {Ty : Type}

/-- The operators of a pipe stand side by side in the list, the first of them where the
iterator points to. -/
def Placed (dataflow : Dataflow Ty) (pipe : Pipe Ty) : Prop :=
  match pipe.tailIter with
  | .publisherEnd => pipe.own = []
  | .element position =>
      ∃ earlier added later, dataflow.publishers = earlier ++ added ++ later ∧
        earlier.length = position ∧ added ++ later ≠ [] ∧
          pipe.own = List.range' position added.length ∧
            ∀ op ∈ added, op.output = pipe.tuple

/-- No operator stands behind those of the pipe. -/
def Last (dataflow : Dataflow Ty) (pipe : Pipe Ty) : Prop :=
  match pipe.tailIter with
  | .publisherEnd => True
  | .element position => dataflow.size = position + pipe.own.length

/-- The merge operator gets what the operators of the pipe publish, of each once, and
nothing else. -/
def Merging.ConnectsOwn (merging : Merging) : Prop :=
  merging.connected = some merging.own ∧ merging.own.Nodup

/-- All pipes are in their place. -/
def AllPlaced (state : State Ty) : Prop :=
  ∀ pipe ∈ state.pipes, Placed state.dataflow pipe

/-- An operator is not connected twice. -/
theorem Placed.nodup {dataflow : Dataflow Ty} {pipe : Pipe Ty}
    (placed : Placed dataflow pipe) : pipe.own.Nodup := by
  unfold Placed at placed
  split at placed
  · rw [placed]
    exact List.nodup_nil
  · obtain ⟨earlier, added, later, _, _, _, own, _⟩ := placed
    rw [own]
    exact List.nodup_range'

section

variable [DecidableEq Ty]

/-- The operators that are connected beyond those of the pipe are those behind them. -/
theorem connected_eq_own_iff {dataflow : Dataflow Ty} {pipe : Pipe Ty}
    (placed : Placed dataflow pipe) :
    connected dataflow pipe = some pipe.own ↔ Last dataflow pipe := by
  unfold Placed at placed
  unfold connected Last
  cases place : pipe.tailIter with
  | publisherEnd =>
      rw [place] at placed
      simp [placed]
  | element position =>
      rw [place] at placed
      obtain ⟨earlier, added, later, publishers, rfl, _, own, outputs⟩ := placed
      have length : dataflow.size = earlier.length + added.length + later.length := by
        rw [size, publishers, List.length_append, List.length_append]
      have rest : dataflow.publishers.drop earlier.length = added ++ later := by
        rw [publishers, List.append_assoc, List.drop_left]
      simp only [rest, own, List.length_range']
      constructor
      · intro same
        split at same
        · have lengths := congrArg List.length (Option.some.inj same)
          rw [List.length_range', List.length_range'] at lengths
          omega
        · cases same
      · intro last
        have nothing : later = [] := List.length_eq_zero_iff.mp (by omega)
        rw [if_pos]
        · congr 2
          omega
        · rw [nothing, List.append_nil]
          exact outputs

end

/-! ## Adding operators -/

/-- Pipes stay in their place, whatever state of partitioning they are given. -/
theorem Placed.grown {dataflow : Dataflow Ty} {pipe : Pipe Ty}
    (placed : Placed dataflow pipe) (more : List (BaseOp Ty))
    (partitioningState : PartitioningState) :
    Placed ⟨dataflow.publishers ++ more⟩
      { pipe with partitioningState := partitioningState } := by
  unfold Placed at placed ⊢
  cases place : pipe.tailIter with
  | publisherEnd =>
      rw [place] at placed
      exact placed
  | element position =>
      rw [place] at placed
      obtain ⟨earlier, added, later, publishers, length, occupied, own, outputs⟩ := placed
      refine ⟨earlier, added, later ++ more, ?_, length, ?_, own, outputs⟩
      · rw [publishers, List.append_assoc]
      · intro nothing
        apply occupied
        rw [← List.append_assoc] at nothing
        exact (List.append_eq_nil_iff.mp nothing).1

/-- One operator that was just added. -/
theorem placed_one (dataflow : Dataflow Ty) {pipe : Pipe Ty} {output : Ty}
    (tuple : pipe.tuple = output)
    (place : pipe.tailIter = .element dataflow.publishers.length)
    (own : pipe.own = dataflow.next 1) :
    Placed ⟨dataflow.publishers ++ [⟨output, false⟩]⟩ pipe := by
  rw [Placed, place]
  refine ⟨dataflow.publishers, [⟨output, false⟩], [], ?_, rfl, ?_, own, ?_⟩
  · rw [List.append_nil]
  · exact List.cons_ne_nil _ _
  · intro op member
    rw [List.mem_singleton.mp member, tuple]

/-- A list of operators that was just added. -/
theorem placed_list (dataflow : Dataflow Ty) (number : Nat) {pipe : Pipe Ty} {output : Ty}
    (tuple : pipe.tuple = output)
    (place : pipe.tailIter =
      (dataflow.addPublisherList (List.replicate number ⟨output, false⟩)).2)
    (own : pipe.own = dataflow.next number) :
    Placed ⟨dataflow.publishers ++ List.replicate number ⟨output, false⟩⟩ pipe := by
  rw [Placed, place]
  cases number with
  | zero => simpa [addPublisherList, next] using own
  | succ number =>
      refine ⟨dataflow.publishers, List.replicate (number + 1) ⟨output, false⟩, [], ?_, rfl,
        ?_, ?_, ?_⟩
      · rw [List.append_nil]
      · rw [List.append_nil]
        exact List.cons_ne_nil _ _
      · rw [own, next, size, List.length_replicate]
      · intro op member
        rw [List.eq_of_mem_replicate member, tuple]

/-- The `PartitionBy` operator that was just added. -/
theorem placed_partitionBy (dataflow : Dataflow Ty) {pipe : Pipe Ty}
    (place : pipe.tailIter = .element dataflow.publishers.length) (own : pipe.own = [])
    (op : BaseOp Ty) : Placed ⟨dataflow.publishers ++ [op]⟩ pipe := by
  rw [Placed, place]
  refine ⟨dataflow.publishers, [], [op], ?_, rfl, ?_, own, ?_⟩
  · rw [List.append_nil]
  · exact List.cons_ne_nil _ _
  · intro other member
    cases member

/-! ## The calls -/

/-- A new pipe next to the others. -/
theorem AllPlaced.returned {state : State Ty} (placed : AllPlaced state)
    {dataflow : Dataflow Ty} {pipe : Pipe Ty}
    (grown : state.dataflow.publishers <+: dataflow.publishers)
    (new : Placed dataflow pipe) : AllPlaced (state.returned dataflow pipe) := by
  obtain ⟨more, publishers⟩ := grown
  have whole : dataflow = ⟨state.dataflow.publishers ++ more⟩ := by rw [publishers]
  intro other member
  rcases List.mem_append.mp member with old | added
  · have kept := (placed other old).grown more other.partitioningState
    rw [← whole] at kept
    exact kept
  · rw [List.mem_singleton.mp added]
    exact new

/-- The pipe a method is called on may change its state of partitioning. -/
theorem AllPlaced.set {state : State Ty} (placed : AllPlaced state) {number : Nat}
    {pipe : Pipe Ty} (here : state.pipes[number]? = some pipe)
    (partitioningState : PartitioningState) :
    AllPlaced { state with
      pipes := state.pipes.set number
        { pipe with partitioningState := partitioningState } } := by
  intro other member
  rcases List.mem_or_eq_of_mem_set member with old | rfl
  · exact placed other old
  · have grown := (placed pipe (List.mem_of_getElem? here)).grown [] partitioningState
    rw [List.append_nil] at grown
    exact grown

/-- What a call does: it keeps the pipes in their place, and only `merge` records
something. -/
structure Returns (state next : State Ty) (recorded : List Merging) : Prop where
  allPlaced : AllPlaced next
  merges : next.merges = state.merges ++ recorded

theorem join_returns {state : State Ty} (placed : AllPlaced state) {number : Nat}
    {pipe : Pipe Ty} (here : state.pipes[number]? = some pipe) (output : Ty) :
    Returns state (join state number pipe output) [] := by
  have changed : AllPlaced { state with
      pipes := state.pipes.set number
        (if pipe.partitioningState = .FirstInPartitioning then
          { pipe with partitioningState := .NextInPartitioning } else pipe) } := by
    split
    · exact placed.set here .NextInPartitioning
    · exact placed.set here pipe.partitioningState
  constructor
  · exact changed.returned (List.prefix_append _ _) (placed_list _ _ rfl rfl rfl)
  · exact (List.append_nil _).symm

theorem scaleJoin_returns {state : State Ty} (placed : AllPlaced state) (pipe : Pipe Ty)
    (threadnum : Nat) (output : Ty) :
    Returns state (scaleJoin state pipe threadnum output) [] := by
  constructor
  · apply placed.returned
    · exact ((List.prefix_append _ _).trans (List.prefix_append _ _)).trans
        (List.prefix_append _ _)
    · exact placed_one _ rfl rfl rfl
  · exact (List.append_nil _).symm

variable [DecidableEq Ty]

/-- What `addPublisher` returns. -/
theorem addPublisher_eq_some {dataflow : Dataflow Ty} {pipe : Pipe Ty} {element : Ty}
    {op : BaseOp Ty} {added : Dataflow Ty × OpIterator}
    (returned : Pipe.addPublisher dataflow pipe element op = some added) :
    added = dataflow.addPublisher op := by
  obtain ⟨pOp, _, rest⟩ := Option.bind_eq_some_iff.mp returned
  split at rest
  · exact (Option.some.inj rest).symm
  · cases rest

/-- What `addPartitionedPublisher` returns, with the pipe it changed. -/
theorem addPartitionedPublisher_eq_some {dataflow : Dataflow Ty} {pipe : Pipe Ty}
    {element : Ty} {opList : List (BaseOp Ty)}
    {added : Pipe Ty × Dataflow Ty × OpIterator}
    (returned : Pipe.addPartitionedPublisher dataflow pipe element opList = some added) :
    added = ({ pipe with partitioningState := .NextInPartitioning },
      dataflow.addPublisherList opList) := by
  unfold Pipe.addPartitionedPublisher at returned
  cases state : pipe.partitioningState with
  | NoPartitioning => simp [state] at returned
  | FirstInPartitioning =>
      rw [state] at returned
      obtain ⟨pOp, _, rest⟩ := Option.bind_eq_some_iff.mp returned
      split at rest
      · exact (Option.some.inj rest).symm
      · cases rest
  | NextInPartitioning =>
      rw [state] at returned
      dsimp only at returned
      split at returned
      · rw [← Option.some.inj returned, ← state]
      · cases returned

theorem append_returns {state next : State Ty} (placed : AllPlaced state) {number : Nat}
    {pipe : Pipe Ty} (here : state.pipes[number]? = some pipe) {element output : Ty}
    (appended : append state number pipe element output = some next) :
    Returns state next [] := by
  unfold append at appended
  split at appended
  · obtain ⟨added, returned, rest⟩ := Option.bind_eq_some_iff.mp appended
    obtain rfl := addPublisher_eq_some returned
    obtain rfl := Option.some.inj rest
    constructor
    · exact placed.returned (List.prefix_append _ _) (placed_one _ rfl rfl rfl)
    · exact (List.append_nil _).symm
  · obtain ⟨added, returned, rest⟩ := Option.bind_eq_some_iff.mp appended
    obtain rfl := addPartitionedPublisher_eq_some returned
    obtain rfl := Option.some.inj rest
    constructor
    · exact (placed.set here .NextInPartitioning).returned (List.prefix_append _ _)
        (placed_list _ _ rfl rfl rfl)
    · exact (List.append_nil _).symm

theorem appendOne_returns {state next : State Ty} (placed : AllPlaced state)
    {pipe : Pipe Ty} {element output : Ty}
    (appended : appendOne state pipe element output = some next) :
    Returns state next [] := by
  obtain ⟨added, returned, rest⟩ := Option.bind_eq_some_iff.mp appended
  obtain rfl := addPublisher_eq_some returned
  obtain rfl := Option.some.inj rest
  constructor
  · exact placed.returned (List.prefix_append _ _) (placed_one _ rfl rfl rfl)
  · exact (List.append_nil _).symm

theorem partitionBy_returns {state next : State Ty} (placed : AllPlaced state)
    {pipe : Pipe Ty} {nPartitions : Nat}
    (parted : partitionBy state pipe nPartitions = some next) : Returns state next [] := by
  unfold partitionBy at parted
  split at parted
  · obtain ⟨added, returned, rest⟩ := Option.bind_eq_some_iff.mp parted
    obtain rfl := addPublisher_eq_some returned
    obtain rfl := Option.some.inj rest
    constructor
    · exact placed.returned (List.prefix_append _ _) (placed_partitionBy _ rfl rfl _)
    · exact (List.append_nil _).symm
  · cases parted

theorem merge_returns {state next : State Ty} (placed : AllPlaced state) {pipe : Pipe Ty}
    (merged : merge state pipe = some next) :
    Returns state next [⟨pipe.own, connected state.dataflow pipe⟩] := by
  unfold merge at merged
  split at merged
  · dsimp only at merged
    split at merged
    · obtain rfl := Option.some.inj merged
      exact ⟨placed, rfl⟩
    · obtain rfl := Option.some.inj merged
      constructor
      · apply placed.returned
        · exact (List.prefix_append _ _).trans (List.prefix_append _ _)
        · exact placed_one (state.dataflow.addPublisher ⟨pipe.tuple, false⟩).1 rfl rfl rfl
      · rfl
  · cases merged

/-- What a call adds to the record. -/
def recorded (state : State Ty) : Action Ty → List Merging
  | .merge number =>
      (state.pipes[number]?.map fun pipe =>
        (⟨pipe.own, connected state.dataflow pipe⟩ : Merging)).toList
  | _ => []

theorem step_returns {state next : State Ty} (placed : AllPlaced state) {action : Action Ty}
    (stepped : step state action = some next) :
    Returns state next (recorded state action) := by
  cases action with
  | newStream output =>
      obtain rfl := Option.some.inj stepped
      constructor
      · exact placed.returned (List.prefix_append _ _) (placed_one _ rfl rfl rfl)
      · exact (List.append_nil _).symm
  | assign number =>
      obtain ⟨pipe, here, rfl⟩ := Option.map_eq_some_iff.mp stepped
      constructor
      · exact placed.returned List.prefix_rfl (placed pipe (List.mem_of_getElem? here))
      · exact (List.append_nil _).symm
  | append number element output =>
      obtain ⟨pipe, here, appended⟩ := Option.bind_eq_some_iff.mp stepped
      exact append_returns placed here appended
  | appendOne number element output =>
      obtain ⟨pipe, here, appended⟩ := Option.bind_eq_some_iff.mp stepped
      exact appendOne_returns placed appended
  | partitionBy number nPartitions =>
      obtain ⟨pipe, here, parted⟩ := Option.bind_eq_some_iff.mp stepped
      exact partitionBy_returns placed parted
  | join number output =>
      obtain ⟨pipe, here, rfl⟩ := Option.map_eq_some_iff.mp stepped
      exact join_returns placed here output
  | scaleJoin number threadnum output =>
      obtain ⟨pipe, here, rfl⟩ := Option.map_eq_some_iff.mp stepped
      exact scaleJoin_returns placed pipe threadnum output
  | merge number =>
      obtain ⟨pipe, here, merged⟩ := Option.bind_eq_some_iff.mp stepped
      have returns := merge_returns placed merged
      simpa [recorded, here] using returns

/-! ## Whole programs -/

/-- The pipes are in their place after every program. -/
theorem run_allPlaced {actions : List (Action Ty)} {state : State Ty}
    (built : TransitionSystem.run step .empty actions = some state) : AllPlaced state := by
  apply (TransitionSystem.Execution.of_run built).invariant
  · intro pipe member
    cases member
  · intro before action next placed _ stepped
    exact (step_returns placed stepped).allPlaced

/-- Every pipe that is merged is the last one at that time. -/
def LastWhenMerged (actions : List (Action Ty)) : Prop :=
  ∀ seen number later, actions = seen ++ .merge number :: later →
    ∀ before, TransitionSystem.run step .empty seen = some before →
      ∀ pipe, before.pipes[number]? = some pipe → Last before.dataflow pipe

/-- One more call. -/
theorem lastWhenMerged_concat {seen : List (Action Ty)} {action : Action Ty}
    {before : State Ty} (built : TransitionSystem.run step .empty seen = some before) :
    LastWhenMerged (seen ++ [action]) ↔
      LastWhenMerged seen ∧ ∀ number, action = .merge number →
        ∀ pipe, before.pipes[number]? = some pipe → Last before.dataflow pipe := by
  constructor
  · intro every
    constructor
    · intro earlier number later split
      apply every earlier number (later ++ [action])
      rw [split, List.append_assoc]
      rfl
    · intro number merged pipe here
      exact every seen number [] (by rw [merged]) before built pipe here
  · intro both earlier number later split
    induction later using List.reverseRecOn with
    | nil =>
        obtain ⟨rfl, same⟩ := List.append_inj' split rfl
        intro start reached pipe here
        rw [built] at reached
        obtain rfl := Option.some.inj reached
        exact both.2 number (List.cons.inj same).1 pipe here
    | append_singleton later last _ =>
        rw [← List.cons_append, ← List.append_assoc] at split
        obtain ⟨rfl, _⟩ := List.append_inj' split rfl
        exact both.1 earlier number later rfl

/-- In every program the calls of `merge` connect the operators of their pipes, and
nothing else, just when each of these pipes is the last one at that time. -/
theorem merge_connectsOwn_iff {actions : List (Action Ty)} {state : State Ty}
    (built : TransitionSystem.run step .empty actions = some state) :
    (∀ merging ∈ state.merges, merging.ConnectsOwn) ↔ LastWhenMerged actions := by
  induction actions using List.reverseRecOn generalizing state with
  | nil =>
      obtain rfl := Option.some.inj built
      apply iff_of_true
      · intro merging member
        cases member
      · intro seen number later split
        have nothing := congrArg List.length split
        simp at nothing
  | append_singleton seen action induction =>
      rw [TransitionSystem.run_append] at built
      obtain ⟨before, reached, last⟩ := Option.bind_eq_some_iff.mp built
      obtain ⟨next, stepped, same⟩ := Option.bind_eq_some_iff.mp last
      obtain rfl := Option.some.inj same
      have placed := run_allPlaced reached
      rw [lastWhenMerged_concat reached, ← induction reached,
        (step_returns placed stepped).merges]
      have once : (∀ merging ∈ recorded before action, merging.ConnectsOwn) ↔
          ∀ number, action = .merge number →
            ∀ pipe, before.pipes[number]? = some pipe → Last before.dataflow pipe := by
        cases action with
        | merge number =>
            constructor
            · intro every other same pipe here
              obtain rfl := Action.merge.inj same
              apply (connected_eq_own_iff (placed pipe (List.mem_of_getElem? here))).mp
              exact (every ⟨pipe.own, connected before.dataflow pipe⟩
                (by simp [recorded, here])).1
            · intro last merging member
              simp only [recorded, Option.mem_toList,
                Option.map_eq_some_iff] at member
              obtain ⟨pipe, here, rfl⟩ := member
              have own := placed pipe (List.mem_of_getElem? here)
              exact ⟨(connected_eq_own_iff own).mpr (last number rfl pipe here), own.nodup⟩
        | _ => simp [recorded]
      rw [← once]
      simp only [List.mem_append, or_imp, forall_and]

/-- A stream that is partitioned, mapped and merged at once. -/
theorem merge_connectsOwn_partitions :
    ∃ state, TransitionSystem.run step .empty
        [.newStream (), .partitionBy 0 2, .append 1 () (), .merge 2] = some state ∧
      ((∀ merging ∈ state.merges, merging.ConnectsOwn) ↔ LastWhenMerged
        [.newStream (), .partitionBy 0 2, .append 1 () (), .merge 2]) :=
  ⟨_, rfl, merge_connectsOwn_iff rfl⟩

/-- A second stream is connected to the merge operator of the first pipe. -/
theorem not_merge_connectsOwn :
    ¬ ∀ (actions : List (Action Unit)) (state : State Unit),
      TransitionSystem.run step .empty actions = some state →
        ∀ merging ∈ state.merges, merging.ConnectsOwn := by
  intro every
  have connects := every
    [.newStream (), .partitionBy 0 2, .append 1 () (), .newStream (), .merge 2] _ rfl
    ⟨[2, 3], some [2, 3, 4]⟩ (by decide)
  revert connects
  unfold Merging.ConnectsOwn
  decide

end PipeFabric.Dataflow
