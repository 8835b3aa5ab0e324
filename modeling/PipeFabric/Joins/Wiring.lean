import PipeFabric.Library.TransitionSystem
import PipeFabric.Qop.ScaleJoin

/-!
# The wiring of `Pipe::scaleJoin`

The left source pushes every tuple to one queue per instance; each queue hands its
tuples to its instance in a thread of its own.  The right source calls the
instances directly, one after the other.  A step is one push, one delivery from a
queue or one delivery from the right source.  `received` records what an instance
has been given and is no part of the program.
-/

namespace PipeFabric.Wiring

open ChangeStream

/-- The two sources, the queues and the join instances.  `lefts` and `rights` start
with the tuple being published, `leftSlot` and `rightSlot` count the subscribers
that have got it. -/
structure State (L R K : Type) where
  lefts : List L
  leftSlot : Nat
  rights : List R
  rightSlot : Nat
  queues : Nat → List L
  joins : Nat → ScaleJoin.State L R K
  published : Nat → List (Change (L × R))
  received : Nat → List (JoinInput L R)

inductive Action where
  /-- The left source pushes its tuple to the next queue. -/
  | push
  /-- `Queue::dequeueTuple` of one queue. -/
  | dequeue (i : Nat)
  /-- The right source calls the next instance. -/
  | deliver
  deriving DecidableEq

variable {L R K : Type} [DecidableEq L] [DecidableEq R] [DecidableEq K]

/-- Nothing is published yet. -/
def initial (lefts : List L) (rights : List R) : State L R K where
  lefts := lefts
  leftSlot := 0
  rights := rights
  rightSlot := 0
  queues := fun _ => []
  joins := fun _ => .empty
  published := fun _ => []
  received := fun _ => []

/-- A synchronous publisher after its tuple has reached one more subscriber. -/
def nextSlot {α : Type} (threadnum slot : Nat) (pending : List α) : List α × Nat :=
  if slot + 1 = threadnum then (pending.tail, 0) else (pending, slot + 1)

/-- One instance processes an element. -/
def give (join : SHJoin L R K) (key_t : K → K) (threadnum : Nat)
    (state : State L R K) (i : Nat) (input : JoinInput L R) : State L R K :=
  let result := ScaleJoin.processDataElement
    (ScaleJoin.scJoin join key_t threadnum i) (state.joins i) input
  { state with
    joins := Function.update state.joins i result.1
    published := Function.update state.published i
      (state.published i ++ result.2)
    received := Function.update state.received i
      (state.received i ++ [input]) }

def step (join : SHJoin L R K) (key_t : K → K) (threadnum : Nat)
    (state : State L R K) : Action → Option (State L R K)
  | .push =>
      match state.lefts with
      | [] => none
      | tuple :: _ =>
          let next := nextSlot threadnum state.leftSlot state.lefts
          some { state with
            lefts := next.1
            leftSlot := next.2
            queues := Function.update state.queues state.leftSlot
              (state.queues state.leftSlot ++ [tuple]) }
  | .dequeue i =>
      match state.queues i with
      | [] => none
      | tuple :: rest =>
          some (give join key_t threadnum
            { state with queues := Function.update state.queues i rest } i
            (.left ⟨tuple, false⟩))
  | .deliver =>
      match state.rights with
      | [] => none
      | tuple :: _ =>
          let next := nextSlot threadnum state.rightSlot state.rights
          some (give join key_t threadnum
            { state with rights := next.1, rightSlot := next.2 }
            state.rightSlot (.right ⟨tuple, false⟩))

/-- Everything is published, and the queues of the instances are empty. -/
def Finished (threadnum : Nat) (state : State L R K) : Prop :=
  state.lefts = [] ∧ state.rights = [] ∧ ∀ i < threadnum, state.queues i = []

/-- What a synchronous publisher has not given to a subscriber. -/
def pendingFor {α : Type} (pending : List α) (slot i : Nat) : List α :=
  if i < slot then pending.tail else pending

theorem nextSlot_lt {α : Type} {threadnum slot : Nat} (running : slot < threadnum)
    (pending : List α) : (nextSlot threadnum slot pending).2 < threadnum := by
  unfold nextSlot
  split <;> dsimp only <;> omega

theorem pendingFor_nextSlot_self {α : Type} (threadnum slot : Nat)
    (pending : List α) :
    pendingFor (nextSlot threadnum slot pending).1
      (nextSlot threadnum slot pending).2 slot = pending.tail := by
  unfold nextSlot pendingFor
  split
  · rw [if_neg (Nat.not_lt_zero slot)]
  · rw [if_pos (Nat.lt_succ_self slot)]

theorem pendingFor_nextSlot_other {α : Type} {threadnum slot i : Nat}
    (running : i < threadnum) (other : i ≠ slot) (pending : List α) :
    pendingFor (nextSlot threadnum slot pending).1
      (nextSlot threadnum slot pending).2 i = pendingFor pending slot i := by
  unfold nextSlot pendingFor
  split
  · rw [if_neg (Nat.not_lt_zero i), if_pos (by omega)]
  · dsimp only
    by_cases earlier : i < slot
    · rw [if_pos earlier, if_pos (by omega)]
    · rw [if_neg earlier, if_neg (by omega)]

/-- What every instance has received and what is on its way to it. -/
structure Delivered (join : SHJoin L R K) (key_t : K → K) (threadnum : Nat)
    (lefts : List L) (rights : List R) (state : State L R K) : Prop where
  leftSlot : state.leftSlot < threadnum
  rightSlot : state.rightSlot < threadnum
  joins : ∀ i, state.joins i =
    (ScaleJoin.process (ScaleJoin.scJoin join key_t threadnum i)
      (state.received i)).1
  published : ∀ i, state.published i =
    (ScaleJoin.process (ScaleJoin.scJoin join key_t threadnum i)
      (state.received i)).2
  left : ∀ i, i < threadnum → ∃ given,
    JoinInput.lefts (state.received i) = insertAll given ∧
      given ++ state.queues i ++ pendingFor state.lefts state.leftSlot i = lefts
  right : ∀ i, i < threadnum → ∃ given,
    JoinInput.rights (state.received i) = insertAll given ∧
      given ++ pendingFor state.rights state.rightSlot i = rights

section

variable {join : SHJoin L R K} {key_t : K → K} {threadnum : Nat}
  {lefts : List L} {rights : List R} {state : State L R K}

theorem delivered_initial (positive : 0 < threadnum) :
    Delivered join key_t threadnum lefts rights (initial lefts rights) where
  leftSlot := positive
  rightSlot := positive
  joins := fun _ => rfl
  published := fun _ => rfl
  left := fun _ _ => ⟨[], rfl, rfl⟩
  right := fun _ _ => ⟨[], rfl, rfl⟩

/-- Giving an element to an instance only touches that instance. -/
theorem give_joins (i : Nat) (input : JoinInput L R)
    (joins : ∀ j, state.joins j =
      (ScaleJoin.process (ScaleJoin.scJoin join key_t threadnum j)
        (state.received j)).1) (j : Nat) :
    (give join key_t threadnum state i input).joins j =
      (ScaleJoin.process (ScaleJoin.scJoin join key_t threadnum j)
        ((give join key_t threadnum state i input).received j)).1 := by
  unfold give
  dsimp only
  by_cases same : j = i
  · subst same
    rw [Function.update_self, Function.update_self, ScaleJoin.process_concat,
      joins]
  · rw [Function.update_of_ne same, Function.update_of_ne same, joins]

theorem give_published (i : Nat) (input : JoinInput L R)
    (joins : ∀ j, state.joins j =
      (ScaleJoin.process (ScaleJoin.scJoin join key_t threadnum j)
        (state.received j)).1)
    (published : ∀ j, state.published j =
      (ScaleJoin.process (ScaleJoin.scJoin join key_t threadnum j)
        (state.received j)).2) (j : Nat) :
    (give join key_t threadnum state i input).published j =
      (ScaleJoin.process (ScaleJoin.scJoin join key_t threadnum j)
        ((give join key_t threadnum state i input).received j)).2 := by
  unfold give
  dsimp only
  by_cases same : j = i
  · subst same
    rw [Function.update_self, Function.update_self, ScaleJoin.process_concat,
      joins, published]
  · rw [Function.update_of_ne same, Function.update_of_ne same, published]

theorem give_received (i : Nat) (input : JoinInput L R) (j : Nat) :
    (give join key_t threadnum state i input).received j =
      if j = i then state.received j ++ [input] else state.received j := by
  unfold give
  dsimp only
  rw [Function.update_apply]
  split
  · rename_i same
    rw [same]
  · rfl

/-- No step loses, repeats or reorders a tuple on its way. -/
theorem Delivered.step
    (delivered : Delivered join key_t threadnum lefts rights state)
    {action : Action} {next : State L R K}
    (stepped : step join key_t threadnum state action = some next) :
    Delivered join key_t threadnum lefts rights next := by
  cases action with
  | push =>
      simp only [Wiring.step] at stepped
      split at stepped
      · cases stepped
      · rename_i tuple rest pendingIs
        cases stepped
        refine ⟨nextSlot_lt delivered.leftSlot _, delivered.rightSlot,
          delivered.joins, delivered.published, ?_, delivered.right⟩
        intro i running
        obtain ⟨given, received, split⟩ := delivered.left i running
        refine ⟨given, received, ?_⟩
        dsimp only
        by_cases same : i = state.leftSlot
        · subst same
          rw [pendingFor_nextSlot_self, Function.update_self, ← split,
            pendingFor, if_neg (Nat.lt_irrefl _), pendingIs]
          simp
        · rw [pendingFor_nextSlot_other running same,
            Function.update_of_ne same, split]
  | dequeue i =>
      simp only [Wiring.step] at stepped
      split at stepped
      · cases stepped
      · rename_i tuple rest queueIs
        cases stepped
        refine ⟨delivered.leftSlot, delivered.rightSlot,
          give_joins i _ delivered.joins,
          give_published i _ delivered.joins delivered.published, ?_, ?_⟩
        · intro j running
          obtain ⟨given, received, split⟩ := delivered.left j running
          rw [give_received]
          by_cases same : j = i
          · subst same
            refine ⟨given ++ [tuple], ?_, ?_⟩
            · rw [if_pos rfl]
              simp [received]
            · rw [← split, queueIs]
              simp [give]
          · refine ⟨given, ?_, ?_⟩
            · rw [if_neg same]
              exact received
            · simpa [give, Function.update_of_ne same] using split
        · intro j running
          obtain ⟨given, received, split⟩ := delivered.right j running
          refine ⟨given, ?_, split⟩
          rw [give_received]
          split_ifs
          · simpa using received
          · exact received
  | deliver =>
      simp only [Wiring.step] at stepped
      split at stepped
      · cases stepped
      · rename_i tuple rest pendingIs
        cases stepped
        refine ⟨delivered.leftSlot, nextSlot_lt delivered.rightSlot _,
          give_joins _ _ delivered.joins,
          give_published _ _ delivered.joins delivered.published, ?_, ?_⟩
        · intro j running
          obtain ⟨given, received, split⟩ := delivered.left j running
          refine ⟨given, ?_, split⟩
          rw [give_received]
          split_ifs
          · simpa using received
          · exact received
        · intro j running
          obtain ⟨given, received, split⟩ := delivered.right j running
          rw [give_received]
          by_cases same : j = state.rightSlot
          · refine ⟨given ++ [tuple], ?_, ?_⟩
            · rw [if_pos same]
              simp [received]
            · subst same
              have waiting : pendingFor state.rights state.rightSlot
                  state.rightSlot = tuple :: rest := by
                rw [pendingFor, if_neg (Nat.lt_irrefl _), pendingIs]
              simp only [give]
              rw [pendingFor_nextSlot_self, ← split, waiting, pendingIs]
              simp
          · refine ⟨given, ?_, ?_⟩
            · rw [if_neg same]
              exact received
            · simp only [give]
              rw [pendingFor_nextSlot_other running same, split]

/-- At the end every instance has received both inputs in their order. -/
theorem Delivered.finished
    (delivered : Delivered join key_t threadnum lefts rights state)
    (finished : Finished threadnum state) {i : Nat} (running : i < threadnum) :
    JoinInput.lefts (state.received i) = insertAll lefts ∧
      JoinInput.rights (state.received i) = insertAll rights := by
  obtain ⟨noLefts, noRights, noQueues⟩ := finished
  obtain ⟨given, received, split⟩ := delivered.left i running
  obtain ⟨given', received', split'⟩ := delivered.right i running
  have nothing : ∀ {α : Type} (slot : Nat),
      pendingFor ([] : List α) slot i = [] := by
    intro α slot
    unfold pendingFor
    split <;> rfl
  rw [noLefts, noQueues i running, nothing, List.append_nil,
    List.append_nil] at split
  rw [noRights, nothing, List.append_nil] at split'
  rw [received, received', split, split']
  exact ⟨rfl, rfl⟩

end

end PipeFabric.Wiring
