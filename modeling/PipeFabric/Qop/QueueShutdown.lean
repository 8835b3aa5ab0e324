import PipeFabric.Library.TransitionSystem
import PipeFabric.Qop.Queue

/-!
# The threads of the queue operator

The producers that push to the queue, the thread of the `DequeueNotifier` that pops
from it, and the destructor that ends this thread run concurrently.  Here `pop`,
`push` and `stop` are taken apart into the steps another thread can get between:
what a thread does under `mutex_`, the release of the mutex and the beginning of the
sleep in `cond_.wait`, which are one step, and the calls that notify.
-/

namespace PipeFabric.QueueThreads

variable {T : Type}

/-- Where the consumer thread is: at the test of the loop in `operator()`, before it
locks the mutex in `pop`, before it evaluates the predicate, between the predicate
and the sleep, asleep, woken but without the mutex, behind the wait, at the end. -/
inductive Consumer where
  | looping
  | entering
  | testing
  | waiting
  | asleep
  | woken
  | taking
  | finished
  deriving DecidableEq

/-- Where a producer is in `push`. -/
inductive Producer (T : Type) where
  | idle
  | locking (item : T)
  | pushing (item : T)
  | pushed
  | notifying

/-- Where the thread is that destroys the operator: `mInterrupted` is set first, then
`stop` sets `stopped_` and notifies, and then the consumer thread is joined. -/
inductive Destructor where
  | running
  | interrupted
  | stopped
  | notified
  | joined
  deriving DecidableEq

/-- The consumer has the mutex. -/
def Consumer.holdsMutex : Consumer → Bool
  | .testing | .waiting | .taking => true
  | _ => false

/-- The producer has the mutex. -/
def Producer.holdsMutex : Producer T → Bool
  | .pushing _ | .pushed => true
  | _ => false

/-- What the threads share, and where each of them is. -/
structure State (T : Type) where
  mQueue : ConcurrentQueue T
  mutex_ : Bool
  mInterrupted : Bool
  consumer : Consumer
  producers : Nat → Producer T
  destructor : Destructor

/-- A new operator whose consumer thread has just started. -/
def init : State T := ⟨.init, false, false, .looping, fun _ => .idle, .running⟩

/-- `notify_one` and `notify_all`: the consumer is the only thread that ever sleeps on
the condition variable. -/
def State.notify (state : State T) : State T :=
  if state.consumer = .asleep then { state with consumer := .woken } else state

/-- The next step of the consumer thread. -/
def consume (state : State T) : Option (State T) :=
  match state.consumer with
  | .looping =>
      some { state with consumer := if state.mInterrupted then .finished else .entering }
  | .entering =>
      if state.mutex_ then none
      else some { state with mutex_ := true, consumer := .testing }
  | .testing =>
      some { state with
        consumer :=
          if !state.mQueue.queue_.isEmpty || state.mQueue.stopped_ then .taking
          else .waiting }
  | .waiting => some { state with mutex_ := false, consumer := .asleep }
  | .asleep => none
  | .woken =>
      if state.mutex_ then none
      else some { state with mutex_ := true, consumer := .testing }
  | .taking =>
      state.mQueue.pop.map fun popped =>
        { state with mQueue := popped.2, mutex_ := false, consumer := .looping }
  | .finished => none

/-- A producer goes on. -/
def State.produced (state : State T) (producer : Nat) (reached : Producer T) : State T :=
  { state with producers := Function.update state.producers producer reached }

/-- The next step of a producer that is in `push`. -/
def produce (state : State T) (producer : Nat) : Option (State T) :=
  match state.producers producer with
  | .idle => none
  | .locking item =>
      if state.mutex_ then none
      else some ({ state with mutex_ := true }.produced producer (.pushing item))
  | .pushing item =>
      some ({ state with mQueue := state.mQueue.push item }.produced producer .pushed)
  | .pushed => some ({ state with mutex_ := false }.produced producer .notifying)
  | .notifying => some (state.notify.produced producer .idle)

/-- The next step of the destructor; `join` waits for the end of the consumer. -/
def destroy (state : State T) : Option (State T) :=
  match state.destructor with
  | .running => some { state with mInterrupted := true, destructor := .interrupted }
  | .interrupted => some { state with mQueue := state.mQueue.stop, destructor := .stopped }
  | .stopped => some { state.notify with destructor := .notified }
  | .notified =>
      if state.consumer = .finished then some { state with destructor := .joined } else none
  | .joined => none

/-- The steps of the threads; `wakeUp` is a spurious one. -/
inductive Action (T : Type) where
  | consume
  | wakeUp
  | call (producer : Nat) (item : T)
  | produce (producer : Nat)
  | destroy

/-- One step; `none` where it cannot be taken. -/
def step (state : State T) : Action T → Option (State T)
  | .consume => consume state
  | .wakeUp => if state.consumer = .asleep then some state.notify else none
  | .call producer item =>
      match state.producers producer with
      | .idle => some (state.produced producer (.locking item))
      | _ => none
  | .produce producer => produce state producer
  | .destroy => destroy state

/-! ## What may go wrong -/

/-- The consumer sleeps although the queue is stopped, and no thread is about to
notify it. -/
def LostWakeUp (state : State T) : Prop :=
  state.consumer = .asleep ∧ state.mQueue.stopped_ = true ∧
    state.destructor ≠ .stopped ∧ ∀ producer, state.producers producer ≠ .notifying

/-- The destructor waits in `join` for a consumer that cannot go on, and neither can a
producer that is in `push`. -/
def BlockedInJoin (state : State T) : Prop :=
  state.destructor = .notified ∧ state.consumer ≠ .finished ∧
    consume state = none ∧ ∀ producer, produce state producer = none

/-- The `notify_all` of `stop` does not come between the predicate and the sleep. -/
def Undisturbed (state : State T) (action : Action T) : Prop :=
  action = .destroy → state.destructor = .stopped → state.consumer ≠ .waiting

/-! ## The mutex and the flag -/

/-- The mutex is taken only by a thread that has it. -/
def MutexOwned (state : State T) : Prop :=
  state.mutex_ = true → state.consumer.holdsMutex = true ∨
    ∃ producer, (state.producers producer).holdsMutex = true

/-- The flag is set from `stop` on. -/
def FlagSet (state : State T) : Prop :=
  state.mQueue.stopped_ = true ↔
    state.destructor ≠ .running ∧ state.destructor ≠ .interrupted

theorem State.notify_consumer (state : State T) :
    state.notify.consumer = if state.consumer = .asleep then .woken else state.consumer := by
  unfold State.notify
  split
  · rfl
  · rfl

@[simp]
theorem State.notify_mQueue (state : State T) : state.notify.mQueue = state.mQueue := by
  unfold State.notify
  split
  · rfl
  · rfl

@[simp]
theorem State.notify_mutex (state : State T) : state.notify.mutex_ = state.mutex_ := by
  unfold State.notify
  split
  · rfl
  · rfl

@[simp]
theorem State.notify_producers (state : State T) :
    state.notify.producers = state.producers := by
  unfold State.notify
  split
  · rfl
  · rfl

@[simp]
theorem State.notify_destructor (state : State T) :
    state.notify.destructor = state.destructor := by
  unfold State.notify
  split
  · rfl
  · rfl

@[simp]
theorem State.notify_holdsMutex (state : State T) :
    state.notify.consumer.holdsMutex = state.consumer.holdsMutex := by
  rw [State.notify_consumer]
  split
  · next asleep => rw [asleep]; rfl
  · rfl

/-- The consumer takes the mutex, keeps it, releases it, or does nothing with it. -/
theorem mutexOwned_consume {state next : State T} (owned : MutexOwned state)
    (stepped : consume state = some next) : MutexOwned next := by
  unfold MutexOwned at owned ⊢
  unfold consume at stepped
  cases place : state.consumer with
  | looping =>
      simp only [place, Option.some.injEq] at stepped
      subst next
      intro taken
      have holder := owned taken
      rw [place] at holder
      rcases holder with consumer | producer
      · cases consumer
      · exact .inr producer
  | entering =>
      simp only [place] at stepped
      split at stepped
      · cases stepped
      · cases stepped
        exact fun _ => .inl rfl
  | testing =>
      simp only [place, Option.some.injEq] at stepped
      subst next
      intro _
      left
      dsimp only
      split
      · rfl
      · rfl
  | waiting =>
      simp only [place, Option.some.injEq] at stepped
      subst next
      intro taken
      cases taken
  | asleep => simp only [place, reduceCtorEq] at stepped
  | woken =>
      simp only [place] at stepped
      split at stepped
      · cases stepped
      · cases stepped
        exact fun _ => .inl rfl
  | taking =>
      simp only [place, Option.map_eq_some_iff] at stepped
      obtain ⟨popped, _, rfl⟩ := stepped
      intro taken
      cases taken
  | finished => simp only [place, reduceCtorEq] at stepped

/-- A producer that has not the mutex goes on without it. -/
theorem mutexOwned_produced {state : State T} (owned : MutexOwned state)
    {producer : Nat} (free : (state.producers producer).holdsMutex = false)
    (reached : Producer T) : MutexOwned (state.produced producer reached) := by
  intro taken
  rcases owned taken with consumer | ⟨holder, holds⟩
  · exact .inl consumer
  · have other : holder ≠ producer := by
      intro same
      rw [same, free] at holds
      cases holds
    refine .inr ⟨holder, ?_⟩
    simpa only [State.produced, Function.update_of_ne other] using holds

theorem mutexOwned_produce {state next : State T} (owned : MutexOwned state)
    {producer : Nat} (stepped : produce state producer = some next) : MutexOwned next := by
  unfold produce at stepped
  cases place : state.producers producer with
  | idle => simp only [place, reduceCtorEq] at stepped
  | locking item =>
      simp only [place] at stepped
      split at stepped
      · cases stepped
      · cases stepped
        refine fun _ => .inr ⟨producer, ?_⟩
        simp only [State.produced, Function.update_self]
        rfl
  | pushing item =>
      simp only [place, Option.some.injEq] at stepped
      subst next
      refine fun _ => .inr ⟨producer, ?_⟩
      simp only [State.produced, Function.update_self]
      rfl
  | pushed =>
      simp only [place, Option.some.injEq] at stepped
      subst next
      intro taken
      cases taken
  | notifying =>
      simp only [place, Option.some.injEq] at stepped
      subst next
      apply mutexOwned_produced
      · simpa only [MutexOwned, State.notify_mutex, State.notify_holdsMutex,
          State.notify_producers] using owned
      · rw [State.notify_producers, place]
        rfl

theorem mutexOwned_step {state next : State T} {action : Action T}
    (owned : MutexOwned state) (stepped : step state action = some next) :
    MutexOwned next := by
  cases action with
  | consume => exact mutexOwned_consume owned stepped
  | wakeUp =>
      simp only [step] at stepped
      split at stepped
      · cases stepped
        simpa only [MutexOwned, State.notify_mutex, State.notify_holdsMutex,
          State.notify_producers] using owned
      · cases stepped
  | call producer item =>
      simp only [step] at stepped
      split at stepped
      · next place =>
          cases stepped
          apply mutexOwned_produced owned
          rw [place]
          rfl
      · cases stepped
  | produce producer => exact mutexOwned_produce owned stepped
  | destroy =>
      simp only [step, destroy] at stepped
      split at stepped
      · cases stepped
        exact owned
      · cases stepped
        exact owned
      · cases stepped
        simpa only [MutexOwned, State.notify_mutex, State.notify_holdsMutex,
          State.notify_producers] using owned
      · split at stepped
        · cases stepped
          exact owned
        · cases stepped
      · cases stepped

theorem consume_stopped {state next : State T} (stepped : consume state = some next) :
    next.destructor = state.destructor ∧
      next.mQueue.stopped_ = state.mQueue.stopped_ := by
  unfold consume at stepped
  split at stepped
  · cases stepped
    exact ⟨rfl, rfl⟩
  · split at stepped
    · cases stepped
    · cases stepped
      exact ⟨rfl, rfl⟩
  · cases stepped
    exact ⟨rfl, rfl⟩
  · cases stepped
    exact ⟨rfl, rfl⟩
  · cases stepped
  · split at stepped
    · cases stepped
    · cases stepped
      exact ⟨rfl, rfl⟩
  · obtain ⟨popped, taken, rfl⟩ := Option.map_eq_some_iff.mp stepped
    refine ⟨rfl, ?_⟩
    unfold ConcurrentQueue.pop at taken
    split at taken
    · cases taken
      rfl
    · split at taken
      · cases taken
      · cases taken
        rfl
  · cases stepped

theorem produce_stopped {state next : State T} {producer : Nat}
    (stepped : produce state producer = some next) :
    next.destructor = state.destructor ∧
      next.mQueue.stopped_ = state.mQueue.stopped_ ∧
      (next.consumer = state.consumer ∨ state.consumer = .asleep ∧ next.consumer = .woken) := by
  unfold produce at stepped
  split at stepped
  · cases stepped
  · split at stepped
    · cases stepped
    · cases stepped
      exact ⟨rfl, rfl, .inl rfl⟩
  · cases stepped
    exact ⟨rfl, rfl, .inl rfl⟩
  · cases stepped
    exact ⟨rfl, rfl, .inl rfl⟩
  · cases stepped
    refine ⟨state.notify_destructor, congrArg _ state.notify_mQueue, ?_⟩
    simp only [State.produced, State.notify_consumer]
    split
    · next asleep => exact .inr ⟨asleep, rfl⟩
    · exact .inl rfl

/-- Only the destructor stops the queue. -/
theorem step_stopped {state next : State T} {action : Action T}
    (stepped : step state action = some next) (other : action ≠ .destroy) :
    next.destructor = state.destructor ∧
      next.mQueue.stopped_ = state.mQueue.stopped_ := by
  cases action with
  | consume => exact consume_stopped stepped
  | wakeUp =>
      simp only [step] at stepped
      split at stepped
      · cases stepped
        exact ⟨state.notify_destructor, congrArg _ state.notify_mQueue⟩
      · cases stepped
  | call producer item =>
      simp only [step] at stepped
      split at stepped
      · cases stepped
        exact ⟨rfl, rfl⟩
      · cases stepped
  | produce producer =>
      obtain ⟨destructor, stopped, _⟩ := produce_stopped stepped
      exact ⟨destructor, stopped⟩
  | destroy => exact absurd rfl other

theorem flagSet_step {state next : State T} {action : Action T} (flag : FlagSet state)
    (stepped : step state action = some next) : FlagSet next := by
  by_cases other : action = .destroy
  · subst action
    simp only [step, destroy] at stepped
    split at stepped
    · next place =>
        cases stepped
        simpa [FlagSet, place] using flag
    · cases stepped
      simp [FlagSet, ConcurrentQueue.stop]
    · next place =>
        cases stepped
        simpa [FlagSet, place] using flag
    · next place =>
        split at stepped
        · cases stepped
          simpa [FlagSet, place] using flag
        · cases stepped
    · cases stepped
  · obtain ⟨destructor, stopped⟩ := step_stopped stepped other
    rw [FlagSet, destructor, stopped]
    exact flag

/-! ## The consumer after the notification -/

/-- The destructor has notified. -/
def Destructor.hasNotified : Destructor → Bool
  | .notified | .joined => true
  | _ => false

/-- Once the destructor has notified, the consumer neither sleeps nor is about to. -/
def Awake (state : State T) : Prop :=
  state.destructor.hasNotified = true →
    state.consumer ≠ .asleep ∧ state.consumer ≠ .waiting

/-- The consumer goes to sleep only after it has found the queue empty and not
stopped. -/
theorem awake_consume {state next : State T} (awake : Awake state) (flag : FlagSet state)
    (stepped : consume state = some next) : Awake next := by
  obtain ⟨destructor, _⟩ := consume_stopped stepped
  intro notified
  rw [destructor] at notified
  obtain ⟨notAsleep, notWaiting⟩ := awake notified
  have stopped : state.mQueue.stopped_ = true := by
    apply flag.mpr
    cases place : state.destructor with
    | running => rw [place] at notified; cases notified
    | interrupted => rw [place] at notified; cases notified
    | stopped => simp
    | notified => simp
    | joined => simp
  unfold consume at stepped
  cases place : state.consumer with
  | looping =>
      simp only [place, Option.some.injEq] at stepped
      subst next
      dsimp only
      split
      · simp
      · simp
  | entering =>
      simp only [place] at stepped
      split at stepped
      · cases stepped
      · cases stepped
        simp
  | testing =>
      simp only [place, stopped, Bool.or_true, ↓reduceIte, Option.some.injEq] at stepped
      subst next
      simp
  | waiting => exact absurd place notWaiting
  | asleep => exact absurd place notAsleep
  | woken =>
      simp only [place] at stepped
      split at stepped
      · cases stepped
      · cases stepped
        simp
  | taking =>
      simp only [place, Option.map_eq_some_iff] at stepped
      obtain ⟨popped, _, rfl⟩ := stepped
      simp
  | finished => simp only [place, reduceCtorEq] at stepped

theorem State.notify_awake {state : State T} (awake : Awake state) :
    Awake state.notify := by
  intro notified
  rw [State.notify_destructor] at notified
  rw [State.notify_consumer, if_neg (awake notified).1]
  exact awake notified

theorem awake_destroy {state next : State T} (awake : Awake state)
    (undisturbed : Undisturbed state (.destroy : Action T))
    (stepped : destroy state = some next) : Awake next := by
  unfold destroy at stepped
  cases place : state.destructor with
  | running =>
      simp only [place, Option.some.injEq] at stepped
      subst next
      intro notified
      cases notified
  | interrupted =>
      simp only [place, Option.some.injEq] at stepped
      subst next
      intro notified
      cases notified
  | stopped =>
      simp only [place, Option.some.injEq] at stepped
      subst next
      intro _
      have notWaiting := undisturbed rfl place
      simp only [State.notify_consumer]
      split
      · simp
      · next notAsleep => exact ⟨notAsleep, notWaiting⟩
  | notified =>
      simp only [place] at stepped
      split at stepped
      · cases stepped
        exact fun _ => awake (by rw [place]; rfl)
      · cases stepped
  | joined => simp only [place, reduceCtorEq] at stepped

theorem awake_step {state next : State T} {action : Action T} (awake : Awake state)
    (flag : FlagSet state) (undisturbed : Undisturbed state action)
    (stepped : step state action = some next) : Awake next := by
  cases action with
  | consume => exact awake_consume awake flag stepped
  | wakeUp =>
      simp only [step] at stepped
      split at stepped
      · cases stepped
        exact State.notify_awake awake
      · cases stepped
  | call producer item =>
      simp only [step] at stepped
      split at stepped
      · cases stepped
        exact awake
      · cases stepped
  | produce producer =>
      obtain ⟨destructor, _, consumer⟩ := produce_stopped stepped
      intro notified
      rw [destructor] at notified
      rcases consumer with same | ⟨asleep, _⟩
      · rw [same]
        exact awake notified
      · exact absurd asleep (awake notified).1
  | destroy => exact awake_destroy awake undisturbed stepped

/-- The invariant of the runs in which nothing comes between the predicate and the
sleep. -/
structure Guarded (state : State T) : Prop where
  owned : MutexOwned state
  flag : FlagSet state
  awake : Awake state

theorem guarded_init : Guarded (init : State T) where
  owned := by
    intro taken
    cases taken
  flag := by simp [FlagSet, init, ConcurrentQueue.init]
  awake := by
    intro notified
    cases notified

theorem guarded_of_execution {state : State T}
    (execution : TransitionSystem.Execution step Undisturbed init state) :
    Guarded state := by
  apply execution.invariant guarded_init
  intro before action next guarded undisturbed stepped
  exact ⟨mutexOwned_step guarded.owned stepped, flagSet_step guarded.flag stepped,
    awake_step guarded.awake guarded.flag undisturbed stepped⟩

theorem Guarded.not_lostWakeUp {state : State T} (guarded : Guarded state) :
    ¬ LostWakeUp state := by
  intro lost
  obtain ⟨asleep, stopped, notPending, _⟩ := lost
  obtain ⟨notRunning, notInterrupted⟩ := guarded.flag.mp stopped
  have notified : state.destructor.hasNotified = true := by
    cases place : state.destructor with
    | running => exact absurd place notRunning
    | interrupted => exact absurd place notInterrupted
    | stopped => exact absurd place notPending
    | notified => rfl
    | joined => rfl
  exact (guarded.awake notified).1 asleep

/-- A producer that has the mutex can go on. -/
theorem produce_of_holdsMutex {state : State T} {producer : Nat}
    (holds : (state.producers producer).holdsMutex = true) :
    produce state producer ≠ none := by
  unfold produce
  cases place : state.producers producer with
  | idle => rw [place] at holds; cases holds
  | locking item => rw [place] at holds; cases holds
  | pushing item => simp
  | pushed => simp
  | notifying => rw [place] at holds; cases holds

/-- If the mutex is taken while the consumer has it not, then a producer can go on. -/
theorem Guarded.producer_progress {state : State T} (guarded : Guarded state)
    (other : state.consumer.holdsMutex = false) (taken : state.mutex_ = true) :
    ∃ producer, produce state producer ≠ none := by
  rcases guarded.owned taken with consumer | ⟨producer, holds⟩
  · rw [other] at consumer
    cases consumer
  · exact ⟨producer, produce_of_holdsMutex holds⟩

theorem Guarded.not_blockedInJoin {state : State T} (guarded : Guarded state) :
    ¬ BlockedInJoin state := by
  intro blocked
  obtain ⟨notified, unfinished, stuck, producersStuck⟩ := blocked
  have awake := guarded.awake (by rw [notified]; rfl)
  have stopped : state.mQueue.stopped_ = true :=
    guarded.flag.mpr (by rw [notified]; simp)
  -- The consumer can only be stuck before a mutex that a producer has.
  have waits : state.consumer.holdsMutex = false ∧ state.mutex_ = true := by
    unfold consume at stuck
    cases place : state.consumer with
    | looping => simp [place] at stuck
    | entering => simpa [place, Consumer.holdsMutex] using stuck
    | testing => simp [place] at stuck
    | waiting => exact absurd place awake.2
    | asleep => exact absurd place awake.1
    | woken => simpa [place, Consumer.holdsMutex] using stuck
    | taking => simp [place, ConcurrentQueue.pop, stopped] at stuck
    | finished => exact absurd place unfinished
  obtain ⟨producer, progress⟩ := guarded.producer_progress waits.1 waits.2
  exact progress (producersStuck producer)

/-! ## The shutdown -/

theorem flagSet_of_reachable {state : State T}
    (reachable : TransitionSystem.Reachable step init state) : FlagSet state := by
  apply reachable.invariant guarded_init.flag
  intro before action next flag _ stepped
  exact flagSet_step flag stepped

/-- As long as the `notify_all` of `stop` does not come between the predicate and the
sleep of the consumer, no wake-up is lost and `join` is not blocked, in any state of
any run.  Where it does come between them, the wake-up is lost with the next step of
the consumer unless a producer is still about to notify. -/
theorem queueShutdown_noLostWakeUp :
    (∀ state : State T, TransitionSystem.Execution step Undisturbed init state →
      ¬ LostWakeUp state ∧ ¬ BlockedInJoin state) ∧
    ∀ state next : State T, TransitionSystem.Reachable step init state →
      ¬ Undisturbed state (.destroy : Action T) →
      (∀ producer, state.producers producer ≠ .notifying) →
      step state .destroy = some next →
      ∃ final, step next .consume = some final ∧ LostWakeUp final := by
  constructor
  · intro state execution
    have guarded := guarded_of_execution execution
    exact ⟨guarded.not_lostWakeUp, guarded.not_blockedInJoin⟩
  · intro state next reachable disturbed silent stepped
    simp only [Undisturbed, ne_eq, forall_const, not_forall, not_not] at disturbed
    obtain ⟨place, waiting⟩ := disturbed
    have stopped : state.mQueue.stopped_ = true :=
      (flagSet_of_reachable reachable).mpr (by rw [place]; simp)
    have unwoken : state.notify = state := by
      unfold State.notify
      rw [if_neg (by rw [waiting]; simp)]
    simp only [step, destroy, place, unwoken, Option.some.injEq] at stepped
    subst next
    refine ⟨{ state with mutex_ := false, consumer := .asleep, destructor := .notified },
      ?_, ?_⟩
    · simp only [step, consume, waiting]
    · exact ⟨rfl, stopped, by simp, silent⟩

/-- The operator is destroyed while the queue is empty: the consumer has just found it
empty and not stopped, then `stop` sets the flag and notifies, then the consumer goes
to sleep. -/
def destroyed : List (Action Nat) :=
  [.consume, .consume, .consume, .destroy, .destroy, .destroy, .consume]

/-- The state at the end of `destroyed`. -/
def asleepForever : State Nat :=
  ⟨⟨[], true⟩, false, true, .asleep, fun _ => .idle, .notified⟩

theorem not_queueShutdown_noLostWakeUp :
    ¬ ∀ state : State Nat, TransitionSystem.Reachable step init state →
      ¬ LostWakeUp state ∧ ¬ BlockedInJoin state := by
  intro safe
  have ran : TransitionSystem.run step init destroyed = some asleepForever := rfl
  refine (safe _ (TransitionSystem.Execution.of_run ran)).1 ⟨rfl, rfl, ?_, ?_⟩
  · decide
  · intro producer notifying
    cases notifying

end PipeFabric.QueueThreads
